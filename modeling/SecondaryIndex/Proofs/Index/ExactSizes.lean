import SecondaryIndex.Proofs.Index.Estimates

/-!
# Sizes that do not fit

What is added to the size of every record is a word that the options of a store choose freely, and the sizes of
records are added up in words. Nothing in the options keeps these additions from an overflow: there is one as soon as
a sum is no word any more (`Reported`). Since nothing that is added makes a sum less, some addition on the way
overflows if and only if the sum of all sizes is no word (`Store.reported_totalSize`), so a size that is reported at all
is the sum of the sizes of the records.

An estimate is then the one that numbers would give (`estimateOfNumbers`), and where a sum is no word there is no
estimate either. One record is enough for that (`sizes_overflow_of_great_overhead`).
-/

namespace SecondaryIndex

variable {K V : Type}

/-! ### Sizes that are reported -/

/-- What is reported of a number: the number if it is a word, and an overflow otherwise. -/
structure Reported (outcome : Except EngineError UInt64) (number : Nat) : Prop where
  exact : number < 2 ^ 64 → ∃ size, outcome = .ok size ∧ size.toNat = number
  overflows : 2 ^ 64 ≤ number → outcome = .error .overflow

namespace Store

variable (store : Store) {ns : Namespace} {table : Table}

theorem reported_sizeOfNat (n : Nat) : Reported (sizeOfNat n) n :=
  ⟨fun h => ⟨_, sizeOfNat_of_lt h, UInt64.toNat_ofNat_of_lt' h⟩, sizeOfNat_of_le⟩

/-- The two additions of the size of a record overflow if and only if the size is no word. -/
theorem reported_recordSize (key value : Bytes) :
    Reported (store.recordSize key value) (store.sizeOfRecord key value) := by
  rw [recordSize_eq]
  exact reported_sizeOfNat _

/-- Some addition on the way to the size of records overflows if and only if the size is no word. -/
theorem reported_totalSize (records : SortedMap Bytes Bytes) :
    Reported (store.totalSize records) (store.sumOfSizes records.get?) := by
  rw [totalSize_eq, sumOfSizes_get?]
  exact reported_sizeOfNat _

/-- The size that is told of the recent records of a range. -/
theorem reported_recentTally (htable : store.tables.get? ns = some table) (range : Range) :
    Reported ((store.recentTally ns range).map Tally.size) (store.sumOfSizes (range.restrict table.recent)) := by
  have hsize : (store.recentTally ns range).map Tally.size =
      store.totalSize ((table.memtable.within range).mapValues fun slot => slot.getD []) := by
    rw [recentTally_eq htable, ← totalSize_eq]
    cases store.totalSize _ <;> rfl
  rw [hsize, table.recent_eq, Range.restrict_get?, SortedMap.mapValues_within]
  exact store.reported_totalSize _

/-- The size that is told of the flushed records of a range. -/
theorem reported_olderSize (htable : store.tables.get? ns = some table) (range : Range) :
    Reported (store.olderSize ns range) (store.sumOfSizes (range.restrict table.flushed.get?)) := by
  rw [olderSize_eq htable, ← totalSize_eq, Range.restrict_get?]
  exact store.reported_totalSize _

end Store

/-! ### Estimates of numbers -/

/-- The number of entries that statistics suggest, computed with numbers instead of words. -/
def estimateOfNumbers (fallbackSize count recent older : Nat) : Nat :=
  if 0 < count then min maxEstimate (count + older / max 1 (recent / count))
  else if older = 0 then 0
  else max 1 (older / max 1 fallbackSize)

theorem estimateEntries_eq (fallbackSize : UInt64) (recent : Tally) (older : UInt64) :
    estimateEntries fallbackSize recent older =
      estimateOfNumbers fallbackSize.toNat recent.count recent.size.toNat older.toNat := by
  have hzero : older = 0 ↔ older.toNat = 0 := UInt64.toNat_inj.symm
  unfold estimateEntries estimateOfNumbers
  simp only [hzero]

namespace Index

variable {index : Index K V} {db : Database} {range : Range} {table : Table}

/-- The sizes of the records of a range, each by itself and all of a layer taken together, are reported exactly
as long as they are words, and they overflow as soon as they are not. The same is so of an estimate: it is the one
of the exact numbers if both sums are words, and it overflows otherwise. The options do not matter but for what they
add to each size. -/
theorem sizes_exact_iff (htable : db.engine.store.tables.get? index.ns = some table) (range : Range) :
    (∀ key value, Reported (db.engine.store.recordSize key value) (db.engine.store.sizeOfRecord key value)) ∧
    Reported ((db.engine.store.recentTally index.ns range).map Tally.size)
      (db.engine.store.sumOfSizes (range.restrict table.recent)) ∧
    Reported (db.engine.store.olderSize index.ns range)
      (db.engine.store.sumOfSizes (range.restrict table.flushed.get?)) ∧
    ∃ count : Nat, count = {key | (range.restrict table.recent key).isSome}.encard ∧
      (∀ recent, db.engine.store.recentTally index.ns range = .ok recent → recent.count = count) ∧
      (db.engine.faults = .healthy →
        (db.engine.store.Fits table range →
          ((index.estimateRange range).run db).1 = .ok (estimateOfNumbers
            index.options.fallbackSize.toNat count
            (db.engine.store.sumOfSizes (range.restrict table.recent))
            (db.engine.store.sumOfSizes (range.restrict table.flushed.get?)))) ∧
        (¬ db.engine.store.Fits table range →
          ((index.estimateRange range).run db).1 = .error (.storage .overflow))) := by
  refine ⟨db.engine.store.reported_recordSize, db.engine.store.reported_recentTally htable range,
    db.engine.store.reported_olderSize htable range, (table.memtable.within range).size, ?_, fun recent htally => ?_,
    fun hhealthy => ⟨fun hfits => ?_, estimateRange_overflows hhealthy htable⟩⟩
  · rw [table.recent_eq, Range.restrict_get?, SortedMap.encard_isSome, SortedMap.mapValues_within,
      SortedMap.size_mapValues]
  · exact ((Store.recentTally_eq_ok_iff htable).1 htally).2.1
  -- sizes that are words are the exact ones, and the estimate is computed from them
  · obtain ⟨count, ⟨⟨recent, hrecent, -, hsum⟩, older, holder, hsum'⟩, -⟩ := Store.reports htable hfits
    rw [estimateRange_of_healthy index hhealthy, hrecent, holder, ← hsum, ← hsum',
      ← ((Store.recentTally_eq_ok_iff htable).1 hrecent).2.1, ← estimateEntries_eq]
    rfl

end Index

/-- An index with an entry that was flushed and one that was not, in a store that adds a little to the size
of every record. -/
theorem sizes_exact_iff_of_two_entries :
    ∃ (index : Index UInt64 UInt64) (db : Database) (table : Table) (count : Nat),
      db.engine.store.tables.get? index.ns = some table ∧ db.engine.faults = .healthy ∧
      db.engine.store.Fits table Index.fullRange ∧
      Reported (db.engine.store.olderSize index.ns Index.fullRange)
        (db.engine.store.sumOfSizes (Index.fullRange.restrict table.flushed.get?)) ∧
      ((index.estimateRange Index.fullRange).run db).1 = .ok (estimateOfNumbers
        index.options.fallbackSize.toNat count
        (db.engine.store.sumOfSizes (Index.fullRange.restrict table.recent))
        (db.engine.store.sumOfSizes (Index.fullRange.restrict table.flushed.get?))) := by
  let index : Index UInt64 UInt64 := .create "entries" "entries" .unsigned .unsigned {}
  let actions : List Action := [.store (.createNamespace "entries"),
    .index (.oneWay index) none (.call (.add 1 10)), .store (.flush "entries"),
    .index (.oneWay index) none (.call (.add 1 20))]
  let db := actions.foldl (fun db action => action.run db) (.ofOptions { recordOverhead := 8 })
  have hhealthy : db.engine.faults = .healthy :=
    FaultPlan.eq_healthy fun call => by cases call <;> decide +kernel
  have hweights : (db.engine.store.tables.get? index.ns).map (fun table => decide (
      db.engine.store.weight ((table.memtable.within Index.fullRange).mapValues
        fun slot => slot.getD []) < 2 ^ 64 ∧
      db.engine.store.weight (table.flushed.within Index.fullRange) < 2 ^ 64)) = some true := by
    decide +kernel
  obtain ⟨table, htable, hdecided⟩ := Option.map_eq_some_iff.1 hweights
  have hfits := Store.fits_iff.2 (of_decide_eq_true hdecided)
  obtain ⟨-, -, holder, count, -, -, hestimate⟩ := Index.sizes_exact_iff htable Index.fullRange
  exact ⟨index, db, table, count, htable, hhealthy, hfits, holder, (hestimate hhealthy).1 hfits⟩

/-- What is added to the size of every record can be such that there is no room for a record. Then one record is
enough for its size, that of the recent records and the estimate of the index to overflow. -/
theorem sizes_overflow_of_great_overhead :
    ∃ (index : AnyIndex UInt64 UInt64) (db : Database) (table : Table),
      Database.Runs (Action.Respects index)
        (.ofOptions { memtableCapacity := 0, recordOverhead := 18446744073709551599 }) db ∧
      db.engine.store.tables.get? index.forward.ns = some table ∧
      {key | (Index.fullRange.restrict table.recent key).isSome}.encard = 1 ∧
      db.engine.store.sumOfSizes (Index.fullRange.restrict table.recent) = 2 ^ 64 ∧
      db.engine.store.recentTally index.forward.ns Index.fullRange = .error .overflow ∧
      ((index.forward.estimateRange Index.fullRange).run db).1 = .error (.storage .overflow) := by
  let index : AnyIndex UInt64 UInt64 := .oneWay (.create "entries" "entries" .unsigned .unsigned {})
  obtain ⟨db, runs, hhealthy, hsizes⟩ : ∃ db,
      Database.Runs (Action.Respects index)
        (.ofOptions { memtableCapacity := 0, recordOverhead := 18446744073709551599 }) db ∧
      db.engine.faults = .healthy ∧
      (db.engine.store.tables.get? "entries").map (fun table => decide (
        (table.memtable.within Index.fullRange).size = 1 ∧
        db.engine.store.weight ((table.memtable.within Index.fullRange).mapValues
          fun slot => slot.getD []) = 2 ^ 64)) = some true := by
    have hspace : Database.Runs (Action.Respects index)
        (.ofOptions { memtableCapacity := 0, recordOverhead := 18446744073709551599 }) _ :=
      Database.Runs.refl.step (.store (.createNamespace "entries")) (.elsewhere _ nofun)
    have hadded := hspace.step _ (.own none (.call (.add 1 10)))
    exact ⟨_, hadded, FaultPlan.eq_healthy fun call => by cases call <;> decide +kernel,
      by decide +kernel⟩
  obtain ⟨table, htable, hdecided⟩ := Option.map_eq_some_iff.1 hsizes
  obtain ⟨hone, hweight⟩ := of_decide_eq_true hdecided
  -- the exact sizes are about what the memtable shows, and the run decided about its list
  have hlayer : Index.fullRange.restrict table.recent =
      ((table.memtable.within Index.fullRange).mapValues fun slot => slot.getD []).get? := by
    rw [table.recent_eq, Range.restrict_get?, SortedMap.mapValues_within]
  have hsum : db.engine.store.sumOfSizes (Index.fullRange.restrict table.recent) = 2 ^ 64 := by
    rw [hlayer, Store.sumOfSizes_get?, hweight]
  refine ⟨index, db, table, runs, htable, ?_, hsum, ?_, ?_⟩
  · rw [hlayer, SortedMap.encard_isSome, SortedMap.size_mapValues, hone]
    rfl
  · have htally := Store.recentTally_eq htable Index.fullRange
    rw [hweight] at htally
    exact htally
  · exact Index.estimateRange_overflows hhealthy htable fun hfits => absurd hfits.recent (by omega)

end SecondaryIndex
