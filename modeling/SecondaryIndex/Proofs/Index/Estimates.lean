import SecondaryIndex.Index.Estimate
import SecondaryIndex.Proofs.Index.Owned
import SecondaryIndex.Proofs.Store.Statistics

/-!
# When an estimate is zero

An estimate goes one of three ways. With a recent record in the range the recent ones are counted, so it is
not zero; with no recent record but with some weight of older ones it is at least one; and it is zero if there is
neither. So an estimate is zero exactly if there is no recent record and the older ones weigh nothing
(`estimateEntries_eq_zero_iff`), and what is to be shown is that older records weigh something.

They do because of their keys. Where there is no recent record in the range, no older one is shadowed, so it is
seen; in a namespace that an index has to itself what is seen is an entry, and an entry begins with the length of
its key (`AnyIndex.Owns.length_pos`).

An estimate is made of sums of sizes, so it is made only as long as they are words (`Store.Fits`). If they are not,
the additions overflow, and so does the estimate (`Index.estimateRange_overflows`).
-/

namespace SecondaryIndex

variable {K V : Type}

/-! ### Divisions -/

/-- A division that refuses to divide by zero. -/
def divide? (a b : Nat) : Option Nat := if b = 0 then none else some (a / b)

theorem divide?_of_pos {a b : Nat} (h : 0 < b) : divide? a b = some (a / b) :=
  if_neg (Nat.ne_of_gt h)

/-- The number of entries that statistics suggest, with divisions that refuse to divide by zero. -/
def estimateEntries? (fallbackSize : UInt64) (recent : Tally) (older : UInt64) : Option Nat :=
  if 0 < recent.count then do
    let average ← divide? recent.size.toNat recent.count
    let further ← divide? older.toNat (max 1 average)
    pure (min maxEstimate (recent.count + further))
  else if older = 0 then pure 0
  else do
    let entries ← divide? older.toNat (max 1 fallbackSize.toNat)
    pure (max 1 entries)

/-- An estimate never divides by zero, whatever the statistics are and whatever size is assumed. -/
theorem estimateEntries?_eq (fallbackSize : UInt64) (recent : Tally) (older : UInt64) :
    estimateEntries? fallbackSize recent older = some (estimateEntries fallbackSize recent older) := by
  have hpos (n : Nat) : 0 < max 1 n := Nat.lt_of_lt_of_le Nat.one_pos (Nat.le_max_left 1 n)
  unfold estimateEntries? estimateEntries
  split
  · next hcount =>
    rw [divide?_of_pos hcount, Option.bind_eq_bind, Option.bind_some, divide?_of_pos (hpos _)]
    rfl
  · split
    · rfl
    · rw [divide?_of_pos (hpos _)]
      rfl

/-- An estimate is zero if there is no recent record, and older ones do not weigh anything. -/
theorem estimateEntries_eq_zero_iff {fallbackSize : UInt64} {recent : Tally} {older : UInt64} :
    estimateEntries fallbackSize recent older = 0 ↔ recent.count = 0 ∧ older = 0 := by
  have hmax : 0 < maxEstimate := by decide
  unfold estimateEntries
  split
  · next hcount =>
    refine ⟨fun hzero => ?_, fun hnone => absurd hnone.1 (Nat.ne_of_gt hcount)⟩
    have hleast (further : Nat) : 0 < min maxEstimate (recent.count + further) :=
      Nat.lt_min.2 ⟨hmax, Nat.lt_of_lt_of_le hcount (Nat.le_add_right _ _)⟩
    exact absurd hzero (Nat.ne_of_gt (hleast _))
  · next hcount =>
    have hnone : recent.count = 0 := Nat.eq_zero_of_not_pos hcount
    split
    · next hweightless => exact ⟨fun _ => ⟨hnone, hweightless⟩, fun _ => rfl⟩
    · next hheavy =>
      refine ⟨fun hzero => ?_, fun h => absurd h.2 hheavy⟩
      omega

/-! ### Weights -/

/-- Records with keys that are not empty weigh nothing only if there are none. -/
theorem Store.weight_eq_zero_iff {store : Store} {records : SortedMap Bytes Bytes}
    (hkeys : ∀ key, (records.get? key).isSome → 0 < key.length) :
    store.weight records = 0 ↔ ∀ key, records.get? key = none := by
  constructor
  · intro hzero key
    by_contra hsome
    obtain ⟨value, hvalue⟩ := Option.ne_none_iff_exists'.1 hsome
    have hnothing : store.sizeOfRecord key value = 0 := List.sum_eq_zero_iff_forall_eq_nat.1 hzero _
      (List.mem_map_of_mem (SortedMap.get?_eq_some_iff.1 hvalue))
    have hpos := hkeys key (by rw [hvalue]; rfl)
    unfold sizeOfRecord at hnothing
    omega
  · intro hnone
    have hempty : records = ∅ := SortedMap.ext_get? hnone
    rw [hempty]
    rfl

/-! ### Estimates -/

namespace Index

open Program IndexM

variable {index : Index K V} {db : Database} {range : Range} {table : Table} {n : Nat}

/-- A statistic that was given is that of the store. -/
theorem of_statistic {α : Type} {call : EngineCall} {program : EngineM α}
    {statistic : Except EngineError α} {a : α} {db' : Database}
    (hrun : program.run db.engine =
      if db.engine.fails call then (.error (.injected call), db.engine.drawn call)
      else (statistic, db.engine.drawn call))
    (h : (ofEngine program).run db = (.ok a, db')) :
    statistic = .ok a ∧ db'.engine.store = db.engine.store := by
  rw [run_ofEngine, hrun] at h
  cases hfails : db.engine.fails call with
  | true =>
    rw [hfails] at h
    cases h
  | false =>
    rw [hfails, if_neg Bool.false_ne_true] at h
    cases statistic with
    | error err => cases h
    | ok a =>
      cases h
      exact ⟨rfl, rfl⟩

/-- An estimate is made of what the engine tells of the range. -/
theorem of_estimateRange (h : ((index.estimateRange range).run db).1 = .ok n) :
    ∃ recent older, db.engine.store.recentTally index.ns range = .ok recent ∧
      db.engine.store.olderSize index.ns range = .ok older ∧
      estimateEntries index.options.fallbackSize recent older = n := by
  unfold estimateRange at h
  rcases hrecent : (ofEngine (Engine.recentTally index.ns range)).run db with ⟨err | recent, db₁⟩
  · rw [run_bind_error hrecent] at h
    cases h
  rw [run_bind_ok hrecent] at h
  rcases holder : (ofEngine (Engine.olderSize index.ns range)).run db₁ with ⟨err | older, db₂⟩
  · rw [run_bind_error holder] at h
    cases h
  rw [run_bind_ok holder] at h
  obtain ⟨htally, hstore⟩ := of_statistic (Engine.run_recentTally _ _ _) hrecent
  obtain ⟨hsize, -⟩ := of_statistic (Engine.run_olderSize _ _ _) holder
  rw [hstore] at hsize
  exact ⟨recent, older, htally, hsize, Except.ok.inj h⟩

/-- Where no fault is in the way, an estimate is made of the statistics of the store, and it fails only as they
do. -/
theorem estimateRange_of_healthy (index : Index K V) (hhealthy : db.engine.faults = .healthy) (range : Range) :
    ((index.estimateRange range).run db).1 = Except.mapError IndexError.storage (do
      let recent ← db.engine.store.recentTally index.ns range
      let older ← db.engine.store.olderSize index.ns range
      pure (estimateEntries index.options.fallbackSize recent older)) := by
  -- without faults a statistic is what the store says, and the database stays as it is
  have hask {α : Type} {program : EngineM α} {call : EngineCall} {statistic : Except EngineError α}
      (hrun : program.run db.engine =
        if db.engine.fails call then (.error (.injected call), db.engine.drawn call)
        else (statistic, db.engine.drawn call)) :
      (ofEngine program).run db = (statistic.mapError .storage, db) := by
    rw [Engine.fails_of_healthy _ _ hhealthy, if_neg Bool.false_ne_true,
      Engine.drawn_of_healthy _ _ hhealthy] at hrun
    rw [run_ofEngine, hrun]
  have htally := hask (Engine.run_recentTally db.engine index.ns range)
  have hsize := hask (Engine.run_olderSize db.engine index.ns range)
  unfold estimateRange
  cases hrecent : db.engine.store.recentTally index.ns range with
  | error err =>
    rw [hrecent] at htally
    rw [run_bind_error htally]
    rfl
  | ok recent =>
    rw [hrecent] at htally
    rw [run_bind_ok htally]
    cases holder : db.engine.store.olderSize index.ns range with
    | error err =>
      rw [holder] at hsize
      rw [run_bind_error hsize]
      rfl
    | ok older =>
      rw [holder] at hsize
      rw [run_bind_ok hsize]
      rfl

/-- Where no fault is in the way and the sizes are words, an estimate is made. -/
theorem exists_estimate (hhealthy : db.engine.faults = .healthy)
    (htable : db.engine.store.tables.get? index.ns = some table) (hfits : db.engine.store.Fits table range) :
    ∃ n, ((index.estimateRange range).run db).1 = .ok n := by
  obtain ⟨count, ⟨⟨recent, hrecent, -, -⟩, older, holder, -⟩, -⟩ := Store.reports htable hfits
  rw [estimateRange_of_healthy index hhealthy, hrecent, holder]
  exact ⟨_, rfl⟩

/-- Where no fault is in the way and the sizes are no words, an estimate overflows as they do. -/
theorem estimateRange_overflows (hhealthy : db.engine.faults = .healthy)
    (htable : db.engine.store.tables.get? index.ns = some table)
    (hfits : ¬ db.engine.store.Fits table range) :
    ((index.estimateRange range).run db).1 = .error (.storage .overflow) := by
  rw [estimateRange_of_healthy index hhealthy]
  by_cases hrecent : db.engine.store.weight
      ((table.memtable.within range).mapValues fun slot => slot.getD []) < 2 ^ 64
  · have holder : ¬ db.engine.store.weight (table.flushed.within range) < 2 ^ 64 :=
      fun hlt => hfits (Store.fits_iff.2 ⟨hrecent, hlt⟩)
    rw [Store.recentTally_eq htable, Store.sizeOfNat_of_lt hrecent, Store.olderSize_eq htable,
      Store.sizeOfNat_of_le (Nat.not_lt.1 holder)]
    rfl
  · rw [Store.recentTally_eq htable, Store.sizeOfNat_of_le (Nat.not_lt.1 hrecent)]
    rfl

/-- An estimate is zero only for a range in which a table has no record, seen or not. -/
theorem estimateRange_eq_zero_iff (hkeys : ∀ key, (db.engine.store.read (index.ns, key)).isSome → 0 < key.length)
    (htable : db.engine.store.tables.get? index.ns = some table)
    (h : ((index.estimateRange range).run db).1 = .ok n) :
    n = 0 ↔ ∀ key, range.contains key = true →
      table.memtable.get? key = none ∧ table.flushed.get? key = none := by
  obtain ⟨recent, older, htally, hsize, rfl⟩ := of_estimateRange h
  obtain ⟨-, hcount, -⟩ := (Store.recentTally_eq_ok_iff htable).1 htally
  obtain ⟨-, hweight⟩ := (Store.olderSize_eq_ok_iff htable).1 hsize
  have hwithin {α : Type} (m : SortedMap Bytes α) : (∀ key, (m.within range).get? key = none) ↔
      ∀ key, range.contains key = true → m.get? key = none := by
    simp only [SortedMap.get?_within, ite_eq_right_iff]
  rw [estimateEntries_eq_zero_iff, hcount, SortedMap.size_eq_zero_iff, hwithin, ← UInt64.toNat_inj, hweight,
    UInt64.toNat_zero]
  constructor
  · rintro ⟨hrecent, hweightless⟩
    -- no recent record shadows an older one, so an older one is seen and has a key that is not empty
    have hpos (key : Bytes) (hsome : ((table.flushed.within range).get? key).isSome) : 0 < key.length := by
      rw [SortedMap.get?_within] at hsome
      cases hcontains : range.contains key with
      | false => simp [hcontains] at hsome
      | true =>
        refine hkeys key ?_
        rw [Store.read_of_table htable, Table.get?, hrecent key hcontains]
        simpa [hcontains] using hsome
    rw [Store.weight_eq_zero_iff hpos, hwithin] at hweightless
    exact fun key hcontains => ⟨hrecent key hcontains, hweightless key hcontains⟩
  · intro hnone
    refine ⟨fun key hcontains => (hnone key hcontains).1, ?_⟩
    have hempty : table.flushed.within range = ∅ :=
      SortedMap.ext_get? ((hwithin table.flushed).2 fun key hcontains => (hnone key hcontains).2)
    rw [hempty]
    rfl

end Index

/-! ### Namespaces of an index -/

/-- An entry begins with the length of its key, so it is not empty. -/
theorem Index.Entry.length_pos {index : Index K V} {physical : Bytes} (h : index.Entry physical) :
    0 < physical.length := by
  obtain ⟨key, value, hencode⟩ := h
  obtain ⟨-, rfl⟩ := Layout.join_eq_ok_iff.1 hencode
  have hwidth : 0 < index.codec.layout.width := by
    cases index.codec.layout <;> decide
  simp only [List.length_append, BigEndian.length_ofNat]
  omega

/-- What an index owns under a key that is not empty. -/
theorem AnyIndex.Owns.length_pos {index : AnyIndex K V} {x : Place} {value : Bytes}
    (h : index.Owns x (some value)) (hmem : x.1 ∈ index.namespaces) : 0 < x.2.length := by
  cases index with
  | oneWay index => exact ((h hmem).2 value rfl).2.length_pos
  | twoWay index =>
    rcases h hmem with hforward | hreverse
    · exact (hforward.2 value rfl).2.length_pos
    · exact (hreverse.2 value rfl).2.length_pos

/-- The halves of an index: the pairs by key, and the pairs by value if they are kept. -/
inductive AnyIndex.Half (index : AnyIndex K V) : (A B : Type) → Index A B → Prop
  | forward : index.Half K V index.forward
  | reverse (reverse : Index V K) (kept : index.reverse? = some reverse) : index.Half V K reverse

theorem AnyIndex.Half.mem {index : AnyIndex K V} {A B : Type} {half : Index A B}
    (h : index.Half A B half) : half.ns ∈ index.namespaces := by
  cases h with
  | forward => exact index.forward_mem
  | reverse reverse kept =>
    cases index with
    | oneWay index => cases kept
    | twoWay index =>
      cases kept
      exact List.mem_cons_of_mem _ List.mem_cons_self

/-- Flushing a namespace, by itself or with all others, flushes its table. -/
theorem Engine.table_of_flush {e : Engine} {ns : Namespace} {table : Table} {flush : StoreCall}
    (hflush : flush = .flush ns ∨ flush = .flushAll) (htable : e.store.tables.get? ns = some table) :
    ((Engine.perform flush).run e).2.store.tables.get? ns = some table.flush ∧
      ((Engine.perform flush).run e).2.store.options = e.store.options ∧
      ((Engine.perform flush).run e).2.faults = e.faults := by
  rcases hflush with rfl | rfl
  · have hrun : e.store.flush ns =
        .ok { e.store with tables := e.store.tables.insert ns table.flush } := by
      unfold Store.flush
      rw [Store.table_eq_ok_iff.2 htable]
      rfl
    simp only [Engine.perform, Program.run_bind, Engine.run_ask, hrun]
    show (e.store.tables.insert ns table.flush).get? ns = _ ∧ _
    rw [SortedMap.get?_insert, if_pos rfl]
    exact ⟨rfl, rfl, rfl⟩
  · show (e.store.tables.mapValues Table.flush).get? ns = _ ∧ _
    rw [SortedMap.get?_mapValues, htable]
    exact ⟨rfl, rfl, rfl⟩

namespace Database.Runs

variable {index : AnyIndex K V} {options : StoreOptions} {db : Database} {A B : Type}
  {half : Index A B}

/-- What is committed in a namespace of an index that has it to itself is under keys that are not empty. -/
theorem length_pos (runs : Database.Runs (Action.Respects index) (.ofOptions options) db)
    (hhalf : index.Half A B half) (key : Bytes)
    (h : (db.engine.store.read (half.ns, key)).isSome) : 0 < key.length := by
  obtain ⟨value, hvalue⟩ := Option.isSome_iff_exists.1 h
  have howns : index.Owns (half.ns, key) (some value) := runs.within.committed hvalue
  exact howns.length_pos hhalf.mem

/-- An estimate is zero exactly for a range in which no record lies, be it recent or older. Wherever a run leads
in which the namespace is written through the index only, and as long as the sizes of the records in the range are
words when they are added up, an estimate is made and divides by zero nowhere, and it is at least one for a range
in which anything is committed, before and after the namespace was flushed. -/
theorem estimate_eq_zero_iff
    (runs : Database.Runs (Action.Respects index) (.ofOptions options) db)
    (hhalf : index.Half A B half) {table : Table}
    (htable : db.engine.store.tables.get? half.ns = some table) (range : Range)
    (hfits : db.engine.store.Fits table range) :
    (db.engine.faults = .healthy → ∃ n, ((half.estimateRange range).run db).1 = .ok n) ∧
    (∀ n, ((half.estimateRange range).run db).1 = .ok n →
      (∃ recent older, db.engine.store.recentTally half.ns range = .ok recent ∧
        db.engine.store.olderSize half.ns range = .ok older ∧
        estimateEntries? half.options.fallbackSize recent older = some n) ∧
      (n = 0 ↔ ∀ key, range.contains key = true →
        table.memtable.get? key = none ∧ table.flushed.get? key = none) ∧
      ∀ key, range.contains key = true → (db.engine.store.read (half.ns, key)).isSome → 1 ≤ n) ∧
    ∀ flush, flush = .flush half.ns ∨ flush = .flushAll →
      db.engine.store.weight (table.contents.within range) < 2 ^ 64 →
      (db.engine.faults = .healthy →
        ∃ n, ((half.estimateRange range).run ((Action.store flush).run db)).1 = .ok n) ∧
      ∀ n, ((half.estimateRange range).run ((Action.store flush).run db)).1 = .ok n →
        (n = 0 ↔ ∀ key, range.contains key = true → db.engine.store.read (half.ns, key) = none) := by
  refine ⟨fun hhealthy => Index.exists_estimate hhealthy htable hfits, fun n hn => ?_,
    fun flush hflush hweight => ?_⟩
  · have hzero := Index.estimateRange_eq_zero_iff (runs.length_pos hhalf) htable hn
    obtain ⟨recent, older, htally, hsize, hestimate⟩ := Index.of_estimateRange hn
    refine ⟨⟨recent, older, htally, hsize, ?_⟩, hzero, fun key hcontains hlive => ?_⟩
    · rw [estimateEntries?_eq, hestimate]
    -- a live record is in one of the two layers
    · refine Nat.one_le_iff_ne_zero.2 fun hnothing => ?_
      obtain ⟨hrecent, holder⟩ := hzero.1 hnothing key hcontains
      rw [Store.read_of_table htable, Table.get?, hrecent, holder] at hlive
      cases hlive
  · -- flushing is one more step of the run, after which all records are older ones
    have htargets : (Action.store flush).targets = [] := by
      rcases hflush with rfl | rfl <;> rfl
    have hflushed := runs.step (.store flush) (.elsewhere _ (by simp [htargets]))
    obtain ⟨htable', hoptions, hfaults⟩ := Engine.table_of_flush hflush htable
    refine ⟨fun hhealthy => ?_, fun n hn => ?_⟩
    · refine Index.exists_estimate (hfaults.trans hhealthy) htable' ((Store.fits_iff_of_settled rfl).2 ?_)
      exact (Store.weight_of_options hoptions _).trans_lt hweight
    · rw [Index.estimateRange_eq_zero_iff (hflushed.length_pos hhalf) htable' hn]
      refine forall₂_congr fun key _ => ?_
      show none = none ∧ table.contents.get? key = none ↔ _
      rw [Table.get?_contents, Store.read_of_table htable, and_iff_right rfl]

end Database.Runs

/-- An index of which all entries were flushed, with no size assumed of an entry and nothing added to the sizes of
records. -/
theorem estimate_eq_zero_iff_of_zero_fallback :
    ∃ (index : AnyIndex UInt64 UInt64) (db : Database) (table : Table) (n : Nat),
      Database.Runs (Action.Respects index) (.ofOptions { recordOverhead := 0 }) db ∧
      index.forward.options.fallbackSize = 0 ∧
      db.engine.store.tables.get? index.forward.ns = some table ∧
      ((index.forward.estimateRange Index.fullRange).run db).1 = .ok n ∧
      (n = 0 ↔ ∀ key, Index.fullRange.contains key = true →
        table.memtable.get? key = none ∧ table.flushed.get? key = none) := by
  let index : AnyIndex UInt64 UInt64 :=
    .oneWay (.create "entries" "entries" .unsigned .unsigned { fallbackSize := 0 })
  obtain ⟨db, runs, hhealthy, hsizes⟩ : ∃ db,
      Database.Runs (Action.Respects index) (.ofOptions { recordOverhead := 0 }) db ∧
        db.engine.faults = .healthy ∧
        (db.engine.store.tables.get? "entries").map (fun table => decide (
          db.engine.store.weight ((table.memtable.within Index.fullRange).mapValues
            fun slot => slot.getD []) < 2 ^ 64 ∧
          db.engine.store.weight (table.flushed.within Index.fullRange) < 2 ^ 64)) = some true := by
    have hspace : Database.Runs (Action.Respects index) (.ofOptions { recordOverhead := 0 }) _ :=
      Database.Runs.refl.step (.store (.createNamespace "entries")) (.elsewhere _ nofun)
    have hadded := (hspace.step _ (.own none (.call (.add 1 10)))).step _
      (.own none (.call (.add 1 20)))
    have hflushed := hadded.step (.store (.flush "entries")) (.elsewhere _ nofun)
    exact ⟨_, hflushed, FaultPlan.eq_healthy fun call => by cases call <;> decide +kernel, by decide +kernel⟩
  obtain ⟨table, htable, hdecided⟩ := Option.map_eq_some_iff.1 hsizes
  obtain ⟨hgiven, hestimates, -⟩ := runs.estimate_eq_zero_iff .forward htable Index.fullRange
    (Store.fits_iff.2 (of_decide_eq_true hdecided))
  obtain ⟨n, hn⟩ := hgiven hhealthy
  exact ⟨index, db, table, n, runs, rfl, htable, hn, (hestimates n hn).2.1⟩

end SecondaryIndex
