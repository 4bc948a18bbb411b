import Mathlib.Algebra.BigOperators.Finprod
import Mathlib.Data.Set.Card
import SecondaryIndex.Proofs.Store.Alike

/-!
# What the statistics of a store count

The statistics of a range read the two layers of a table one by one, without laying the one over the other. Each
is a sum over the records of its layer in the range (`Store.recentTally_eq`, `Store.olderSize_eq`). The records are
added up one by one in words, and that overflows if and only if the sum is no word (`Store.totalSize_eq`). The
sum itself is one over all keys (`Store.sumOfSizes`), in which the order of the records plays no part.

A sum over all keys splits where its range splits (`Store.sumOfSizes_split`). That a flush leaves such sums alone
is seen from what the store shows: the newest layer that mentions a key shows through, before and after. So
afterwards the flushed records are the live ones, and the statistics of the two layers are what a store shows
of the range (`Store.statistics_balance`).
-/

namespace SecondaryIndex

/-! ### Weights -/

/-- A map of size zero has nothing under any key. -/
theorem SortedMap.size_eq_zero_iff {α : Type} {m : SortedMap Bytes α} :
    m.size = 0 ↔ ∀ key, m.get? key = none := by
  constructor
  · intro h key
    rw [SortedMap.get?_eq_none_iff, List.eq_nil_of_length_eq_zero h]
    exact fun a => List.not_mem_nil
  · intro h
    have hempty : m = ∅ := SortedMap.ext_get? h
    rw [hempty]
    rfl

namespace Store

/-- The size of a record as a number. -/
def sizeOfRecord (store : Store) (key value : Bytes) : Nat :=
  key.length + value.length + store.options.recordOverhead.toNat

/-- What records weigh together, as a number. -/
def weight (store : Store) (records : SortedMap Bytes Bytes) : Nat :=
  (records.entries.map fun e => store.sizeOfRecord e.1 e.2).sum

/-- What records weigh is a matter of the options alone. -/
theorem weight_of_options {store store' : Store} (h : store'.options = store.options)
    (records : SortedMap Bytes Bytes) : store'.weight records = store.weight records := by
  unfold weight sizeOfRecord
  rw [h]

/-- A size that fits a word is that word. -/
theorem sizeOfNat_of_lt {n : Nat} (h : n < 2 ^ 64) : sizeOfNat n = .ok (UInt64.ofNat n) := if_pos h

/-- A size that fits no word overflows. -/
theorem sizeOfNat_of_le {n : Nat} (h : 2 ^ 64 ≤ n) : sizeOfNat n = .error .overflow :=
  if_neg (Nat.not_lt.2 h)

/-- A number goes through if and only if it is a word. -/
theorem sizeOfNat_eq_ok_iff {n : Nat} {size : UInt64} : sizeOfNat n = .ok size ↔ n < 2 ^ 64 ∧ size.toNat = n := by
  by_cases h : n < 2 ^ 64
  · rw [sizeOfNat_of_lt h, and_iff_right h]
    constructor
    · intro heq
      cases heq
      exact UInt64.toNat_ofNat_of_lt' h
    · rintro rfl
      rw [UInt64.ofNat_toNat]
  · rw [sizeOfNat_of_le (Nat.not_lt.1 h)]
    exact iff_of_false nofun fun hword => h hword.1

/-- To add a number to a word is to add two numbers: an overflow on the way is one of the sum. -/
theorem sizeOfNat_bind_addSizes (a : UInt64) (n : Nat) :
    (do addSizes a (← sizeOfNat n)) = sizeOfNat (a.toNat + n) := by
  by_cases h : n < 2 ^ 64
  · rw [sizeOfNat_of_lt h]
    show sizeOfNat (a.toNat + (UInt64.ofNat n).toNat) = _
    rw [UInt64.toNat_ofNat_of_lt' h]
  · rw [sizeOfNat_of_le (Nat.not_lt.1 h), sizeOfNat_of_le (by omega)]
    rfl

/-- The size of a record is its exact size, where that fits a word. -/
theorem recordSize_eq (store : Store) (key value : Bytes) :
    store.recordSize key value = sizeOfNat (store.sizeOfRecord key value) := by
  have hcomm (n : Nat) : (do addSizes (← sizeOfNat n) store.options.recordOverhead) =
      (do addSizes store.options.recordOverhead (← sizeOfNat n)) := by
    simp only [addSizes, Nat.add_comm]
  rw [recordSize, hcomm, sizeOfNat_bind_addSizes, Nat.add_comm, sizeOfRecord]

/-- A running total of words is the sum of the numbers. Nothing that is added makes it less, so it overflows at some
point if and only if the sum does. -/
theorem foldlM_addSizes {α : Type} {word : α → Except EngineError UInt64} {number : α → Nat}
    (hword : ∀ a, word a = sizeOfNat (number a)) (l : List α) (start : UInt64) :
    l.foldlM (fun total a => do addSizes total (← word a)) start =
      sizeOfNat (start.toNat + (l.map number).sum) := by
  induction l generalizing start with
  | nil => exact (sizeOfNat_eq_ok_iff.2 ⟨start.toNat_lt, rfl⟩).symm
  | cons a l ih =>
    rw [List.foldlM_cons, hword, sizeOfNat_bind_addSizes, List.map_cons, List.sum_cons, ← Nat.add_assoc]
    by_cases h : start.toNat + number a < 2 ^ 64
    · rw [sizeOfNat_of_lt h]
      show l.foldlM _ _ = _
      rw [ih, UInt64.toNat_ofNat_of_lt' h]
    · rw [sizeOfNat_of_le (Nat.not_lt.1 h), sizeOfNat_of_le (by omega)]
      rfl

/-- Records weigh what the sum of their sizes is, if that is a word. -/
theorem totalSize_eq (store : Store) (records : SortedMap Bytes Bytes) :
    store.totalSize records = sizeOfNat (store.weight records) := by
  have hword (e : Bytes × Bytes) := store.recordSize_eq e.1 e.2
  rw [totalSize, foldlM_addSizes hword, UInt64.toNat_zero, Nat.zero_add, weight]

/-- To be weighed can only fail by being too heavy. -/
theorem overflow_of_totalSize (store : Store) {records : SortedMap Bytes Bytes} {err : EngineError}
    (h : store.totalSize records = .error err) : err = .overflow := by
  rw [totalSize_eq] at h
  by_cases hlt : store.weight records < 2 ^ 64
  · rw [sizeOfNat_of_lt hlt] at h
    cases h
  · rw [sizeOfNat_of_le (Nat.not_lt.1 hlt)] at h
    cases h
    rfl

variable {store : Store} {ns : Namespace} {table : Table}

/-- The recent records of a range are counted, and their exact size is given where it fits a word. -/
theorem recentTally_eq (h : store.tables.get? ns = some table) (range : Range) :
    store.recentTally ns range =
      (sizeOfNat (store.weight ((table.memtable.within range).mapValues fun slot => slot.getD []))).map
        (Tally.mk (table.memtable.within range).size) := by
  unfold recentTally
  rw [table_eq_ok_iff.2 h, ← totalSize_eq]
  rfl

/-- The exact size of the flushed records of a range is given where it fits a word. -/
theorem olderSize_eq (h : store.tables.get? ns = some table) (range : Range) :
    store.olderSize ns range = sizeOfNat (store.weight (table.flushed.within range)) := by
  unfold olderSize
  rw [table_eq_ok_iff.2 h, ← totalSize_eq]
  rfl

/-- A tally is given if and only if what the recent records weigh is a word. -/
theorem recentTally_eq_ok_iff (h : store.tables.get? ns = some table) {range : Range} {tally : Tally} :
    store.recentTally ns range = .ok tally ↔
      store.weight ((table.memtable.within range).mapValues fun slot => slot.getD []) < 2 ^ 64 ∧
        tally.count = (table.memtable.within range).size ∧
        tally.size.toNat =
          store.weight ((table.memtable.within range).mapValues fun slot => slot.getD []) := by
  obtain ⟨count, size⟩ := tally
  rw [recentTally_eq h]
  cases hsize : sizeOfNat _ with
  | error err =>
    refine iff_of_false nofun fun hword => ?_
    rw [sizeOfNat_of_lt hword.1] at hsize
    cases hsize
  | ok word =>
    obtain ⟨hlt, hword⟩ := sizeOfNat_eq_ok_iff.1 hsize
    rw [← hword, UInt64.toNat_inj, and_iff_right word.toNat_lt]
    show Except.ok (Tally.mk _ word) = .ok (Tally.mk count size) ↔ _
    rw [Except.ok.injEq, Tally.mk.injEq]
    exact ⟨fun heq => ⟨heq.1.symm, heq.2.symm⟩, fun heq => ⟨heq.1.symm, heq.2.symm⟩⟩

/-- The flushed records of a range have a size exactly where their exact size fits a word. -/
theorem olderSize_eq_ok_iff (h : store.tables.get? ns = some table) {range : Range} {size : UInt64} :
    store.olderSize ns range = .ok size ↔
      store.weight (table.flushed.within range) < 2 ^ 64 ∧
        size.toNat = store.weight (table.flushed.within range) := by
  rw [olderSize_eq h, sizeOfNat_eq_ok_iff]

end Store

/-! ### Ranges that are split -/

namespace Bound

theorem above_excluded (high key : Bytes) : (excluded high).above key = decide (key < high) := rfl

theorem below_included (low key : Bytes) : (included low).below key = decide (low ≤ key) := rfl

/-- What lies above a key within a lower bound is within it too. -/
theorem below_of_le {bound : Bound} {key key' : Bytes} (hle : key ≤ key')
    (h : bound.below key = true) : bound.below key' = true := by
  cases bound with
  | unbounded => rfl
  | included low =>
    simp only [below, decide_eq_true_iff] at h ⊢
    exact Std.le_trans h hle
  | excluded low =>
    simp only [below, decide_eq_true_iff] at h ⊢
    exact Std.lt_of_lt_of_le h hle

end Bound

namespace Range

/-- The part of a range below a key. -/
def before (range : Range) (m : Bytes) : Range := ⟨range.lower, .excluded m⟩

/-- The part of a range from a key on. -/
def onward (range : Range) (m : Bytes) : Range := ⟨.included m, range.upper⟩

/-- The records under the keys of a range. -/
def restrict (range : Range) (records : Bytes → Option Bytes) (key : Bytes) : Option Bytes :=
  if range.contains key then records key else none

variable {range : Range} {m : Bytes}

/-- A range that is split at a key of it holds what its two parts hold, and they are apart. -/
theorem contains_split (hm : range.contains m = true) (key : Bytes) :
    (range.before m).contains key = (range.contains key && decide (key < m)) ∧
      (range.onward m).contains key = (range.contains key && !decide (key < m)) := by
  obtain ⟨hlower, hupper⟩ := Bool.and_eq_true_iff.1 hm
  unfold before onward contains
  by_cases hlt : key < m
  · have hnot : ¬m ≤ key := Std.not_le.2 hlt
    simp [Bound.above_excluded, Bound.below_included, hlt, hnot, Bound.above_of_lt hlt hupper]
  · have hle : m ≤ key := Std.not_lt.1 hlt
    simp [Bound.above_excluded, Bound.below_included, hlt, hle, Bound.below_of_le hle hlower]

end Range

/-! ### Sums over all keys -/

/-- The recent records of a table, a tombstone being one with an empty value. -/
def Table.recent (table : Table) (key : Bytes) : Option Bytes :=
  (table.memtable.get? key).map fun slot => slot.getD []

/-- The records that a store shows in a namespace. -/
def Store.live (store : Store) (ns : Namespace) (key : Bytes) : Option Bytes := store.read (ns, key)

/-- The sizes of records taken together: the sum over all keys under which there is one. -/
noncomputable def Store.sumOfSizes (store : Store) (records : Bytes → Option Bytes) : Nat :=
  ∑ᶠ key, ((records key).map (store.sizeOfRecord key)).getD 0

namespace SortedMap

variable {α : Type} (m : SortedMap Bytes α)

theorem mem_keys_iff {key : Bytes} : key ∈ m.keys ↔ (m.get? key).isSome := by
  simp only [keys, List.mem_map, Prod.exists, exists_and_right, exists_eq_right, Option.isSome_iff_exists,
    get?_eq_some_iff]

theorem nodup_keys : m.keys.Nodup := by
  refine List.pairwise_map.2 (m.sorted.imp fun {a b} hlt heq => ?_)
  rw [heq] at hlt
  exact Std.lt_irrefl hlt

/-- A map has as many entries as keys. -/
theorem encard_isSome : {key | (m.get? key).isSome}.encard = m.size := by
  have hset : {key | (m.get? key).isSome} = (m.keys.toFinset : Set Bytes) := by
    ext key
    simp [← m.mem_keys_iff]
  rw [hset, Set.encard_coe_eq_coe_finsetCard, List.toFinset_card_of_nodup m.nodup_keys, keys,
    List.length_map, size]

theorem finite_isSome : {key | (m.get? key).isSome}.Finite :=
  Set.finite_of_encard_eq_coe m.encard_isSome

/-- Changing the values of a map keeps its size. -/
theorem size_mapValues {β : Type} (f : α → β) : (m.mapValues f).size = m.size := by
  simp only [size, mapValues, mapEntries, List.length_map]

theorem mapValues_within {β : Type} (f : α → β) (range : Range) :
    (m.mapValues f).within range = (m.within range).mapValues f := by
  refine ext_get? fun key => ?_
  simp only [get?_mapValues, get?_within]
  split <;> rfl

end SortedMap

/-- Restricting what a map shows to a range shows what is within the range. -/
theorem Range.restrict_get? (range : Range) (records : SortedMap Bytes Bytes) :
    range.restrict records.get? = (records.within range).get? := by
  funext key
  rw [SortedMap.get?_within]
  rfl

theorem Table.recent_eq (table : Table) :
    table.recent = (table.memtable.mapValues fun slot => slot.getD []).get? := by
  funext key
  rw [SortedMap.get?_mapValues]
  rfl

namespace Store

variable {store : Store} {ns : Namespace} {table : Table} {range : Range}

/-- The sizes of listed records are those of the records of the list. -/
theorem sumOfSizes_get? (store : Store) (records : SortedMap Bytes Bytes) :
    store.sumOfSizes records.get? = store.weight records := by
  have hsupport : Function.support (fun key =>
      ((records.get? key).map (store.sizeOfRecord key)).getD 0) ⊆ (records.keys.toFinset : Set Bytes) := by
    intro key hkey
    rw [List.coe_toFinset]
    refine records.mem_keys_iff.2 (Option.isSome_iff_ne_none.2 fun hnone => hkey ?_)
    simp only [hnone, Option.map_none, Option.getD_none]
  unfold sumOfSizes weight
  rw [finsum_eq_sum_of_support_subset _ hsupport, List.sum_toFinset _ records.nodup_keys, SortedMap.keys,
    List.map_map]
  refine congrArg List.sum (List.map_congr_left fun e he => ?_)
  have hvalue : records.get? e.1 = some e.2 := SortedMap.get?_eq_some_iff.2 he
  simp only [Function.comp_apply, hvalue, Option.map_some, Option.getD_some, sizeOfRecord]

/-- Where a range is split, so are the sizes of the records in it. -/
theorem sumOfSizes_split {m : Bytes} (store : Store) (records : SortedMap Bytes Bytes)
    (hm : range.contains m = true) :
    store.sumOfSizes (range.restrict records.get?) =
      store.sumOfSizes ((range.before m).restrict records.get?) +
        store.sumOfSizes ((range.onward m).restrict records.get?) := by
  have hfinite (part : Range) : (Function.support fun key =>
      ((part.restrict records.get? key).map (store.sizeOfRecord key)).getD 0).Finite := by
    refine records.finite_isSome.subset fun key hkey => Option.isSome_iff_ne_none.2 fun hnone => hkey ?_
    simp only [Range.restrict, hnone, ite_self, Option.map_none, Option.getD_none]
  unfold sumOfSizes
  rw [← finsum_add_distrib (hfinite _) (hfinite _)]
  refine finsum_congr fun key => ?_
  obtain ⟨hbefore, honward⟩ := Range.contains_split hm key
  unfold Range.restrict
  rw [hbefore, honward]
  by_cases hlt : key < m <;> simp [hlt]

/-- Where a range is split, so are the keys of it. -/
theorem encard_split {m : Bytes} (records : Bytes → Option Bytes) (hm : range.contains m = true) :
    {key | (range.restrict records key).isSome}.encard =
      {key | ((range.before m).restrict records key).isSome}.encard +
        {key | ((range.onward m).restrict records key).isSome}.encard := by
  rw [← Set.encard_union_eq]
  · congr 1
    ext key
    obtain ⟨hbefore, honward⟩ := Range.contains_split hm key
    simp only [Range.restrict, hbefore, honward, Set.mem_union, Set.mem_ofPred_eq]
    by_cases hlt : key < m <;> simp [hlt]
  · refine Set.disjoint_left.2 fun key hkey hkey' => ?_
    obtain ⟨hbefore, honward⟩ := Range.contains_split hm key
    simp only [Range.restrict, hbefore, honward, Set.mem_ofPred_eq] at hkey hkey'
    by_cases hlt : key < m <;> simp [hlt] at hkey hkey'

/-! ### The statistics of a range -/

/-- What the statistics of a range are: how many recent records there are and what they weigh, and what the
flushed ones weigh. -/
structure Reports (store : Store) (ns : Namespace) (range : Range) (count recent older : Nat) : Prop where
  tally : ∃ tally, store.recentTally ns range = .ok tally ∧ tally.count = count ∧ tally.size.toNat = recent
  older : ∃ size, store.olderSize ns range = .ok size ∧ size.toNat = older

/-- The sizes of the recent records and of the flushed ones of a range are words. -/
structure Fits (store : Store) (table : Table) (range : Range) : Prop where
  recent : store.sumOfSizes (range.restrict table.recent) < 2 ^ 64
  older : store.sumOfSizes (range.restrict table.flushed.get?) < 2 ^ 64

/-- What is weighed of a range are the listed records of its layers. -/
theorem fits_iff : store.Fits table range ↔
    store.weight ((table.memtable.within range).mapValues fun slot => slot.getD []) < 2 ^ 64 ∧
      store.weight (table.flushed.within range) < 2 ^ 64 := by
  rw [← SortedMap.mapValues_within, ← sumOfSizes_get?, ← sumOfSizes_get?, ← Range.restrict_get?,
    ← Range.restrict_get?, ← table.recent_eq]
  exact ⟨fun h => ⟨h.recent, h.older⟩, fun h => ⟨h.1, h.2⟩⟩

/-- What fits of a range fits of either part of it. -/
theorem Fits.split {m : Bytes} (h : store.Fits table range) (hm : range.contains m = true) :
    store.Fits table (range.before m) ∧ store.Fits table (range.onward m) := by
  obtain ⟨hrecent, holder⟩ := h
  rw [table.recent_eq, store.sumOfSizes_split _ hm, ← table.recent_eq] at hrecent
  rw [store.sumOfSizes_split _ hm] at holder
  exact ⟨⟨by omega, by omega⟩, by omega, by omega⟩

/-- The statistics of a range count every physical record in it, whatever a newer layer says of its key. -/
theorem reports (htable : store.tables.get? ns = some table) (hfits : store.Fits table range) :
    ∃ count : Nat, store.Reports ns range count (store.sumOfSizes (range.restrict table.recent))
        (store.sumOfSizes (range.restrict table.flushed.get?)) ∧
      count = {key | (range.restrict table.recent key).isSome}.encard := by
  obtain ⟨hrecent, holder⟩ := fits_iff.1 hfits
  refine ⟨(table.memtable.within range).size, ⟨⟨⟨_, UInt64.ofNat _⟩, (recentTally_eq_ok_iff htable).2
    ⟨hrecent, rfl, UInt64.toNat_ofNat_of_lt' hrecent⟩, rfl, ?_⟩, ⟨UInt64.ofNat _, (olderSize_eq_ok_iff htable).2
    ⟨holder, UInt64.toNat_ofNat_of_lt' holder⟩, ?_⟩⟩, ?_⟩
  · rw [table.recent_eq, Range.restrict_get?, sumOfSizes_get?, SortedMap.mapValues_within]
    exact UInt64.toNat_ofNat_of_lt' hrecent
  · rw [Range.restrict_get?, sumOfSizes_get?]
    exact UInt64.toNat_ofNat_of_lt' holder
  · rw [table.recent_eq, Range.restrict_get?, SortedMap.encard_isSome, SortedMap.mapValues_within,
      SortedMap.size_mapValues]

/-- No records have no size. -/
theorem sumOfSizes_eq_zero {records : Bytes → Option Bytes} (h : ∀ key, records key = none) :
    store.sumOfSizes records = 0 := by
  unfold sumOfSizes
  simp only [h, Option.map_none, Option.getD_none, finsum_zero]

/-- Where no record is recent, only the flushed ones are weighed. -/
theorem fits_iff_of_settled (hrecent : table.memtable = ∅) :
    store.Fits table range ↔ store.weight (table.flushed.within range) < 2 ^ 64 := by
  have hnone : store.sumOfSizes (range.restrict table.recent) = 0 := by
    refine sumOfSizes_eq_zero fun key => ?_
    simp only [Range.restrict, Table.recent, hrecent, SortedMap.get?_emptyCollection, Option.map_none, ite_self]
  rw [← sumOfSizes_get?, ← Range.restrict_get?]
  exact ⟨fun h => h.older, fun h => ⟨hnone ▸ Nat.two_pow_pos 64, h⟩⟩

/-- Where no record is recent, all that the statistics tell is of the live ones. -/
theorem statistics_of_settled (htable : store.tables.get? ns = some table) (hrecent : table.memtable = ∅)
    (range : Range) :
    store.recentTally ns range = .ok ⟨0, 0⟩ ∧
      (store.sumOfSizes (range.restrict (store.live ns)) < 2 ^ 64 → ∃ size,
        store.olderSize ns range = .ok size ∧
          size.toNat = store.sumOfSizes (range.restrict (store.live ns))) := by
  have hlive : store.live ns = table.flushed.get? := by
    funext key
    rw [live, read_of_table (x := (ns, key)) htable, Table.get?, hrecent]
    rfl
  have hnone : table.memtable.within range = ∅ := by
    refine SortedMap.ext_get? fun key => ?_
    simp only [hrecent, SortedMap.get?_within, SortedMap.get?_emptyCollection, ite_self]
  refine ⟨?_, fun hsum => ?_⟩
  · rw [recentTally_eq htable, hnone]
    rfl
  · rw [hlive, Range.restrict_get?, sumOfSizes_get?] at hsum ⊢
    have hsize := UInt64.toNat_ofNat_of_lt' hsum
    exact ⟨_, (olderSize_eq_ok_iff htable).2 ⟨hsum, hsize⟩, hsize⟩

/-- A flush of its namespace, or of all, leaves a table flushed. -/
theorem table_of_flush {flushed : Store} (htable : store.tables.get? ns = some table)
    (h : store.flush ns = .ok flushed ∨ flushed = store.flushAll) :
    flushed.tables.get? ns = some table.flush := by
  rcases h with h | rfl
  · unfold Store.flush at h
    rw [table_eq_ok_iff.2 htable] at h
    cases h
    simp only [SortedMap.get?_insert, if_true]
  · simp only [flushAll, SortedMap.get?_mapValues, htable, Option.map_some]

/-- The statistics of a range count every physical record in it once, be it shadowed or a tombstone, and none
elsewhere. So they are zero for bounds that no key satisfies, and those of a range are the sums of those of its parts
wherever it is split. Right after a flush there are no recent records, and the flushed ones are those that the store
shows; what these weigh together is not changed by flushing. -/
theorem statistics_balance (htable : store.tables.get? ns = some table) :
    (∀ range, store.Fits table range → ∃ count recent older,
      store.Reports ns range count recent older ∧
      (count = {key | (range.restrict table.recent key).isSome}.encard ∧
        recent = store.sumOfSizes (range.restrict table.recent) ∧
        older = store.sumOfSizes (range.restrict table.flushed.get?)) ∧
      ((∀ key, range.contains key = false) → count = 0 ∧ recent = 0 ∧ older = 0) ∧
      ∀ m, range.contains m = true → ∃ count₁ recent₁ older₁ count₂ recent₂ older₂,
        store.Reports ns (range.before m) count₁ recent₁ older₁ ∧
        store.Reports ns (range.onward m) count₂ recent₂ older₂ ∧
        count = count₁ + count₂ ∧ recent = recent₁ + recent₂ ∧ older = older₁ + older₂) ∧
    (∃ flushed, store.flush ns = .ok flushed) ∧
    ∀ flushed, store.flush ns = .ok flushed ∨ flushed = store.flushAll → ∀ range,
      flushed.recentTally ns range = .ok ⟨0, 0⟩ ∧
      (store.sumOfSizes (range.restrict (store.live ns)) < 2 ^ 64 → ∃ size,
        flushed.olderSize ns range = .ok size ∧
          size.toNat = store.sumOfSizes (range.restrict (store.live ns))) ∧
      ∀ space, flushed.sumOfSizes (range.restrict (flushed.live space)) =
        store.sumOfSizes (range.restrict (store.live space)) := by
  refine ⟨fun range hfits => ?_, ?_, fun flushed hflushed range => ?_⟩
  · obtain ⟨count, hreports, hcount⟩ := reports htable hfits
    refine ⟨count, _, _, hreports, ⟨hcount, rfl, rfl⟩, fun hnone => ⟨?_, ?_, ?_⟩, fun m hm => ?_⟩
    -- nothing is in range, so nothing is counted and nothing weighs
    · have hempty : {key | (range.restrict table.recent key).isSome} = ∅ := by
        ext key
        simp [Range.restrict, hnone]
      rwa [hempty, Set.encard_empty, Nat.cast_eq_zero] at hcount
    · exact sumOfSizes_eq_zero fun key => by simp [Range.restrict, hnone]
    · exact sumOfSizes_eq_zero fun key => by simp [Range.restrict, hnone]
    -- a cut divides the records of either layer, and so their number and their size
    · obtain ⟨hbefore, honward⟩ := hfits.split hm
      obtain ⟨count₁, hreports₁, hcount₁⟩ := reports htable hbefore
      obtain ⟨count₂, hreports₂, hcount₂⟩ := reports htable honward
      refine ⟨count₁, _, _, count₂, _, _, hreports₁, hreports₂, ?_, ?_, ?_⟩
      · rw [encard_split _ hm, ← hcount₁, ← hcount₂] at hcount
        exact_mod_cast hcount
      · rw [table.recent_eq]
        exact store.sumOfSizes_split _ hm
      · exact store.sumOfSizes_split _ hm
  · unfold Store.flush
    rw [table_eq_ok_iff.2 htable]
    exact ⟨_, rfl⟩
  -- a flush of either kind leaves the records alone and the memtable empty
  · have halike : store.Alike flushed := by
      rcases hflushed with hflushed | rfl
      · exact alike_flush hflushed
      · exact alike_flushAll store
    have hlive (space : Namespace) : flushed.live space = store.live space := by
      funext key
      rw [live, halike.read_eq, live]
    have hsum (records : Bytes → Option Bytes) : flushed.sumOfSizes records = store.sumOfSizes records := by
      unfold sumOfSizes sizeOfRecord
      rw [halike.options]
    obtain ⟨hrecent, holder⟩ := statistics_of_settled (table_of_flush htable hflushed) rfl range
    rw [hlive, hsum] at holder
    exact ⟨hrecent, holder, fun space => by rw [hlive, hsum]⟩

/-- A record that was flushed, and a tombstone laid over it; between them and after them ranges are split. -/
theorem statistics_balance_of_tombstone :
    ∃ (store : Store) (table : Table),
      store.tables.get? "entries" = some table ∧ table.memtable.get? [2] = some none ∧
      table.flushed.get? [2] = some [] ∧
      (∃ count recent older, store.Reports "entries" .all count recent older ∧
        ∃ count₁ recent₁ older₁ count₂ recent₂ older₂,
          store.Reports "entries" (Range.all.before [2]) count₁ recent₁ older₁ ∧
          store.Reports "entries" (Range.all.onward [2]) count₂ recent₂ older₂ ∧
          count = count₁ + count₂ ∧ recent = recent₁ + recent₂ ∧ older = older₁ + older₂) ∧
      ∃ size, store.flushAll.olderSize "entries" .all = .ok size ∧
        size.toNat = store.sumOfSizes (Range.all.restrict (store.live "entries")) := by
  let older : SortedMap Bytes Bytes := (SortedMap.singleton [1] [7]).insert [2] []
  let recent : SortedMap Bytes Slot := (SortedMap.singleton [2] none).insert [3] (some [9])
  let table : Table := { memtable := recent, flushed := older }
  let store : Store := { options := {}, tables := .singleton "entries" table }
  have htable : store.tables.get? "entries" = some table := by
    rw [show store.tables = .singleton "entries" table from rfl, SortedMap.get?_singleton, if_pos rfl]
  obtain ⟨hranges, -, hflushed⟩ := statistics_balance htable
  have hfits : store.Fits table .all := fits_iff.2 (by decide +kernel)
  obtain ⟨count, recent, older, hreports, -, -, hsplit⟩ := hranges .all hfits
  obtain ⟨-, holder, -⟩ := hflushed store.flushAll (.inr rfl) .all
  have hlive : store.live "entries" = table.contents.get? := by
    funext key
    rw [live, read_of_table (x := ("entries", key)) htable, Table.get?_contents]
  have hsum : store.sumOfSizes (Range.all.restrict (store.live "entries")) < 2 ^ 64 := by
    rw [hlive, Range.restrict_get?, sumOfSizes_get?]
    decide +kernel
  exact ⟨store, table, htable, by decide +kernel, by decide +kernel,
    ⟨count, recent, older, hreports, hsplit [2] (by decide)⟩, holder hsum⟩

end Store

end SecondaryIndex
