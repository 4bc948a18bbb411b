import SecondaryIndex.Proofs.Engine.History
import SecondaryIndex.Proofs.Store.Resting

/-!
# Opening a raw iterator

What a transaction sees in a range is put together from three sources, each of them an ordered map that is
searched between the two bounds. Such a map refuses to be searched between bounds that are inverted, or that
touch and both exclude the key they share (`Range.isRefused`). That no search is refused is said on a copy of
the view in which every search may be refused, `Transaction.view?`: it comes to the view after all
(`Transaction.view?_eq`), because the guard in front of the searches is stricter than the maps are.

`Engine.HasOpen.iterator_exact` is the main result: an iterator that an open transaction opens lists exactly the
keys that satisfy both bounds and are live, the writes of the transaction over the memtable over the flushed
records, in ascending order; and whatever moves are made, it rests where a reference cursor over these
keys rests.
-/

namespace SecondaryIndex

/-! ### Searches that may be refused -/

/-- Whether an ordered map refuses to be searched between two bounds: they are inverted, or they touch and
both exclude the key they share. -/
def Range.isRefused (range : Range) : Bool :=
  match range.lower.key?, range.upper.key? with
  | some (low, lowIncluded), some (high, highIncluded) =>
    high < low || (low == high && !lowIncluded && !highIncluded)
  | _, _ => false

/-- What is refused is recognised as empty; touching bounds of which one is included are recognised as empty
as well, and would not be refused. -/
theorem Range.isEmpty_of_isRefused {range : Range} (h : range.isRefused = true) :
    range.isEmpty = true := by
  unfold isRefused at h
  unfold isEmpty
  cases hlower : range.lower.key? with
  | none =>
    rw [hlower] at h
    cases h
  | some lower =>
    cases hupper : range.upper.key? with
    | none =>
      rw [hlower, hupper] at h
      cases h
    | some upper =>
      obtain ⟨low, lowIncluded⟩ := lower
      obtain ⟨high, highIncluded⟩ := upper
      simp only [hlower, hupper] at h ⊢
      cases lowIncluded <;> cases highIncluded <;> simp_all

/-- The part of a map in a range, where the map does not refuse to be searched. -/
def SortedMap.search? {α : Type} (m : SortedMap Bytes α) (range : Range) :
    Option (SortedMap Bytes α) :=
  if range.isRefused then none else some (m.restrict range.contains)

/-- Behind the guard no search is refused. -/
theorem SortedMap.search?_of_not_isEmpty {α : Type} (m : SortedMap Bytes α) {range : Range}
    (h : range.isEmpty = false) : m.search? range = some (m.within range) := by
  have hnot : range.isRefused = false := by
    rw [Bool.eq_false_iff]
    intro hrefused
    rw [Range.isEmpty_of_isRefused hrefused] at h
    cases h
  unfold search? within
  rw [hnot, h]
  rfl

/-- The live records of one layer on top of an older one. -/
theorem SortedMap.get?_live_overlay_slots (recent : SortedMap Bytes Slot) (older : SortedMap Bytes Bytes)
    (key : Bytes) :
    (recent.overlay older.slots).live.get? key = (recent.get? key).getD (older.get? key) := by
  rw [get?_live, get?_overlay, get?_slots]
  cases recent.get? key <;> cases older.get? key <;> rfl

/-- The live records of a table in a range, with searches that may be refused. -/
def Table.view? (table : Table) (range : Range) : Option (SortedMap Bytes Bytes) :=
  if range.isEmpty then some ∅
  else do
    let older ← table.flushed.search? range
    let recent ← table.memtable.search? range
    pure (recent.overlay older.slots).live

/-- What a transaction sees of a table in a range, with searches that may be refused. -/
def Transaction.view? (tx : Transaction) (table : Table) (ns : Namespace) (range : Range) :
    Option (SortedMap Bytes Bytes) := do
  let view ← table.view? range
  match tx.writes.get? ns with
  | some batch =>
    if range.isEmpty then pure view
    else do
      let own ← batch.search? range
      pure (own.overlay view.slots).live
  | none => pure view

/-- A table searches neither of its layers between bounds that are refused. -/
theorem Table.view?_eq (table : Table) (range : Range) :
    table.view? range = some (table.view ∅ range) := by
  unfold Table.view?
  cases hempty : range.isEmpty with
  | true =>
    refine congrArg some (SortedMap.ext_get? fun key => ?_)
    rw [Table.get?_view, Range.contains_eq_false_of_isEmpty hempty]
    rfl
  | false =>
    simp only [SortedMap.search?_of_not_isEmpty _ hempty, Bool.false_eq_true, if_false]
    refine congrArg some (SortedMap.ext_get? fun key => ?_)
    rw [Table.get?_view]
    simp only [SortedMap.get?_live_overlay_slots, SortedMap.get?_within,
      SortedMap.get?_emptyCollection, Option.getD_none, Table.get?]
    cases range.contains key
    · rfl
    · cases table.memtable.get? key <;> rfl

/-- Opening an iterator searches no map between bounds that are refused. -/
theorem Transaction.view?_eq (tx : Transaction) (table : Table) (ns : Namespace) (range : Range) :
    tx.view? table ns range = some (table.view (tx.batch ns) range) := by
  unfold Transaction.view? Transaction.batch SortedMap.getD
  rw [Table.view?_eq, Option.bind_eq_bind, Option.bind_some]
  cases tx.writes.get? ns with
  | none => rfl
  | some batch =>
    cases hempty : range.isEmpty with
    | true =>
      -- nothing shows in an empty range, with or without the writes of the transaction
      refine congrArg some (SortedMap.ext_get? fun key => ?_)
      rw [Table.get?_view, Table.get?_view, Range.contains_eq_false_of_isEmpty hempty]
      rfl
    | false =>
      simp only [SortedMap.search?_of_not_isEmpty _ hempty, Bool.false_eq_true, if_false]
      refine congrArg some (SortedMap.ext_get? fun key => ?_)
      simp only [SortedMap.get?_live_overlay_slots, SortedMap.get?_within, Table.get?_view,
        SortedMap.get?_emptyCollection, Option.getD_none, Option.getD_some]
      cases range.contains key <;> rfl

/-! ### What an iterator lists -/

namespace Engine

variable {e : Engine} {id : TransactionId} {tx : Transaction} {ns : Namespace} {table : Table}

/-- An open transaction lists the view it has of a table. -/
theorem HasOpen.keysOf_eq (hopen : e.HasOpen id tx) (htable : e.store.tables.get? ns = some table)
    (range : Range) : e.keysOf id ns range = .ok (table.view (tx.batch ns) range).keys := by
  unfold keysOf
  rw [hopen.held]
  show (tx.view e.store ns range >>= fun view => pure view.keys) = _
  unfold Transaction.view
  rw [requireOpen_of_open hopen.2, Store.table_eq_ok_iff.2 htable]
  rfl

/-- A key shows in the view of a table if it is in range and is read there. -/
theorem mem_keys_view_iff (table : Table) (batch : Batch) (range : Range) (key : Bytes) :
    key ∈ (table.view batch range).keys ↔
      range.contains key = true ∧ ((batch.get? key).getD (table.get? key)).isSome := by
  have hmem : key ∈ (table.view batch range).keys ↔ ((table.view batch range).get? key).isSome := by
    rw [Option.isSome_iff_exists]
    simp only [SortedMap.keys, List.mem_map, Prod.exists, exists_and_right, exists_eq_right,
      SortedMap.get?_eq_some_iff]
  rw [hmem, Table.get?_view]
  cases range.contains key <;> simp

/-- A key shows in the view of a table if it is in range and live: what counts is the own last write to it, else
what the memtable says of it, else whether it was flushed. -/
theorem mem_view_keys (table : Table) (batch : Batch) (range : Range) (key : Bytes) :
    key ∈ (table.view batch range).keys ↔
      (range.lower.below key = true ∧ range.upper.above key = true) ∧
        ((batch.get? key).getD ((table.memtable.get? key).getD (table.flushed.get? key))).isSome := by
  have hlive : table.get? key = (table.memtable.get? key).getD (table.flushed.get? key) := by
    unfold Table.get?
    cases table.memtable.get? key <;> rfl
  rw [mem_keys_view_iff, hlive, ← Bool.and_eq_true (range.lower.below key)]
  rfl

/-- An iterator that an open transaction opens visits exactly the keys that it sees within the bounds, as a
reference cursor over these keys does; and opening it searches no map between bounds that are refused. -/
theorem HasOpen.iterator_exact (hopen : e.HasOpen id tx)
    (htable : e.store.tables.get? ns = some table) (range : Range) :
    ∃ (view : SortedMap Bytes Bytes) (it : RawIterator),
      tx.view? table ns range = some view ∧ it.keys = view.keys ∧
      ((openIterator id ns range).run e).1 =
        (if e.fails .iterator then .error (.injected .iterator) else .ok it) ∧
      it.keys.Pairwise (· < ·) ∧
      (∀ key, key ∈ it.keys ↔ (range.lower.below key = true ∧ range.upper.above key = true) ∧
        (((tx.batch ns).get? key).getD
          ((table.memtable.get? key).getD (table.flushed.get? key))).isSome) ∧
      (∀ moves goal, RawMove.Courses (· ∈ it.keys) none moves goal ↔ goal = (it.after moves).key?) ∧
      (∀ moves, (it.after moves).place.isSome = (it.after moves).key?.isSome) ∧
      ∀ moves steps, (it.after moves).place = none → (∀ move ∈ steps, move.isStep = true) →
        (it.after (moves ++ steps)).place = none := by
  have hsorted : (table.view (tx.batch ns) range).keys.Pairwise (· < ·) :=
    List.pairwise_map.2 (table.view (tx.batch ns) range).sorted
  have hplaced : RawIterator.Placed { keys := (table.view (tx.batch ns) range).keys } := nofun
  refine ⟨table.view (tx.batch ns) range, { keys := (table.view (tx.batch ns) range).keys },
    tx.view?_eq table ns range, rfl, ?_, hsorted, mem_view_keys table (tx.batch ns) range,
    hplaced.courses_iff hsorted, fun moves => (hplaced.after moves).isSome_eq,
    fun moves steps hnone hsteps => ?_⟩
  · rw [run_openIterator, hopen.keysOf_eq htable]
    split <;> rfl
  · rw [RawIterator.after_append]
    exact RawIterator.place_after_of_steps hsteps hnone

/-- An iterator over a key that was flushed and that the transaction has removed, one that is in the memtable, one
that the transaction has written, and one that is excluded. -/
theorem iterator_exact_of_layers :
    ∃ history e tx table it, Reaches (ofOptions {}) history e ∧ e.HasOpen 1 tx ∧
      e.store.tables.get? "names" = some table ∧
      ((openIterator 1 "names" ⟨.included [1], .excluded [4]⟩).run e).1 = .ok it ∧
      (∀ key, key ∈ it.keys ↔ (([1] : Bytes) ≤ key ∧ key < [4]) ∧
        (((tx.batch "names").get? key).getD
          ((table.memtable.get? key).getD (table.flushed.get? key))).isSome) ∧
      ∀ goal, RawMove.Courses (· ∈ it.keys) none [.seek [2], .next, .next, .prev] goal ↔
        goal = (it.after [.seek [2], .next, .next, .prev]).key? := by
  obtain ⟨history, e, reached, hpending, hspace, hfails⟩ : ∃ history e,
      Reaches (ofOptions {}) history e ∧ (e.ledger.pending 1).isSome = true ∧
        e.store.hasNamespace "names" = true ∧ e.fails .iterator = false := by
    have hbegun := ((Reaches.refl : Reaches (ofOptions {}) [] (ofOptions {})).call
      (.createNamespace "names")).call .begin
    have hflushed := (((hbegun.call (.put 0 "names" [1] [])).call (.put 0 "names" [4] [])).call
      (.commit 0)).call (.flush "names")
    have hrecent := ((hflushed.call .begin).call .begin).call (.put 2 "names" [2] [])
    have hwritten := ((hrecent.call (.commit 2)).call (.put 1 "names" [3] [])).call
      (.delete 1 "names" [1])
    exact ⟨_, _, hwritten, by decide +kernel, by decide +kernel, by decide +kernel⟩
  obtain ⟨changes, hchanges⟩ := Option.isSome_iff_exists.1 hpending
  obtain ⟨tx, hopen, -⟩ := pending_eq_some_iff.1 hchanges
  obtain ⟨table, htable⟩ := Store.hasNamespace_iff.1 hspace
  obtain ⟨-, it, -, -, hrun, -, hmem, hcourses, -⟩ :=
    hopen.iterator_exact htable ⟨.included [1], .excluded [4]⟩
  rw [hfails, if_neg Bool.false_ne_true] at hrun
  refine ⟨history, e, tx, table, it, reached, hopen, htable, hrun, fun key => ?_, hcourses _⟩
  rw [hmem, Bound.below, Bound.above, decide_eq_true_iff, decide_eq_true_iff]

end Engine

end SecondaryIndex
