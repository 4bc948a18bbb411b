import SecondaryIndex.Proofs.Ledger.Basic

/-!
# What a store holds

`Store.read` is what a store holds under a key of a namespace, through all layers of its table;
a namespace that was never created holds nothing. Only commits change it: nothing that concerns the
registry or the iterators does, and neither does creating and flushing namespaces
(`Store/Alike.lean`). `Transaction.changes` are the buffered writes of a transaction, and applying a
write set lays them over what the store holds (`Store.read_apply`).
-/

namespace SecondaryIndex

/-- A key of a namespace. -/
abbrev Place := Namespace × Bytes

/-- The writes of a write set. -/
def WriteSet.changes (writes : WriteSet) : Changes Place Bytes :=
  fun x => (writes.getD x.1 ∅).get? x.2

/-- The buffered writes of a transaction. -/
def Transaction.changes (tx : Transaction) : Changes Place Bytes := WriteSet.changes tx.writes

/-- A batch conflicts with a write to one of its keys after its start. -/
theorem Table.conflicts_iff {table : Table} {start : Nat} {batch : Batch} :
    table.conflicts start batch = true ↔
      ∃ key seq, batch.get? key ≠ none ∧ table.lastWrite.get? key = some seq ∧ start < seq := by
  unfold Table.conflicts
  simp only [List.any_eq_true, SortedMap.keys, List.mem_map, Prod.exists, exists_and_right,
    exists_eq_right]
  constructor
  · rintro ⟨key, ⟨slot, hmem⟩, hlater⟩
    cases hseq : table.lastWrite.get? key with
    | none => simp [hseq] at hlater
    | some seq =>
      refine ⟨key, seq, ?_, hseq, by simpa [hseq] using hlater⟩
      rw [SortedMap.get?_eq_some_iff.2 hmem]
      exact Option.some_ne_none _
  · rintro ⟨key, seq, hkey, hseq, hlt⟩
    obtain ⟨slot, hslot⟩ := Option.ne_none_iff_exists'.1 hkey
    exact ⟨key, ⟨slot, SortedMap.get?_eq_some_iff.1 hslot⟩, by simp [hseq, hlt]⟩

namespace Store

/-- What a store holds under a key of a namespace. -/
def read (store : Store) (x : Place) : Option Bytes :=
  (store.tables.get? x.1).bind fun table => table.get? x.2

variable {store store' : Store}

/-- A place is read in the table of its namespace. -/
theorem read_of_table {x : Place} {table : Table} (h : store.tables.get? x.1 = some table) :
    store.read x = table.get? x.2 := by
  rw [read, h, Option.bind_some]

/-- A namespace exists if it has a table. -/
theorem hasNamespace_iff {ns : Namespace} :
    store.hasNamespace ns = true ↔ ∃ table, store.tables.get? ns = some table := by
  rw [hasNamespace, SortedMap.contains, Option.isSome_iff_exists]

theorem table_eq_ok_iff {ns : Namespace} {table : Table} :
    store.table ns = .ok table ↔ store.tables.get? ns = some table := by
  unfold Store.table
  cases store.tables.get? ns <;> simp

/-- A table is missed only with its namespace. -/
theorem table_eq_error_iff {ns : Namespace} {e : EngineError} :
    store.table ns = .error e ↔ store.tables.get? ns = none ∧ e = .namespaceNotFound ns := by
  unfold Store.table
  cases store.tables.get? ns <;> simp [eq_comm]

/-! ### Commits -/

/-- Checks that refuse nothing are checks that each pass. -/
theorem forM_eq_ok_iff {ε α : Type} {l : List α} {check : α → Except ε PUnit} :
    l.forM check = .ok ⟨⟩ ↔ ∀ a ∈ l, check a = .ok ⟨⟩ := by
  induction l with
  | nil => simp [pure, Except.pure]
  | cons a l ih =>
    -- the equation of `forM` on a list is stated for the class method
    rw [List.forM_eq_forM, List.forM_cons, ← List.forM_eq_forM]
    cases hc : check a with
    | error e => simp [bind, Except.bind, hc]
    | ok u =>
      simp only [bind, Except.bind, ih, List.mem_cons, forall_eq_or_imp]
      exact ⟨fun h => ⟨hc, h⟩, And.right⟩

/-- The first check that refuses decides. -/
theorem exists_of_forM_eq_error {ε α : Type} {l : List α} {check : α → Except ε PUnit} {e : ε}
    (h : l.forM check = .error e) : ∃ a ∈ l, check a = .error e := by
  induction l with
  | nil => cases h
  | cons a l ih =>
    rw [List.forM_eq_forM, List.forM_cons, ← List.forM_eq_forM] at h
    cases hc : check a with
    | error e' =>
      rw [hc] at h
      cases h
      exact ⟨a, List.mem_cons_self, hc⟩
    | ok u =>
      rw [hc] at h
      obtain ⟨b, hb, hbe⟩ := ih h
      exact ⟨b, List.mem_cons_of_mem _ hb, hbe⟩

variable {start : Nat} {writes : WriteSet}

/-- A batch is accepted if its table exists and knows of no later write to its keys. -/
theorem accept_eq_ok_iff {ns : Namespace} {batch : Batch} :
    store.accept start ns batch = .ok () ↔
      ∃ table, store.tables.get? ns = some table ∧ table.conflicts start batch = false := by
  unfold accept
  cases ht : store.table ns with
  | error e =>
    obtain ⟨hnone, -⟩ := table_eq_error_iff.1 ht
    simp [bind, Except.bind, hnone]
  | ok table =>
    rw [table_eq_ok_iff.1 ht]
    cases hc : table.conflicts start batch <;>
      simp [bind, Except.bind, pure, Except.pure, hc, throw, throwThe, MonadExceptOf.throw]

/-- A batch is refused for want of its namespace, or for a conflict there. -/
theorem accept_eq_error {ns : Namespace} {batch : Batch} {e : EngineError}
    (h : store.accept start ns batch = .error e) :
    (store.tables.get? ns = none ∧ e = .namespaceNotFound ns) ∨
      ∃ table, store.tables.get? ns = some table ∧ table.conflicts start batch = true ∧
        e = .conflict ns := by
  unfold accept at h
  cases ht : store.table ns with
  | error e' =>
    obtain ⟨hnone, rfl⟩ := table_eq_error_iff.1 ht
    rw [ht] at h
    cases h
    exact .inl ⟨hnone, rfl⟩
  | ok table =>
    rw [ht] at h
    refine .inr ⟨table, table_eq_ok_iff.1 ht, ?_⟩
    cases hc : table.conflicts start batch with
    | false =>
      simp [bind, Except.bind, hc, pure, Except.pure] at h
    | true =>
      simp only [bind, Except.bind, hc, if_true] at h
      cases h
      exact ⟨rfl, rfl⟩

/-- A commit accepts each batch first and installs all of them afterwards. -/
theorem apply_eq (store : Store) (start : Nat) (writes : WriteSet) :
    store.apply start writes =
      ((writes.entries.forM fun e => store.accept start e.1 e.2) >>= fun _ =>
        pure (store.install writes)) := rfl

/-- A write set is applied if each of its batches is accepted, and then it is installed. -/
theorem apply_eq_ok_iff :
    store.apply start writes = .ok store' ↔
      (∀ e ∈ writes.entries, store.accept start e.1 e.2 = .ok ()) ∧ store' = store.install writes := by
  rw [apply_eq]
  cases hf : writes.entries.forM fun e => store.accept start e.1 e.2 with
  | error e =>
    have hnot : ¬ ∀ e ∈ writes.entries, store.accept start e.1 e.2 = .ok () := by
      intro hall
      rw [forM_eq_ok_iff.2 hall] at hf
      cases hf
    exact ⟨fun h => (by cases h), fun h => absurd h.1 hnot⟩
  | ok u =>
    have hall := forM_eq_ok_iff.1 hf
    simp only [bind, Except.bind, pure, Except.pure, Except.ok.injEq]
    exact ⟨fun h => ⟨hall, h.symm⟩, fun h => h.2.symm⟩

/-- A write set is refused because of one of its batches. -/
theorem exists_of_apply_eq_error {e : EngineError} (h : store.apply start writes = .error e) :
    ∃ ns batch, (ns, batch) ∈ writes.entries ∧ store.accept start ns batch = .error e := by
  rw [apply_eq] at h
  cases hf : writes.entries.forM fun e => store.accept start e.1 e.2 with
  | error e' =>
    rw [hf] at h
    cases h
    obtain ⟨⟨ns, batch⟩, hmem, hacc⟩ := exists_of_forM_eq_error hf
    exact ⟨ns, batch, hmem, hacc⟩
  | ok u =>
    rw [hf] at h
    cases h

/-- Installing a write set lays it over the records of the tables that exist. -/
theorem read_install (x : Place) :
    (store.install writes).read x =
      (store.tables.get? x.1).bind fun table => (writes.changes x).getD (table.get? x.2) := by
  simp only [install, read, SortedMap.get?_mapEntries]
  cases store.tables.get? x.1 with
  | none => rfl
  | some table =>
    -- forgetting last writes does not touch the records
    simp only [Option.map_some, Option.bind_some, Table.get?_prune, WriteSet.changes,
      SortedMap.getD]
    cases writes.get? x.1 with
    | none => simp
    | some batch => simp

/-- A write set that is applied is laid over what the store holds, in all namespaces at once. -/
theorem read_apply (h : store.apply start writes = .ok store') :
    store'.read = writes.changes.applyTo store.read := by
  obtain ⟨hall, rfl⟩ := apply_eq_ok_iff.1 h
  funext x
  rw [read_install, Changes.applyTo]
  cases ht : store.tables.get? x.1 with
  | some table => rw [Option.bind_some, read_of_table ht]
  | none =>
    -- a write set for a namespace without a table is not accepted
    have hw : writes.get? x.1 = none := by
      cases hw : writes.get? x.1 with
      | none => rfl
      | some batch =>
        obtain ⟨table, htable, -⟩ :=
          accept_eq_ok_iff.1 (hall _ (SortedMap.get?_eq_some_iff.1 hw))
        rw [ht] at htable
        cases htable
    simp [read, ht, WriteSet.changes, SortedMap.getD, hw]

end Store

namespace Transaction

variable {tx : Transaction}

/-- A transaction without a buffered write has none under any key. -/
theorem pending_eq_zero_iff : tx.pending = 0 ↔ tx.changes = .nothing := by
  unfold pending
  rw [← List.sum_eq_foldl_nat, List.sum_eq_zero_iff_forall_eq_nat]
  simp only [List.mem_map, forall_exists_index, and_imp, forall_apply_eq_imp_iff₂, SortedMap.values]
  -- what is counted are the entries of all batches, and a key in none of them was not written
  constructor
  · intro h
    funext x
    simp only [changes, WriteSet.changes, SortedMap.getD]
    cases hw : tx.writes.get? x.1 with
    | none => rfl
    | some batch =>
      have hsize := h _ (SortedMap.get?_eq_some_iff.1 hw)
      have hnil : batch.entries = [] := List.eq_nil_of_length_eq_zero hsize
      simp [Changes.nothing, SortedMap.get?, hnil]
  · rintro h ⟨ns, batch⟩ hmem
    have hget : ∀ key, batch.get? key = none := by
      intro key
      have hx : tx.changes (ns, key) = none := congrFun h (ns, key)
      simpa [changes, WriteSet.changes, SortedMap.getD, SortedMap.get?_eq_some_iff.2 hmem] using hx
    have hnil : batch.entries = [] := by
      refine List.eq_nil_iff_forall_not_mem.2 ?_
      rintro ⟨key, slot⟩ hkey
      exact SortedMap.get?_eq_none_iff.1 (hget key) slot hkey
    simp [SortedMap.size, hnil]

end Transaction

end SecondaryIndex
