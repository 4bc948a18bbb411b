import SecondaryIndex.Proofs.Parallel.Step

/-!
# Flushing

A flush moves records from one layer of a table to the other. Nobody can tell where a record lies but
by the sizes of the layers: two stores with the same records and the same last writes (`Table.outline`)
answer alike from then on, whatever their capacities are and whenever either of them is flushed
(`Engine.Coincides`). So a session is answered alike with flushes and without, and with any capacity.

Along the way it is kept count of the memtables: with a positive capacity none is ever full
(`Store.Roomy`), since a table that is written to is flushed when it becomes so.
-/

namespace SecondaryIndex

/-- What a table shows of its records and of its last writes, in whichever layer a record lies. -/
def Table.outline (table : Table) : (Bytes → Option Bytes) × SortedMap Bytes Nat :=
  (table.get?, table.lastWrite)

/-- Memtables are below their capacity. -/
def Store.Roomy (store : Store) : Prop :=
  0 < store.options.memtableCapacity → ∀ ns table, store.tables.get? ns = some table →
    table.memtable.size < store.options.memtableCapacity

namespace Table

/-- A flush leaves it open in which layer a record lies. -/
theorem outline_flush (table : Table) : table.flush.outline = table.outline :=
  Prod.ext (funext fun key => get?_flush table key) rfl

/-- A batch is written over what a table shows, and that is all of the table it depends on. -/
theorem outline_write {table table' : Table} (h : table'.outline = table.outline) (seq : Nat)
    (batch : Batch) : (table'.write seq batch).outline = (table.write seq batch).outline := by
  obtain ⟨hget, hlast⟩ := Prod.mk.inj h
  refine Prod.ext (funext fun key => ?_) ?_
  · show (table'.write seq batch).get? key = (table.write seq batch).get? key
    rw [get?_write, get?_write, hget]
  · show (batch.mapValues fun _ => seq).overlay table'.lastWrite = _
    rw [hlast]
    rfl

/-- A flush that is due to the capacity keeps the outline of the table. -/
theorem outline_flushAt (capacity : Nat) (table : Table) :
    (table.flushAt capacity).outline = table.outline :=
  Prod.ext (funext fun key => get?_flushAt capacity table key) (lastWrite_flushAt capacity table)

/-- What is forgotten depends on the last writes alone. -/
theorem outline_prune {table table' : Table} (h : table'.outline = table.outline) (horizon : Nat) :
    (table'.prune horizon).outline = (table.prune horizon).outline := by
  -- records are left alone, and last writes are filtered alike
  obtain ⟨hget, hlast⟩ := Prod.mk.inj h
  refine Prod.ext hget ?_
  unfold outline prune
  rw [hlast]

/-- A table that has become full has been flushed. -/
theorem memtable_size_flushAt {capacity : Nat} (h : 0 < capacity) (table : Table) :
    (table.flushAt capacity).memtable.size < capacity := by
  unfold flushAt
  split
  · exact h
  · next hnot => exact Nat.lt_of_not_le fun hle => hnot ⟨h, hle⟩

end Table

/-- Stores with their options that show the same, and of which no memtable is full. -/
structure Store.Coincides (options options' : StoreOptions) (s s' : Store) : Prop where
  options : s.options = options
  options' : s'.options = options'
  lastCommit : s'.lastCommit = s.lastCommit
  openIterators : s'.openIterators = s.openIterators
  active : s'.active = s.active
  outlines : ∀ ns, (s'.tables.get? ns).map Table.outline = (s.tables.get? ns).map Table.outline
  roomy : s.Roomy
  roomy' : s'.Roomy

namespace Store

/-! ### No memtable is full -/

/-- A table with an empty memtable is not full. -/
theorem Roomy.insert {store : Store} (h : store.Roomy) (ns : Namespace) {table : Table}
    (hempty : table.memtable.size = 0) :
    Roomy { store with tables := store.tables.insert ns table } := by
  intro hpos ns' table' hget
  rw [SortedMap.get?_insert] at hget
  split at hget
  · cases hget
    rw [hempty]
    exact hpos
  · exact h hpos ns' table' hget

/-- A table that is created is empty. -/
theorem Roomy.createNamespace {store : Store} (h : store.Roomy) (ns : Namespace) :
    (store.createNamespace ns).Roomy := by
  unfold Store.createNamespace
  split
  · exact h
  · exact h.insert ns rfl

/-- A table that was flushed is not full. -/
theorem Roomy.flush {store store' : Store} (h : store.Roomy) {ns : Namespace}
    (hflush : store.flush ns = .ok store') : store'.Roomy := by
  unfold Store.flush at hflush
  cases ht : store.table ns with
  | error err =>
    rw [ht] at hflush
    cases hflush
  | ok table =>
    rw [ht] at hflush
    cases hflush
    exact h.insert ns rfl

/-- If all tables were flushed none is full. -/
theorem Roomy.flushAll {store : Store} : store.flushAll.Roomy := by
  intro hpos ns table hget
  obtain ⟨table', -, rfl⟩ := Option.map_eq_some_iff.1
    ((SortedMap.get?_mapValues store.tables Table.flush ns).symm.trans hget)
  exact hpos

/-- A commit flushes each table that becomes full by it, and prunes the others. -/
theorem Roomy.install {store : Store} (h : store.Roomy) (writes : WriteSet) :
    (store.install writes).Roomy := by
  intro hpos ns table hget
  obtain ⟨table', hget', rfl⟩ := Option.map_eq_some_iff.1
    ((SortedMap.get?_mapEntries store.tables _ ns).symm.trans hget)
  -- pruning leaves memtables alone, so it is up to the flush, or to the table that was there
  cases writes.get? ns with
  | some batch => exact Table.memtable_size_flushAt hpos _
  | none => exact h hpos ns table' hget'

/-! ### Stores that coincide -/

variable {options options' : StoreOptions} {s s' : Store}

theorem coincides_ofOptions (options options' : StoreOptions) :
    Coincides options options' { options } { options := options' } :=
  ⟨rfl, rfl, rfl, rfl, rfl, fun _ => rfl, fun _ _ _ h => (nomatch h), fun _ _ _ h => (nomatch h)⟩

namespace Coincides

variable (h : Coincides options options' s s')

include h

/-- Stores with the same outlines have the same namespaces. -/
theorem contains_eq (ns : Namespace) : s'.tables.contains ns = s.tables.contains ns := by
  have hisSome := congrArg Option.isSome (h.outlines ns)
  simpa [SortedMap.contains] using hisSome

/-- A batch is accepted on the strength of the last writes alone. -/
theorem accept_eq (start : Nat) (ns : Namespace) (batch : Batch) :
    s'.accept start ns batch = s.accept start ns batch := by
  have houtlines := h.outlines ns
  unfold Store.accept Store.table
  cases ht : s.tables.get? ns with
  | none =>
    rw [ht, Option.map_none, Option.map_eq_none_iff] at houtlines
    rw [houtlines]
  | some t =>
    rw [ht, Option.map_some] at houtlines
    obtain ⟨t', ht', houtline⟩ := Option.map_eq_some_iff.1 houtlines
    rw [ht']
    have hconflicts : t'.conflicts start batch = t.conflicts start batch := by
      unfold Table.conflicts
      rw [(Prod.mk.inj houtline).2]
    show (if t'.conflicts start batch then throw (.conflict ns) else pure ⟨⟩ :
      Except EngineError Unit) = _
    rw [hconflicts]
    rfl

/-- A commit writes over the same records, whichever tables it flushes in either store. -/
theorem install (writes : WriteSet) :
    Coincides options options' (s.install writes) (s'.install writes) := by
  -- what is forgotten goes by the registry, which flushes do not touch
  have hhorizon : ({ s' with lastCommit := s'.lastCommit + 1 } : Store).horizon =
      ({ s with lastCommit := s.lastCommit + 1 } : Store).horizon := by
    unfold Store.horizon
    rw [h.active, h.lastCommit]
  refine ⟨h.options, h.options', congrArg (· + 1) h.lastCommit, h.openIterators, h.active,
    fun ns => ?_, h.roomy.install writes, h.roomy'.install writes⟩
  unfold Store.install
  dsimp only
  rw [hhorizon, SortedMap.get?_mapEntries, SortedMap.get?_mapEntries, Option.map_map, Option.map_map]
  have houtlines := h.outlines ns
  cases ht : s.tables.get? ns with
  | none =>
    rw [ht, Option.map_none, Option.map_eq_none_iff] at houtlines
    rw [houtlines]
    rfl
  | some t =>
    rw [ht, Option.map_some] at houtlines
    obtain ⟨t', ht', houtline⟩ := Option.map_eq_some_iff.1 houtlines
    rw [ht']
    refine congrArg some (Table.outline_prune ?_ _)
    cases writes.get? ns with
    | none => exact houtline
    | some batch =>
      dsimp only
      rw [Table.outline_flushAt, Table.outline_flushAt, h.lastCommit]
      exact Table.outline_write houtline _ batch

/-- A write set is refused alike, or applied alike. -/
theorem apply_cases (start : Nat) (writes : WriteSet) :
    (∃ t t', s.apply start writes = .ok t ∧ s'.apply start writes = .ok t' ∧
      Coincides options options' t t') ∨
      ∃ err, s.apply start writes = .error err ∧ s'.apply start writes = .error err := by
  have haccept : s'.accept = s.accept := by
    funext start ns batch
    exact h.accept_eq start ns batch
  rw [Store.apply_eq, Store.apply_eq, haccept]
  cases writes.entries.forM fun e => s.accept start e.1 e.2 with
  | ok u => exact .inl ⟨_, _, rfl, rfl, h.install writes⟩
  | error err => exact .inr ⟨err, rfl, rfl⟩

theorem enter : Coincides options options' s.enter s'.enter := by
  refine ⟨h.options, h.options', h.lastCommit, h.openIterators, ?_, h.outlines, h.roomy, h.roomy'⟩
  unfold Store.enter
  rw [h.active, h.lastCommit]

/-- A transaction is struck off both registries, which are the same. -/
theorem leave (start : Nat) : Coincides options options' (s.leave start) (s'.leave start) := by
  refine ⟨h.options, h.options', h.lastCommit, h.openIterators, ?_, h.outlines, h.roomy, h.roomy'⟩
  unfold Store.leave
  rw [h.active]

theorem iteratorOpened : Coincides options options' s.iteratorOpened s'.iteratorOpened :=
  ⟨h.options, h.options', h.lastCommit, congrArg (· + 1) h.openIterators, h.active, h.outlines,
    h.roomy, h.roomy'⟩

theorem iteratorReleased : Coincides options options' s.iteratorReleased s'.iteratorReleased :=
  ⟨h.options, h.options', h.lastCommit, congrArg Store.countDown h.openIterators, h.active, h.outlines,
    h.roomy, h.roomy'⟩

/-- A namespace that is created is empty in both stores. -/
theorem createNamespace (ns : Namespace) :
    Coincides options options' (s.createNamespace ns) (s'.createNamespace ns) := by
  have hroomy := h.roomy.createNamespace ns
  have hroomy' := h.roomy'.createNamespace ns
  unfold Store.createNamespace at hroomy hroomy' ⊢
  rw [h.contains_eq] at hroomy' ⊢
  split
  · exact h
  · next hnot =>
    rw [if_neg hnot] at hroomy hroomy'
    refine ⟨h.options, h.options', h.lastCommit, h.openIterators, h.active, fun ns' => ?_, hroomy,
      hroomy'⟩
    show ((s'.tables.insert ns ∅).get? ns').map _ = ((s.tables.insert ns ∅).get? ns').map _
    rw [SortedMap.get?_insert, SortedMap.get?_insert]
    split
    · rfl
    · exact h.outlines ns'

end Coincides

/-! ### Flushing one of the stores -/

/-- After a flush every namespace shows what it showed before. -/
theorem outlines_flush {store : Store} {ns : Namespace} (h : s.flush ns = .ok store)
    (ns' : Namespace) :
    (store.tables.get? ns').map Table.outline = (s.tables.get? ns').map Table.outline := by
  unfold Store.flush at h
  cases ht : s.table ns with
  | error err =>
    rw [ht] at h
    cases h
  | ok table =>
    rw [ht] at h
    cases h
    show ((s.tables.insert ns table.flush).get? ns').map _ = _
    rw [SortedMap.get?_insert]
    split
    · next heq =>
      rw [← heq, table_eq_ok_iff.1 ht]
      exact congrArg some (Table.outline_flush table)
    · rfl

/-- A flush of all tables keeps the outline of each. -/
theorem outlines_flushAll (s : Store) (ns : Namespace) :
    (s.flushAll.tables.get? ns).map Table.outline = (s.tables.get? ns).map Table.outline := by
  show ((s.tables.mapValues Table.flush).get? ns).map _ = _
  rw [SortedMap.get?_mapValues, Option.map_map]
  exact congrArg (Option.map · _) (funext fun table => Table.outline_flush table)

/-- A flush leaves all but the tables alone. -/
theorem flush_eq {store : Store} {ns : Namespace} (h : s.flush ns = .ok store) :
    store = { s with tables := store.tables } := by
  unfold Store.flush at h
  cases ht : s.table ns with
  | error err =>
    rw [ht] at h
    cases h
  | ok table =>
    rw [ht] at h
    cases h
    rfl

/-- One of two stores may be flushed without the other. -/
theorem Coincides.flush_left (h : Coincides options options' s s') {ns : Namespace} {store : Store}
    (hflush : s.flush ns = .ok store) : Coincides options options' store s' := by
  have houtlines := outlines_flush hflush
  have hroomy := h.roomy.flush hflush
  rw [flush_eq hflush] at houtlines hroomy ⊢
  exact ⟨h.options, h.options', h.lastCommit, h.openIterators, h.active,
    fun ns' => (h.outlines ns').trans (houtlines ns').symm, hroomy, h.roomy'⟩

/-- One of two stores may be flushed altogether without the other. -/
theorem Coincides.flushAll_left (h : Coincides options options' s s') :
    Coincides options options' s.flushAll s' :=
  ⟨h.options, h.options', h.lastCommit, h.openIterators, h.active,
    fun ns => (h.outlines ns).trans (outlines_flushAll s ns).symm, .flushAll, h.roomy'⟩

/-- Neither of two stores that show the same is preferred. -/
theorem Coincides.symm (h : Coincides options options' s s') : Coincides options' options s' s :=
  ⟨h.options', h.options, h.lastCommit.symm, h.openIterators.symm, h.active.symm,
    fun ns => (h.outlines ns).symm, h.roomy', h.roomy⟩

end Store

/-! ### Engines whose stores coincide -/

/-- Engines that differ in their stores only, and these coincide. -/
structure Engine.Coincides (options options' : StoreOptions) (e e' : Engine) : Prop where
  stores : e.store.Coincides options options' e'.store
  transactions : e'.transactions = e.transactions
  nextTransaction : e'.nextTransaction = e.nextTransaction
  faults : e'.faults = e.faults

namespace Engine.Coincides

variable {options options' : StoreOptions} {e e' : Engine}

/-- Both stores are changed, and something else that goes alike. -/
theorem withStores (h : e.Coincides options options' e') {store store' : Store}
    (hstores : store.Coincides options options' store') :
    Engine.Coincides options options' { e with store } { e' with store := store' } :=
  ⟨hstores, h.transactions, h.nextTransaction, h.faults⟩

/-- Transactions are kept alike in engines that show the same. -/
theorem keeping (h : e.Coincides options options' e') (id : TransactionId) (tx : Transaction) :
    (e.keeping id tx).Coincides options options' (e'.keeping id tx) := by
  refine ⟨h.stores, ?_, h.nextTransaction, h.faults⟩
  unfold Engine.keeping
  rw [h.transactions]

/-- A transaction ends alike if its way of ending leaves stores that show the same. -/
theorem ended (h : e.Coincides options options' e') (id : TransactionId) (tx : Transaction)
    {ending : Transaction → Store → Except EngineError Unit × Transaction × Store}
    (htx : (ending tx e'.store).2.1 = (ending tx e.store).2.1)
    (hstores : (ending tx e.store).2.2.Coincides options options' (ending tx e'.store).2.2) :
    (e.ended id tx ending).Coincides options options' (e'.ended id tx ending) := by
  have hkeeping := h.keeping id (ending tx e.store).2.1
  unfold Engine.ended
  rw [htx]
  exact hkeeping.withStores hstores

/-- A commit has the same outcome in engines that show the same, and leaves them so. -/
theorem committed (h : e.Coincides options options' e') (id : TransactionId) (tx : Transaction) :
    (tx.commit e'.store).1 = (tx.commit e.store).1 ∧
      (e.ended id tx Transaction.commit).Coincides options options'
        (e'.ended id tx Transaction.commit) := by
  have hcommit : (tx.commit e'.store).1 = (tx.commit e.store).1 ∧
      (tx.commit e'.store).2.1 = (tx.commit e.store).2.1 ∧
        (tx.commit e.store).2.2.Coincides options options' (tx.commit e'.store).2.2 := by
    unfold Transaction.commit
    split
    · exact ⟨rfl, rfl, h.stores⟩
    split
    · exact ⟨rfl, rfl, h.stores.leave tx.start⟩
    · rcases h.stores.apply_cases tx.start tx.writes with ⟨t, t', ht, ht', hcoincides⟩ |
        ⟨err, herr, herr'⟩
      · rw [ht, ht']
        exact ⟨rfl, rfl, hcoincides.leave tx.start⟩
      · rw [herr, herr']
        exact ⟨rfl, rfl, h.stores.leave tx.start⟩
  exact ⟨hcommit.1, h.ended id tx hcommit.2.1 hcommit.2.2⟩

/-- A rollback does not depend on what the store holds. -/
theorem rolledBack (h : e.Coincides options options' e') (id : TransactionId) (tx : Transaction) :
    (e.ended id tx Transaction.rollback).Coincides options options'
      (e'.ended id tx Transaction.rollback) := by
  have hrollback : (tx.rollback e'.store).2.1 = (tx.rollback e.store).2.1 ∧
      (tx.rollback e.store).2.2.Coincides options options' (tx.rollback e'.store).2.2 := by
    unfold Transaction.rollback
    split
    · exact ⟨rfl, h.stores⟩
    · exact ⟨rfl, h.stores.leave tx.start⟩
  exact h.ended id tx hrollback.1 hrollback.2

/-- A transaction is given up in both engines. -/
theorem discard (h : e.Coincides options options' e') (id : TransactionId) :
    (e.discard id).Coincides options options' (e'.discard id) := by
  unfold Engine.discard
  rw [h.transactions]
  cases e.transactions.get? id with
  | none => exact h
  | some tx =>
    refine ⟨?_, rfl, h.nextTransaction, h.faults⟩
    unfold Transaction.abandon
    dsimp only
    split
    · exact h.stores
    · exact h.stores.leave tx.start

/-- A transaction is begun from the same commit in both engines. -/
theorem begun (h : e.Coincides options options' e') :
    e.begun.Coincides options options' e'.begun := by
  refine ⟨h.stores.enter, ?_, congrArg (· + 1) h.nextTransaction, h.faults⟩
  unfold Engine.begun
  rw [h.transactions, h.nextTransaction, h.stores.lastCommit]

end Engine.Coincides

/-- Two runs with options of their own, either of which may be flushed while the other is not. -/
def Comparison.flushing (options options' : StoreOptions) : Comparison where
  engines := Engine.Coincides options options'
  rename := id
  extra := none
  sizes := False
  counters := True
  not_counters := not_of_isSome_none
  faults h := h.faults
  transactions h id := congrArg (SortedMap.get? · id) h.transactions
  next h := h.nextTransaction
  records h := by
    funext ns
    have houtlines := congrArg (Option.map Prod.fst) (h.stores.outlines ns)
    rwa [Option.map_map, Option.map_map] at houtlines
  -- sizes tell a flushed record from a recent one, so they are not compared
  tallies := nofun
  weights := nofun
  openIterators _ _ _ h := h.stores.openIterators
  drawn h call := ⟨h.stores, h.transactions, h.nextTransaction,
    congrArg (fun faults => (faults.draw call).2) h.faults⟩
  healed h := ⟨h.stores, h.transactions, h.nextTransaction, rfl⟩
  created h ns := h.withStores (h.stores.createNamespace ns)
  flushed h _ _ _ hflush hflush' :=
    h.withStores ((h.stores.flush_left hflush).symm.flush_left hflush').symm
  flushedAll h := h.withStores h.stores.flushAll_left.symm.flushAll_left.symm
  begun h := h.begun
  keeping h _ _ _ _ _ _ := h.keeping _ _
  iterating h := h.withStores h.stores.iteratorOpened
  released h := h.withStores h.stores.iteratorReleased
  committed h _ _ _ := h.committed _ _
  rolledBack h _ _ _ := h.rolledBack _ _
  discarded h id := h.discard id
  aside := nofun

end SecondaryIndex
