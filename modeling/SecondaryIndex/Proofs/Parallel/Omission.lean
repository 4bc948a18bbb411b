import SecondaryIndex.Proofs.Engine.Conflict
import SecondaryIndex.Proofs.Engine.Echo
import SecondaryIndex.Proofs.Parallel.Engine

/-!
# A transaction more

Two engines have had the same done to them, but the second one has had a transaction more, which has
committed nothing. While it is open it is registered, and what is registered bounds what commits forget.
So the second engine may remember last writes that the first one has forgotten, for a long time after
the transaction has ended.

Nobody can tell, since of a last write it only matters whether it came after the start of an open
transaction. With respect to these starts both engines remember the same (`Omits.remembers`): what an
engine that keeps its books forgets is older than all of them (`Sound.writtenAfter_install`), and nothing
is newer than the start of a transaction that begins. The records themselves are the same layer by layer,
so that the sizes are the same too.
-/

namespace SecondaryIndex

/-- The records of a table, layer by layer. -/
def Table.layering (table : Table) : SortedMap Bytes Slot × SortedMap Bytes Bytes :=
  (table.memtable, table.flushed)

/-- The records of each namespace that exists, layer by layer. -/
def Store.layerings (store : Store) (ns : Namespace) :
    Option (SortedMap Bytes Slot × SortedMap Bytes Bytes) := (store.tables.get? ns).map Table.layering

namespace Table

variable {table table' : Table}

/-- Tables of one layering hold the same records. -/
theorem get?_of_layering (h : table'.layering = table.layering) : table'.get? = table.get? := by
  obtain ⟨hmemtable, hflushed⟩ := Prod.mk.inj h
  funext key
  unfold Table.get?
  rw [hmemtable, hflushed]

/-- A flush moves the same records in both. -/
theorem layering_flush (h : table'.layering = table.layering) :
    table'.flush.layering = table.flush.layering := by
  obtain ⟨hmemtable, hflushed⟩ := Prod.mk.inj h
  unfold layering flush contents
  rw [hmemtable, hflushed]

/-- It is due in both or in neither. -/
theorem layering_flushAt (h : table'.layering = table.layering) (capacity : Nat) :
    (table'.flushAt capacity).layering = (table.flushAt capacity).layering := by
  have hflush := layering_flush h
  obtain ⟨hmemtable, -⟩ := Prod.mk.inj h
  unfold flushAt
  rw [hmemtable]
  split
  · exact hflush
  · exact h

/-- A batch is written into the same layer in both. -/
theorem layering_write (h : table'.layering = table.layering) (seq : Nat) (batch : Batch) :
    (table'.write seq batch).layering = (table.write seq batch).layering := by
  obtain ⟨hmemtable, hflushed⟩ := Prod.mk.inj h
  unfold layering write
  rw [hmemtable, hflushed]

end Table

namespace Store

variable {s s' : Store}

/-- A namespace exists in both stores with the same layers, or in neither. -/
theorem layerings_cases (h : s'.layerings = s.layerings) (ns : Namespace) :
    (∃ t t', s.tables.get? ns = some t ∧ s'.tables.get? ns = some t' ∧ t'.layering = t.layering) ∨
      (s.tables.get? ns = none ∧ s'.tables.get? ns = none) := by
  have hns := congrFun h ns
  unfold layerings at hns
  cases ht : s.tables.get? ns with
  | none =>
    rw [ht, Option.map_none, Option.map_eq_none_iff] at hns
    exact .inr ⟨rfl, hns⟩
  | some t =>
    rw [ht, Option.map_some] at hns
    obtain ⟨t', ht', hlayering⟩ := Option.map_eq_some_iff.1 hns
    exact .inl ⟨t, t', rfl, ht', hlayering⟩

/-- What changes every table in a way that goes by its layers keeps the layers the same. -/
theorem layerings_mapEntries (h : s'.layerings = s.layerings) {f f' : Namespace → Table → Table}
    (hf : ∀ ns t t', t'.layering = t.layering → (f' ns t').layering = (f ns t).layering)
    (ns : Namespace) :
    ((s'.tables.mapEntries f').get? ns).map Table.layering =
      ((s.tables.mapEntries f).get? ns).map Table.layering := by
  rw [SortedMap.get?_mapEntries, SortedMap.get?_mapEntries]
  rcases layerings_cases h ns with ⟨t, t', ht, ht', hlayering⟩ | ⟨ht, ht'⟩
  · rw [ht, ht']
    exact congrArg some (hf ns t t' hlayering)
  · rw [ht, ht']
    rfl

/-- What a commit installs depends on the layers and not on the transactions that are open. -/
theorem layerings_install (h : s'.layerings = s.layerings) (hoptions : s'.options = s.options)
    (hlast : s'.lastCommit = s.lastCommit) (writes : WriteSet) :
    (s'.install writes).layerings = (s.install writes).layerings := by
  funext ns
  refine layerings_mapEntries h (fun ns t t' hlayering => ?_) ns
  dsimp only
  -- pruning leaves the records alone
  cases writes.get? ns with
  | none => exact hlayering
  | some batch =>
    rw [hoptions, hlast]
    exact Table.layering_flushAt (Table.layering_write hlayering _ batch) _

/-- A namespace is created in both stores, or was there in both. -/
theorem layerings_createNamespace (h : s'.layerings = s.layerings) (ns : Namespace) :
    (s'.createNamespace ns).layerings = (s.createNamespace ns).layerings := by
  have hcontains : s'.tables.contains ns = s.tables.contains ns := by
    unfold SortedMap.contains
    rcases layerings_cases h ns with ⟨t, t', ht, ht', -⟩ | ⟨ht, ht'⟩
    · rw [ht, ht']
      rfl
    · rw [ht, ht']
  unfold Store.createNamespace
  rw [hcontains]
  split
  · exact h
  · funext ns'
    unfold layerings
    rw [SortedMap.get?_insert, SortedMap.get?_insert]
    split
    · rfl
    · exact congrFun h ns'

/-- A namespace is flushed in both stores. -/
theorem layerings_flush (h : s'.layerings = s.layerings) {ns : Namespace} {store store' : Store}
    (hflush : s.flush ns = .ok store) (hflush' : s'.flush ns = .ok store') :
    store'.layerings = store.layerings := by
  unfold Store.flush Store.table at hflush hflush'
  rcases layerings_cases h ns with ⟨t, t', ht, ht', hlayering⟩ | ⟨ht, ht'⟩
  · rw [ht] at hflush
    rw [ht'] at hflush'
    cases hflush
    cases hflush'
    funext ns'
    unfold layerings
    rw [SortedMap.get?_insert, SortedMap.get?_insert]
    split
    · exact congrArg some (Table.layering_flush hlayering)
    · exact congrFun h ns'
  · rw [ht] at hflush
    cases hflush

theorem layerings_flushAll (h : s'.layerings = s.layerings) :
    s'.flushAll.layerings = s.flushAll.layerings :=
  funext fun ns => layerings_mapEntries h (fun _ _ _ => Table.layering_flush) ns

/-! ### Sizes -/

/-- Sizes are computed from the options and the records alone. -/
theorem totalSize_of_options (h : s'.options = s.options) : s'.totalSize = s.totalSize := by
  funext records
  unfold totalSize recordSize
  rw [h]

/-- The recent records are counted alike. -/
theorem recentTally_of_layerings (h : s'.layerings = s.layerings) (hoptions : s'.options = s.options)
    (ns : Namespace) (range : Range) : s'.recentTally ns range = s.recentTally ns range := by
  unfold recentTally table
  rcases layerings_cases h ns with ⟨t, t', ht, ht', hlayering⟩ | ⟨ht, ht'⟩
  · obtain ⟨hmemtable, -⟩ := Prod.mk.inj hlayering
    rw [ht, ht', totalSize_of_options hoptions]
    show (do pure (Tally.mk (t'.memtable.within range).size (← s.totalSize
      ((t'.memtable.within range).mapValues fun slot => slot.getD []))) : Except EngineError Tally) = _
    rw [hmemtable]
    rfl
  · rw [ht, ht']
    rfl

/-- The flushed records are sized alike. -/
theorem olderSize_of_layerings (h : s'.layerings = s.layerings) (hoptions : s'.options = s.options)
    (ns : Namespace) (range : Range) : s'.olderSize ns range = s.olderSize ns range := by
  unfold olderSize table
  rcases layerings_cases h ns with ⟨t, t', ht, ht', hlayering⟩ | ⟨ht, ht'⟩
  · obtain ⟨-, hflushed⟩ := Prod.mk.inj hlayering
    rw [ht, ht', totalSize_of_options hoptions]
    show s.totalSize (t'.flushed.within range) = _
    rw [hflushed]
    rfl
  · rw [ht, ht']
    rfl

end Store

namespace Engine

/-- Engines of which the second one has had one more transaction, under the number `id`, which has
committed nothing. Later transactions have a number higher by one there. -/
structure Omits (id : TransactionId) (e e' : Engine) : Prop where
  sound : e.Sound
  sound' : e'.Sound
  healthy : e.faults = .healthy
  healthy' : e'.faults = .healthy
  given : id ≤ e.nextTransaction
  next : e'.nextTransaction = e.nextTransaction + 1
  transactions : ∀ j, e'.transactions.get? (shifted id 1 j) = e.transactions.get? j
  options : e'.store.options = e.store.options
  lastCommit : e'.store.lastCommit = e.store.lastCommit
  layerings : e'.store.layerings = e.store.layerings
  /-- What matters of last writes is the same. -/
  remembers : ∀ {j tx}, e.HasOpen j tx → ∀ x,
    (e'.store.WrittenAfter tx.start x ↔ e.store.WrittenAfter tx.start x)

/-- The transaction that is left out is the counterpart of none. -/
theorem shifted_ne (id j : TransactionId) : shifted id 1 j ≠ id := by
  unfold shifted
  split <;> omega

namespace Omits

variable {id j : TransactionId} {tx : Transaction} {e e' e'' : Engine}

/-- Every other transaction is open on both sides, under its own identifier or under the next one. -/
theorem hasOpen (h : e.Omits id e') (hopen : e.HasOpen j tx) : e'.HasOpen (shifted id 1 j) tx :=
  ⟨(h.transactions j).trans hopen.1, hopen.2⟩

/-- The identifiers that are given out next correspond as well. -/
theorem next_eq (h : e.Omits id e') : e'.nextTransaction = shifted id 1 e.nextTransaction := by
  rw [shifted_of_le h.given, h.next]

/-- Where a transaction is kept in both engines. -/
theorem get?_insert (h : e.Omits id e') (j k : TransactionId) (tx : Transaction) :
    (e'.transactions.insert (shifted id 1 j) tx).get? (shifted id 1 k) =
      (e.transactions.insert j tx).get? k := by
  rw [SortedMap.get?_insert, SortedMap.get?_insert, h.transactions]
  simp only [(shifted_injective id 1).eq_iff]

/-! ### What is done to both -/

/-- The stores may be rearranged on both sides. -/
theorem rearranged (h : e.Omits id e') {store store' : Store} (halike : e.store.Alike store)
    (halike' : e'.store.Alike store') (hlayerings : store'.layerings = store.layerings) :
    Omits id { e with store } { e' with store := store' } where
  sound := h.sound.rearranged halike
  sound' := h.sound'.rearranged halike'
  healthy := h.healthy
  healthy' := h.healthy'
  given := h.given
  next := h.next
  transactions := h.transactions
  options := halike'.options.trans (h.options.trans halike.options.symm)
  lastCommit := halike'.lastCommit.trans (h.lastCommit.trans halike.lastCommit.symm)
  layerings := hlayerings
  remembers {j tx} hopen x := by
    show (∃ seq, store'.lastWrite? x = some seq ∧ tx.start < seq) ↔
      ∃ seq, store.lastWrite? x = some seq ∧ tx.start < seq
    rw [halike'.lastWrite?_eq, halike.lastWrite?_eq]
    exact h.remembers hopen x

/-- The faults that are planned end on both sides. -/
theorem healed (h : e.Omits id e') :
    Omits id { e with faults := .healthy } { e' with faults := .healthy } :=
  ⟨h.sound.withFaults _, h.sound'.withFaults _, rfl, rfl, h.given, h.next, h.transactions, h.options,
    h.lastCommit, h.layerings, h.remembers⟩

/-- A transaction is begun on both sides. -/
theorem begun (h : e.Omits id e') : e.begun.Omits id e'.begun where
  sound := h.sound.begun
  sound' := h.sound'.begun
  healthy := h.healthy
  healthy' := h.healthy'
  given := Nat.le_succ_of_le h.given
  next := congrArg (· + 1) h.next
  transactions j := by
    unfold Engine.begun
    dsimp only
    rw [h.next_eq, h.lastCommit, h.get?_insert]
  options := h.options
  lastCommit := h.lastCommit
  layerings := h.layerings
  remembers {j tx} hopen x := by
    rcases hasOpen_begun.1 hopen with ⟨-, rfl⟩ | ⟨-, hold⟩
    · -- nothing was written after the last commit
      have hnot {e : Engine} (hsound : e.Sound) : ¬ e.store.WrittenAfter e.store.lastCommit x := by
        rintro ⟨seq, hseq, hlt⟩
        exact Nat.not_lt_of_le (hsound.lastWrite_le hseq) hlt
      have hnew := hnot h.sound
      have hnew' := hnot h.sound'
      rw [h.lastCommit] at hnew'
      exact iff_of_false hnew' hnew
    · exact h.remembers hold x

/-- A transaction other than the one left out is closed on both sides. -/
theorem closed (h : e.Omits id e') (hopen : e.HasOpen j tx) :
    (e.closed j tx).Omits id (e'.closed (shifted id 1 j) tx) where
  sound := h.sound.closed hopen
  sound' := h.sound'.closed (h.hasOpen hopen)
  healthy := h.healthy
  healthy' := h.healthy'
  given := h.given
  next := h.next
  transactions k := h.get?_insert j k tx.close
  options := h.options
  lastCommit := h.lastCommit
  layerings := h.layerings
  remembers hopen' x := h.remembers (hasOpen_closed.1 hopen').2 x

/-- It is given up on both sides. -/
theorem discard (h : e.Omits id e') (j : TransactionId) :
    (e.discard j).Omits id (e'.discard (shifted id 1 j)) := by
  -- of the store only the active transactions change, on either side
  have hstore {e : Engine} {j : TransactionId} :
      ∃ active, (e.discard j).store = { e.store with active := active } := by
    rcases store_discard e j with ⟨tx, -, hstore⟩ | ⟨-, hstore⟩
    · exact ⟨_, hstore⟩
    · exact ⟨e.store.active, hstore⟩
  obtain ⟨active, hactive⟩ := @hstore e j
  obtain ⟨active', hactive'⟩ := @hstore e' (shifted id 1 j)
  have hnext {e : Engine} {j : TransactionId} : (e.discard j).nextTransaction = e.nextTransaction := by
    unfold Engine.discard
    split <;> rfl
  refine ⟨h.sound.discard j, h.sound'.discard _, ?_, ?_, ?_, ?_, fun k => ?_, ?_, ?_, ?_, ?_⟩
  · rw [faults_discard, h.healthy]
  · rw [faults_discard, h.healthy']
  · rw [hnext]
    exact h.given
  · rw [hnext, hnext, h.next]
  · unfold Engine.discard
    rw [h.transactions]
    cases e.transactions.get? j with
    | none => exact h.transactions k
    | some tx =>
      -- numbers are shifted injectively, so it is the same transaction that goes on both sides
      show (e'.transactions.erase _).get? _ = (e.transactions.erase j).get? k
      rw [SortedMap.get?_erase, SortedMap.get?_erase, h.transactions]
      simp only [(shifted_injective id 1).eq_iff]
  · rw [hactive, hactive']
    exact h.options
  · rw [hactive, hactive']
    exact h.lastCommit
  · rw [hactive, hactive']
    exact h.layerings
  · intro k tx hopen x
    rw [hactive, hactive']
    exact h.remembers (hasOpen_discard.1 hopen).2 x

/-- What it writes is kept on both sides. -/
theorem keeping (h : e.Omits id e') {ns : Namespace} {key : Bytes} {slot : Slot}
    (hwritten : e.writtenTo j ns key slot = .ok tx) :
    (e.keeping j tx).Omits id (e'.keeping (shifted id 1 j) tx) := by
  obtain ⟨old, hopen, hns, htx⟩ := of_writtenTo hwritten
  have hwritten' : e'.writtenTo (shifted id 1 j) ns key slot = .ok tx := by
    obtain ⟨t, ht⟩ := Store.hasNamespace_iff.1 hns
    obtain ⟨t', ht'⟩ : ∃ t', e'.store.tables.get? ns = some t' := by
      rcases Store.layerings_cases h.layerings ns with ⟨-, t', -, ht', -⟩ | ⟨hnone, -⟩
      · exact ⟨t', ht'⟩
      · rw [ht] at hnone
        cases hnone
    rw [← hwritten]
    unfold writtenTo held
    rw [h.transactions, hopen.1]
    show old.write e'.store ns key slot = old.write e.store ns key slot
    unfold Transaction.write Store.table
    rw [ht, ht']
    rfl
  refine ⟨h.sound.keeping hwritten, h.sound'.keeping hwritten', h.healthy, h.healthy', h.given, h.next,
    fun k => h.get?_insert j k tx, h.options, h.lastCommit, h.layerings, fun {k t} hopen' x => ?_⟩
  -- a write leaves the start of its transaction alone
  rcases hasOpen_keeping.1 hopen' with ⟨rfl, rfl, -⟩ | ⟨-, hold⟩
  · rw [htx]
    exact h.remembers hopen x
  · exact h.remembers hold x

/-! ### Commits -/

/-- Its writes are in conflict on both sides or on neither, since the one left out committed nothing. -/
theorem accept_eq (h : e.Omits id e') (hopen : e.HasOpen j tx) (ns : Namespace) (batch : Batch) :
    e'.store.accept tx.start ns batch = e.store.accept tx.start ns batch := by
  unfold Store.accept Store.table
  rcases Store.layerings_cases h.layerings ns with ⟨t, t', ht, ht', -⟩ | ⟨ht, ht'⟩
  · have hafter {store : Store} {table : Table} (htable : store.tables.get? ns = some table)
        (key : Bytes) : store.WrittenAfter tx.start (ns, key) ↔
          ∃ seq, table.lastWrite.get? key = some seq ∧ tx.start < seq := by
      unfold Store.WrittenAfter Store.lastWrite?
      rw [htable]
      rfl
    have hconflicts : t'.conflicts tx.start batch = t.conflicts tx.start batch := by
      rw [Bool.eq_iff_iff, Table.conflicts_iff, Table.conflicts_iff]
      -- a key is contended in the one if it is in the other
      have hkey (key : Bytes) := (hafter ht' key).symm.trans ((h.remembers hopen _).trans (hafter ht key))
      constructor
      · rintro ⟨key, seq, hbatch, hseq⟩
        obtain ⟨seq', hseq'⟩ := (hkey key).1 ⟨seq, hseq⟩
        exact ⟨key, seq', hbatch, hseq'⟩
      · rintro ⟨key, seq, hbatch, hseq⟩
        obtain ⟨seq', hseq'⟩ := (hkey key).2 ⟨seq, hseq⟩
        exact ⟨key, seq', hbatch, hseq'⟩
    rw [ht, ht']
    show (if t'.conflicts tx.start batch then throw (.conflict ns) else pure ⟨⟩ :
      Except EngineError Unit) = _
    rw [hconflicts]
    rfl
  · rw [ht, ht']

/-- The writes of a transaction are refused alike, or installed alike. -/
theorem apply_cases (h : e.Omits id e') (hopen : e.HasOpen j tx) :
    (e.store.apply tx.start tx.writes = .ok (e.store.install tx.writes) ∧
      e'.store.apply tx.start tx.writes = .ok (e'.store.install tx.writes)) ∨
      ∃ err, e.store.apply tx.start tx.writes = .error err ∧
        e'.store.apply tx.start tx.writes = .error err := by
  have haccept : (fun batch : Namespace × Batch => e'.store.accept tx.start batch.1 batch.2) =
      fun batch => e.store.accept tx.start batch.1 batch.2 :=
    funext fun batch => h.accept_eq hopen batch.1 batch.2
  rw [Store.apply_eq, Store.apply_eq, haccept]
  cases tx.writes.entries.forM fun batch => e.store.accept tx.start batch.1 batch.2 with
  | ok u => exact .inl ⟨rfl, rfl⟩
  | error err => exact .inr ⟨err, rfl, rfl⟩

/-- Its writes are installed on both sides. -/
theorem installed (h : e.Omits id e') (hopen : e.HasOpen j tx) :
    Omits id { e with store := e.store.install tx.writes }
      { e' with store := e'.store.install tx.writes } where
  sound := h.sound.installed tx.writes
  sound' := h.sound'.installed tx.writes
  healthy := h.healthy
  healthy' := h.healthy'
  given := h.given
  next := h.next
  transactions := h.transactions
  options := h.options
  lastCommit := congrArg (· + 1) h.lastCommit
  layerings := Store.layerings_install h.layerings h.options h.lastCommit tx.writes
  remembers {k t} hopen' x := by
    have hopen'' : e.HasOpen k t := hopen'
    show (e'.store.install tx.writes).WrittenAfter t.start x ↔
      (e.store.install tx.writes).WrittenAfter t.start x
    -- in both engines the write came after the start if it is one of these, or had come after it before
    rw [h.sound.writtenAfter_install hopen'' fun hsome =>
        h.sound.exists_table hopen (Option.isSome_iff_ne_none.1 hsome),
      h.sound'.writtenAfter_install (h.hasOpen hopen'') fun hsome =>
        h.sound'.exists_table (h.hasOpen hopen) (Option.isSome_iff_ne_none.1 hsome),
      h.remembers hopen'']

/-- A transaction that has ended before is left as it is. -/
theorem ended_of_finished (h : e.Omits id e') (hget : e.transactions.get? j = some tx) :
    Omits id { e.keeping j tx with store := e.store }
      { e'.keeping (shifted id 1 j) tx with store := e'.store } := by
  have hsame : e.keeping j tx = e := keeping_of_get? hget
  have hsame' : e'.keeping (shifted id 1 j) tx = e' := keeping_of_get? ((h.transactions j).trans hget)
  rw [hsame, hsame']
  exact h

/-- It is committed on both sides, or refused on both with the same conflict. -/
theorem committed (h : e.Omits id e') (hget : e.transactions.get? j = some tx) :
    (tx.commit e'.store).1 = (tx.commit e.store).1 ∧
      (e.ended j tx Transaction.commit).Omits id
        (e'.ended (shifted id 1 j) tx Transaction.commit) := by
  unfold Engine.ended Transaction.commit
  cases hfin : tx.finished with
  | true => exact ⟨rfl, h.ended_of_finished hget⟩
  | false =>
    have hopen : e.HasOpen j tx := ⟨hget, hfin⟩
    rw [if_neg Bool.false_ne_true, if_neg Bool.false_ne_true]
    split
    · exact ⟨rfl, h.closed hopen⟩
    · rcases h.apply_cases hopen with ⟨happly, happly'⟩ | ⟨err, herr, herr'⟩
      · rw [happly, happly']
        have hopen' : Engine.HasOpen { e with store := e.store.install tx.writes } j tx := hopen
        exact ⟨rfl, (h.installed hopen).closed hopen'⟩
      · rw [herr, herr']
        exact ⟨rfl, h.closed hopen⟩

/-- It is rolled back on both sides. -/
theorem rolledBack (h : e.Omits id e') (hget : e.transactions.get? j = some tx) :
    (e.ended j tx Transaction.rollback).Omits id
      (e'.ended (shifted id 1 j) tx Transaction.rollback) := by
  unfold Engine.ended Transaction.rollback
  cases hfin : tx.finished with
  | true => exact h.ended_of_finished hget
  | false => exact h.closed ⟨hget, hfin⟩

/-! ### What is done in the transaction that only one of them has -/

/-- The one left out may do what it likes, as long as it commits nothing. -/
theorem aside (h : e.Omits id e') (haside : e'.Aside id e'') : e.Omits id e'' := by
  -- nothing has changed in the store but its registry, and no other transaction
  obtain ⟨n, active, hstore⟩ := haside.beside.store
  refine ⟨h.sound, haside.sound h.sound', h.healthy, haside.healthy h.healthy', h.given,
    haside.next.trans h.next, fun j => ?_, ?_, ?_, ?_, ?_⟩
  · rw [haside.beside.others _ (shifted_ne id j), h.transactions]
  · rw [hstore]
    exact h.options
  · rw [hstore]
    exact h.lastCommit
  · rw [hstore]
    exact h.layerings
  · intro j tx hopen x
    rw [hstore]
    exact h.remembers hopen x

/-- What no transaction notices may happen to the other one alone. -/
theorem idles (h : e.Omits id e') (hidles : e.Idles e'') : e''.Omits id e' := by
  obtain ⟨n, hstore⟩ := hidles.store
  refine ⟨hidles.steady.sound h.sound, h.sound', hidles.healthy h.healthy, h.healthy', ?_, ?_, fun j => ?_,
    ?_, ?_, ?_, ?_⟩
  · rw [hidles.nextTransaction]
    exact h.given
  · rw [hidles.nextTransaction]
    exact h.next
  · rw [hidles.transactions, h.transactions]
  · rw [hstore]
    exact h.options
  · rw [hstore]
    exact h.lastCommit
  · rw [hstore]
    exact h.layerings
  · intro j tx hopen x
    have hold : e.HasOpen j tx := by
      unfold HasOpen at hopen ⊢
      rwa [hidles.transactions] at hopen
    rw [hstore]
    exact h.remembers hold x

end Omits

/-- The transaction has just begun. -/
theorem omits_begun {e : Engine} (hsound : e.Sound) (hhealthy : e.faults = .healthy) :
    e.Omits e.nextTransaction e.begun where
  sound := hsound
  sound' := hsound.begun
  healthy := hhealthy
  healthy' := hhealthy
  given := Nat.le_refl _
  next := rfl
  transactions j := by
    show (e.transactions.insert e.nextTransaction _).get? _ = _
    rw [SortedMap.get?_insert, if_neg (shifted_ne _ j).symm]
    unfold shifted
    split
    · rfl
    · next hle =>
      -- these numbers are still to be given out
      have hle' := Nat.le_of_not_lt hle
      rw [hsound.fresh j hle', hsound.fresh (j + 1) (Nat.le_succ_of_le hle')]
  options := rfl
  lastCommit := rfl
  layerings := rfl
  remembers _ _ := Iff.rfl

end Engine

/-- Two runs, of which the second one has a transaction more. -/
def Comparison.omitting (id : TransactionId) : Comparison where
  engines := Engine.Omits id
  rename := Engine.shifted id 1
  extra := some id
  sizes := True
  counters := False
  not_counters _ h := h
  faults h := h.healthy'.trans h.healthy.symm
  transactions h := h.transactions
  next h := h.next_eq
  -- the records that a namespace shows depend on its layers as a whole
  records h := by
    funext ns
    unfold Store.records
    rcases Store.layerings_cases h.layerings ns with ⟨t, t', ht, ht', hlayering⟩ | ⟨ht, ht'⟩
    · rw [ht, ht']
      exact congrArg some (Table.get?_of_layering hlayering)
    · rw [ht, ht']
  tallies _ _ _ h ns range := Store.recentTally_of_layerings h.layerings h.options ns range
  weights _ _ _ h ns range := Store.olderSize_of_layerings h.layerings h.options ns range
  -- the omitted transaction may hold iterators of its own, so these are not compared
  openIterators := nofun
  drawn {e e'} h call := by
    rw [Engine.drawn_of_healthy e call h.healthy, Engine.drawn_of_healthy e' call h.healthy']
    exact h
  healed h := h.healed
  created h ns := h.rearranged (Store.alike_createNamespace _ ns) (Store.alike_createNamespace _ ns)
    (Store.layerings_createNamespace h.layerings ns)
  flushed h _ _ _ hflush hflush' := h.rearranged (Store.alike_flush hflush) (Store.alike_flush hflush')
    (Store.layerings_flush h.layerings hflush hflush')
  flushedAll h := h.rearranged (Store.alike_flushAll _) (Store.alike_flushAll _)
    (Store.layerings_flushAll h.layerings)
  begun h := h.begun
  keeping h _ _ _ _ _ hwritten := h.keeping hwritten
  iterating h := h.rearranged (.of_tables_eq rfl rfl rfl rfl) (.of_tables_eq rfl rfl rfl rfl) h.layerings
  released h := h.rearranged (.of_tables_eq rfl rfl rfl rfl) (.of_tables_eq rfl rfl rfl rfl) h.layerings
  committed h _ _ hheld := h.committed (Engine.held_eq_ok_iff.1 hheld)
  rolledBack h _ _ hheld := h.rolledBack (Engine.held_eq_ok_iff.1 hheld)
  discarded h id := h.discard id
  aside hextra _ _ _ h haside := by
    cases hextra
    exact h.aside haside

end SecondaryIndex
