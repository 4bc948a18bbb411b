import SecondaryIndex.Proofs.Index.Effects
import SecondaryIndex.Proofs.Index.Rejects

/-!
# Pairs that are added by themselves

Adding a pair does not ask whether the pair is there. Without an ambient transaction one is begun, writes a
record at every place of the pair, and is committed. Here is shown what database this leaves, to the last
field (`AnyIndex.run_add`): one number is used up, the writes are installed as the next commit, and the
addition is counted. The registry of open transactions is as before, but while the writes were installed the
transaction was in it, which is why they are installed in `Store.enter`.

What a transaction has buffered is followed from its begin on (`Engine.Buffers`).
-/

namespace SecondaryIndex

variable {K V α : Type}

/-- What is installed does not touch the registry, so who leaves it afterwards has not been there. -/
theorem Store.leave_install_enter {store : Store} (h : store.Tidy) (writes : WriteSet) :
    (store.enter.install writes).leave store.lastCommit =
      { store.enter.install writes with active := store.active } := by
  have hactive : (store.enter.leave store.lastCommit).active = store.active :=
    congrArg Store.active (Store.leave_enter h)
  exact congrArg (fun active => { store.enter.install writes with active }) hactive

namespace Engine

variable {e : Engine} {tx tx' : Transaction} {ns : Namespace}

/-- The engine after one more transaction, which was begun for some writes and has committed them. -/
def recorded (e : Engine) (writes : WriteSet) : Engine :=
  { e.numbered (e.nextTransaction + 1) with
    store := { e.store.enter.install writes with active := e.store.active } }

/-- Of a transaction that is put back twice, the second state stays. -/
theorem keeping_keeping (e : Engine) (id : TransactionId) (tx tx' : Transaction) :
    (e.keeping id tx).keeping id tx' = e.keeping id tx' := by
  have hsame : (e.transactions.insert id tx).insert id tx' = e.transactions.insert id tx' := by
    refine SortedMap.ext_get? fun j => ?_
    rw [SortedMap.get?_insert, SortedMap.get?_insert, SortedMap.get?_insert]
    split <;> rfl
  exact congrArg (fun transactions => { e with transactions }) hsame

/-- A transaction was begun, and has buffered something since. -/
structure Buffers (e : Engine) (tx : Transaction) : Prop where
  start : tx.start = e.store.lastCommit
  finished : tx.finished = false
  sound : (e.begun.keeping e.nextTransaction tx).Sound

/-- The transaction that was just begun. -/
theorem keeping_begun (e : Engine) :
    e.begun.keeping e.nextTransaction { start := e.store.lastCommit } = e.begun := by
  refine keeping_of_get? ?_
  show (e.transactions.insert e.nextTransaction _).get? e.nextTransaction = _
  rw [SortedMap.get?_insert, if_pos rfl]

theorem buffers_begun (hsound : e.Sound) : e.Buffers { start := e.store.lastCommit } := by
  refine ⟨rfl, rfl, ?_⟩
  rw [keeping_begun]
  exact hsound.begun

namespace Buffers

variable (h : e.Buffers tx)

include h

theorem hasOpen : (e.begun.keeping e.nextTransaction tx).HasOpen e.nextTransaction tx :=
  hasOpen_keeping.2 (.inl ⟨rfl, rfl, h.finished⟩)

/-- One more record is buffered. -/
theorem run_put (hhealthy : e.faults = .healthy) (hns : e.store.hasNamespace ns = true) (key value : Bytes) :
    ∃ tx', e.Buffers tx' ∧ tx'.changes = (Changes.single (ns, key) (some value)).after tx.changes ∧
      (put e.nextTransaction ns key value).run (e.begun.keeping e.nextTransaction tx) =
        (.ok (), e.begun.keeping e.nextTransaction tx') := by
  obtain ⟨tx', hwritten⟩ := writtenTo_eq_of_open h.hasOpen.pending
    (show (e.begun.keeping e.nextTransaction tx).store.hasNamespace ns = true from hns) key (some value)
  have hsound' := h.sound.keeping hwritten
  rw [keeping_keeping] at hsound'
  obtain ⟨old, hopen, -, htx'⟩ := of_writtenTo hwritten
  -- it can only have been written to as it was
  obtain rfl : tx = old := Option.some.inj (h.hasOpen.1.symm.trans hopen.1)
  refine ⟨tx', ⟨?_, ?_, hsound'⟩, ?_, ?_⟩
  · rw [htx']
    exact h.start
  · rw [htx']
    exact h.finished
  · rw [htx', changes_insert]
  · have hhealthy' : (e.begun.keeping e.nextTransaction tx).faults = .healthy := hhealthy
    rw [Engine.run_put, fails_of_healthy _ _ hhealthy', drawn_of_healthy _ _ hhealthy', hwritten]
    exact congrArg (Prod.mk _) (keeping_keeping _ _ _ _)

/-- A transaction that has started from the last commit is committed. Once it is given up as well, only its
writes and its number are left of it. -/
theorem discard_commit (hsound : e.Sound) (hhealthy : e.faults = .healthy)
    (hsomething : tx.changes ≠ .nothing) :
    ((commit e.nextTransaction).run (e.begun.keeping e.nextTransaction tx)).1 = .ok () ∧
      ((commit e.nextTransaction).run (e.begun.keeping e.nextTransaction tx)).2.discard e.nextTransaction =
        e.recorded tx.writes := by
  have hhealthy' : (e.begun.keeping e.nextTransaction tx).faults = .healthy := hhealthy
  have hcommit : tx.commit e.store.enter =
      (.ok (), tx.close, { e.store.enter.install tx.writes with active := e.store.active }) := by
    rcases h.sound.commit_cases h.hasOpen with ⟨hnothing, -⟩ | ⟨-, -, hc⟩ | ⟨-, hblocked, -⟩
    · exact absurd hnothing hsomething
    · rw [← Store.leave_install_enter hsound.tidy, ← h.start]
      exact hc
    · exact absurd hblocked (h.sound.not_blocked_of_start_eq h.start)
  have hrun : (commit e.nextTransaction).run (e.begun.keeping e.nextTransaction tx) =
      (.ok (), { e.begun.keeping e.nextTransaction tx.close with
        store := { e.store.enter.install tx.writes with active := e.store.active } }) := by
    rw [run_commit, fails_of_healthy _ _ hhealthy', drawn_of_healthy _ _ hhealthy', h.hasOpen.held]
    show ((tx.commit e.store.enter).1,
      (e.begun.keeping e.nextTransaction tx).ended e.nextTransaction tx Transaction.commit) = _
    unfold ended
    rw [keeping_keeping]
    show ((tx.commit e.store.enter).1,
      { e.begun.keeping e.nextTransaction (tx.commit e.store.enter).2.1 with
        store := (tx.commit e.store.enter).2.2 }) = _
    rw [hcommit]
  rw [hrun]
  exact ⟨rfl, discard_keeping_begun hsound rfl _⟩

end Buffers

end Engine

namespace IndexM

open Program

/-- An operation that auto-commits, and that does nothing but to buffer some writes. -/
theorem within_of_buffers {db : Database} {operation : TransactionId → IndexM α} {a : α} {tx : Transaction}
    (hsound : db.engine.Sound) (hhealthy : db.engine.faults = .healthy) (hbuffers : db.engine.Buffers tx)
    (hsomething : tx.changes ≠ .nothing)
    (h : (operation db.engine.nextTransaction).run { db with engine := db.engine.begun } =
      (.ok a, { db with engine := db.engine.begun.keeping db.engine.nextTransaction tx })) :
    (within none operation).run db = (.ok a, { db with engine := db.engine.recorded tx.writes }) := by
  have hbegin : (ofEngine Engine.begin).run db =
      (.ok db.engine.nextTransaction, { db with engine := db.engine.begun }) := by
    refine run_ofEngine_ok ?_
    rw [Engine.run_begin, Engine.fails_of_healthy _ _ hhealthy, Engine.drawn_of_healthy _ _ hhealthy]
    rfl
  obtain ⟨hok, hrecorded⟩ := hbuffers.discard_commit hsound hhealthy hsomething
  unfold within
  rw [run_transactionally_none operation _ hbegin, h, run_settle_ok hok]
  exact congrArg (fun e => (Except.ok a, { db with engine := e })) hrecorded

end IndexM

namespace Index

open Program IndexM

/-- An entry is buffered. -/
theorem insertWithin_buffers {index : Index K V} {db : Database} {tx : Transaction} {key : K} {value : V}
    {p : Bytes} (h : db.engine.Buffers tx) (hhealthy : db.engine.faults = .healthy)
    (hns : db.engine.store.hasNamespace index.ns = true) (hp : index.codec.encode key value = .ok p) :
    ∃ tx', db.engine.Buffers tx' ∧
      tx'.changes = (Changes.placing (index.StoredAt key value)).after tx.changes ∧
      (index.insertWithin db.engine.nextTransaction key value).run
          { db with engine := db.engine.begun.keeping db.engine.nextTransaction tx } =
        (.ok (), { db with engine := db.engine.begun.keeping db.engine.nextTransaction tx' }) := by
  obtain ⟨tx', hbuffers, hchanges, hput⟩ := h.run_put hhealthy hns p emptyValue
  refine ⟨tx', hbuffers, ?_, ?_⟩
  · rw [hchanges, placing_storedAt hp]
  · have hencoded := run_ofEncoding (.ok p : Except EncodingError Bytes)
      { db with engine := db.engine.begun.keeping db.engine.nextTransaction tx }
    have hwritten : (ofEngine (Engine.put db.engine.nextTransaction index.ns p emptyValue)).run
        { db with engine := db.engine.begun.keeping db.engine.nextTransaction tx } =
          (.ok (), { db with engine := db.engine.begun.keeping db.engine.nextTransaction tx' }) :=
      run_ofEngine_ok hput
    unfold insertWithin
    rw [hp, run_bind_ok hencoded]
    exact hwritten

end Index

namespace AnyIndex

open Program IndexM

variable {index : AnyIndex K V} {db : Database} {key : K} {value : V}

/-- A pair that is short enough has a place. -/
theorem Encodes.exists_storedAt (h : index.Encodes key value) : ∃ x, index.StoredAt key value x := by
  cases index with
  | oneWay index =>
    obtain ⟨p, hp⟩ := h
    exact ⟨(index.ns, p), rfl, hp⟩
  | twoWay index =>
    obtain ⟨⟨p, hp⟩, -⟩ := h
    exact ⟨(index.forward.ns, p), .inl ⟨rfl, hp⟩⟩

/-- Adding a pair by itself records it at every place of the pair, whether or not it was there, and leaves
nothing else behind but the number of a transaction and a count. -/
theorem run_add (hsound : db.engine.Sound) (hready : db.engine.Ready index.namespaces)
    (hencodes : index.Encodes key value) :
    ∃ writes, WriteSet.changes writes = .placing (index.StoredAt key value) ∧
      (index.add none key value).run db =
        (.ok (), ({ db with engine := db.engine.recorded writes } : Database).observe
          index.forward.options.metrics Counters.countAdded) := by
  obtain ⟨x, hx⟩ := hencodes.exists_storedAt
  -- a batch that is not empty is what makes the commit take a number
  have hsomething : Changes.placing (index.StoredAt key value) ≠ .nothing := by
    intro hnothing
    have hplaced : Changes.placing (index.StoredAt key value) x = some (some Index.emptyValue) := if_pos hx
    rw [hnothing] at hplaced
    cases hplaced
  have hbegun := Engine.buffers_begun hsound
  have hbare : Transaction.changes { start := db.engine.store.lastCommit } = .nothing := rfl
  cases index with
  | oneWay index =>
    obtain ⟨p, hp⟩ := hencodes
    obtain ⟨tx, hbuffers, hchanges, hrun⟩ := Index.insertWithin_buffers hbegun hready.healthy
      (hready.hasNamespace _ List.mem_cons_self) hp
    rw [Engine.keeping_begun] at hrun
    rw [hbare, Changes.after_nothing] at hchanges
    refine ⟨tx.writes, hchanges, ?_⟩
    exact run_bind_ok (within_of_buffers hsound hready.healthy hbuffers (hchanges ▸ hsomething) hrun)
  | twoWay index =>
    obtain ⟨⟨p, hp⟩, q, hq⟩ := hencodes
    obtain ⟨tx, hbuffers, hchanges, hrun⟩ := Index.insertWithin_buffers hbegun hready.healthy
      (hready.hasNamespace _ List.mem_cons_self) hp
    rw [Engine.keeping_begun] at hrun
    rw [hbare, Changes.after_nothing] at hchanges
    obtain ⟨tx', hbuffers', hchanges', hrun'⟩ := Index.insertWithin_buffers hbuffers hready.healthy
      (hready.hasNamespace _ (List.mem_cons_of_mem _ List.mem_cons_self)) hq
    rw [hchanges, Changes.placing_after] at hchanges'
    refine ⟨tx'.writes, hchanges', ?_⟩
    exact run_bind_ok (within_of_buffers hsound hready.healthy hbuffers' (hchanges' ▸ hsomething)
      ((run_bind_ok hrun).trans hrun'))

end AnyIndex

end SecondaryIndex
