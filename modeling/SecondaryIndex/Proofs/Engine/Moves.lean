import SecondaryIndex.Proofs.Engine.Ledger
import SecondaryIndex.Proofs.Store.Alike
import SecondaryIndex.Proofs.Ledger.Trace

/-!
# The moves of an engine

The callers of a store create namespaces, flush, begin transactions, read and write through them,
open and release iterators, ask for statistics, and end transactions. A `StoreCall` is one such
call, and `Engine.perform` carries it out with the programs of an engine.

Whatever the call and whatever faults are to come, an engine changes in one of seven ways.
`Engine.Moves` lists them, each with the guard under which it is taken and with the event that it is
for the ledger (`none` where no transaction noticed). `Engine.moves_perform` opens the programs once
and for all: the answer tells the event (`StoreCall.event?`), and the engine has moved by it.
Invariants of engines are then shown move by move, and no proof about them looks at a program again.
The first of them is `Moves.ledger_eq`, that the ledger of an engine follows the events.
-/

namespace SecondaryIndex

/-- A call on a store and its transactions. -/
inductive StoreCall
  | createNamespace (ns : Namespace)
  | flush (ns : Namespace)
  | flushAll
  | recentTally (ns : Namespace) (range : Range)
  | olderSize (ns : Namespace) (range : Range)
  | begin
  | get (id : TransactionId) (ns : Namespace) (key : Bytes)
  | put (id : TransactionId) (ns : Namespace) (key value : Bytes)
  | delete (id : TransactionId) (ns : Namespace) (key : Bytes)
  | iterator (id : TransactionId) (ns : Namespace) (range : Range)
  | releaseIterator
  | commit (id : TransactionId)
  | rollback (id : TransactionId)
  | drop (id : TransactionId)

/-- What a call on a store answers; `done` stands for success and nothing beyond. -/
inductive StoreAnswer
  | done
  | begun (id : TransactionId)
  | record (value? : Option Bytes)
  | iterator (it : RawIterator)
  | tally (tally : Tally)
  | size (size : UInt64)

/-- What a call did to the transactions, as its answer tells. A commit that conflicts, or that finds
a namespace missing, ends its transaction; one that fails on its own account does not. -/
def StoreCall.event? : StoreCall → Except EngineError StoreAnswer → Option (LedgerEvent Place Bytes)
  | .begin, .ok (.begun id) => some (.opens id)
  | .put id ns key value, .ok _ => some (.writes id (ns, key) (some value))
  | .delete id ns key, .ok _ => some (.writes id (ns, key) none)
  | .commit id, .ok _ => some (.commits id)
  | .commit id, .error (.conflict _) => some (.ends id)
  | .commit id, .error (.namespaceNotFound _) => some (.ends id)
  | .rollback id, .ok _ => some (.ends id)
  | .drop id, _ => some (.ends id)
  | _, _ => none

namespace Engine

/-- Carries out a call. -/
def perform : StoreCall → EngineM StoreAnswer
  | .createNamespace ns => do
    modifyStore fun store => store.createNamespace ns
    pure .done
  | .flush ns => do
    let store ← ask fun store => store.flush ns
    modifyStore fun _ => store
    pure .done
  | .flushAll => do
    modifyStore Store.flushAll
    pure .done
  | .recentTally ns range => .tally <$> recentTally ns range
  | .olderSize ns range => .size <$> olderSize ns range
  | .begin => .begun <$> begin
  | .get id ns key => .record <$> lookup id ns key
  | .put id ns key value => (fun _ => .done) <$> put id ns key value
  | .delete id ns key => (fun _ => .done) <$> delete id ns key
  | .iterator id ns range => .iterator <$> openIterator id ns range
  | .releaseIterator => do
    modifyThe Engine releaseIterator
    pure .done
  | .commit id => (fun _ => .done) <$> commit id
  | .rollback id => (fun _ => .done) <$> rollback id
  | .drop id => do
    modifyThe Engine fun engine => engine.discard id
    pure .done

/-! ### The moves -/

open Program

variable {e e' : Engine} {id : TransactionId} {ns : Namespace} {key : Bytes} {slot : Slot}
  {tx tx' : Transaction}

/-- The engine after an open transaction was finished, its writes forgotten. -/
def closed (e : Engine) (id : TransactionId) (tx : Transaction) : Engine :=
  { e with store := e.store.leave tx.start, transactions := e.transactions.insert id tx.close }

/-- How an engine can change, with what that means for its ledger. Of the faults to come every move
keeps only that there are none, since drawing the fate of a call is never seen by a transaction. -/
inductive Moves (e : Engine) : Option (LedgerEvent Place Bytes) → Engine → Prop
  /-- Nothing happened that a transaction can tell. -/
  | rearranges {store : Store} {faults : FaultPlan}
    (healthy : e.faults = .healthy → faults = .healthy) (alike : e.store.Alike store) :
    Moves e none { e with store, faults }
  | begins {faults : FaultPlan} (healthy : e.faults = .healthy → faults = .healthy) :
    Moves e (some (.opens e.nextTransaction)) { e.begun with faults }
  | writes {id : TransactionId} {ns : Namespace} {key : Bytes} {slot : Slot} {tx : Transaction}
    {faults : FaultPlan} (healthy : e.faults = .healthy → faults = .healthy)
    (written : e.writtenTo id ns key slot = .ok tx) :
    Moves e (some (.writes id (ns, key) slot)) { e.keeping id tx with faults }
  /-- A transaction without writes was committed, which is not a commit of the store. -/
  | commitsNothing {id : TransactionId} {tx : Transaction} {faults : FaultPlan}
    (healthy : e.faults = .healthy → faults = .healthy)
    (hopen : e.HasOpen id tx) (nothing : tx.changes = .nothing) :
    Moves e (some (.commits id)) { e.closed id tx with faults }
  /-- The writes of a transaction were applied, and it was closed. -/
  | commits {id : TransactionId} {tx : Transaction} {store : Store} {faults : FaultPlan}
    (healthy : e.faults = .healthy → faults = .healthy)
    (hopen : e.HasOpen id tx) (something : tx.changes ≠ .nothing)
    (applied : e.store.apply tx.start tx.writes = .ok store) :
    Moves e (some (.commits id)) { ({ e with store } : Engine).closed id tx with faults }
  /-- A transaction was rolled back, or its commit was refused by the store. -/
  | closes {id : TransactionId} {tx : Transaction} {faults : FaultPlan}
    (healthy : e.faults = .healthy → faults = .healthy)
    (hopen : e.HasOpen id tx) :
    Moves e (some (.ends id)) { e.closed id tx with faults }
  /-- A transaction was given up. -/
  | drops (id : TransactionId) : Moves e (some (.ends id)) (e.discard id)

/-- Keeping the transaction that is there anyway changes nothing. -/
theorem keeping_of_get? (h : e.transactions.get? id = some tx) : e.keeping id tx = e := by
  have hsame : e.transactions.insert id tx = e.transactions := by
    refine SortedMap.ext_get? fun j => ?_
    rw [SortedMap.get?_insert]
    split
    · next heq => rw [← heq, h]
    · rfl
  rw [keeping, hsame]

/-- Drawing the fate of a call that is healthy leaves it healthy. -/
theorem faults_drawn (e : Engine) (call : EngineCall) (h : e.faults = .healthy) :
    (e.drawn call).faults = .healthy := by
  rw [drawn_of_healthy e call h, h]

namespace Moves

/-- An engine that only drew the fate of a call has not moved. -/
theorem drew (e : Engine) (call : EngineCall) : Moves e none (e.drawn call) :=
  .rearranges (faults_drawn e call) (.refl e.store)

theorem keeps (hget : e.transactions.get? id = some tx) (call : EngineCall) :
    Moves e none ((e.drawn call).keeping id tx) := by
  have hkeep : (e.drawn call).keeping id tx = e.drawn call := keeping_of_get? hget
  rw [hkeep]
  exact drew e call

end Moves

/-- How a commit goes: it is refused, it has nothing to commit, it is applied, or it is not accepted
by the store. -/
theorem commit_cases (tx : Transaction) (store : Store) :
    (tx.finished = true ∧ tx.commit store = (.error .transactionClosed, tx, store)) ∨
    (tx.finished = false ∧ tx.changes = .nothing ∧
      tx.commit store = (.ok (), tx.close, store.leave tx.start)) ∨
    (tx.finished = false ∧ tx.changes ≠ .nothing ∧
      ∃ store', store.apply tx.start tx.writes = .ok store' ∧
        tx.commit store = (.ok (), tx.close, store'.leave tx.start)) ∨
    (tx.finished = false ∧ tx.changes ≠ .nothing ∧
      ∃ err, store.apply tx.start tx.writes = .error err ∧
        tx.commit store = (.error err, tx.close, store.leave tx.start)) := by
  unfold Transaction.commit
  cases hf : tx.finished with
  | true => simp
  | false =>
    by_cases hp : tx.pending = 0
    · have hc := Transaction.pending_eq_zero_iff.1 hp
      simp [hp, hc]
    · have hc : tx.changes ≠ .nothing := fun h => hp (Transaction.pending_eq_zero_iff.2 h)
      cases ha : store.apply tx.start tx.writes <;> simp [hp, hc]

theorem moves_commit (e : Engine) (id : TransactionId) :
    Moves e ((StoreCall.commit id).event? ((perform (.commit id)).run e).1)
      ((perform (.commit id)).run e).2 := by
  simp only [perform, run_map, run_commit]
  cases e.fails .commit with
  | true => exact .drew e .commit
  | false =>
    simp only [Bool.false_eq_true, if_false]
    cases hheld : e.held id with
    | error err =>
      rw [held_eq_error hheld]
      exact .drew e .commit
    | ok tx =>
      have hget := held_eq_ok_iff.1 hheld
      simp only [ended, drawn_store]
      rcases commit_cases tx e.store with ⟨hfin, hc⟩ | ⟨hfin, hch, hc⟩ |
        ⟨hfin, hch, store', happly, hc⟩ | ⟨hfin, hch, err, happly, hc⟩ <;> rw [hc]
      · exact .keeps hget .commit
      -- without writes nothing is applied, but the transaction counts as committed
      · exact .commitsNothing (faults_drawn e .commit) ⟨hget, hfin⟩ hch
      · exact .commits (faults_drawn e .commit) ⟨hget, hfin⟩ hch happly
      -- a refusal ends the transaction, whichever of the two it is
      · obtain ⟨ns, batch, -, haccept⟩ := Store.exists_of_apply_eq_error happly
        rcases Store.accept_eq_error haccept with ⟨-, rfl⟩ | ⟨-, -, -, rfl⟩
        · exact .closes (faults_drawn e .commit) ⟨hget, hfin⟩
        · exact .closes (faults_drawn e .commit) ⟨hget, hfin⟩

theorem moves_rollback (e : Engine) (id : TransactionId) :
    Moves e ((StoreCall.rollback id).event? ((perform (.rollback id)).run e).1)
      ((perform (.rollback id)).run e).2 := by
  simp only [perform, run_map, run_rollback]
  cases e.fails .rollback with
  | true => exact .drew e .rollback
  | false =>
    simp only [Bool.false_eq_true, if_false]
    cases hheld : e.held id with
    | error err => exact .drew e .rollback
    | ok tx =>
      have hget := held_eq_ok_iff.1 hheld
      simp only [ended, drawn_store, Transaction.rollback]
      cases hfin : tx.finished with
      | true => exact .keeps hget .rollback
      | false => exact .closes (faults_drawn e .rollback) ⟨hget, hfin⟩

/-- A write, whichever of the two calls makes it, does not do more than buffer the write. -/
theorem moves_of_write (call : EngineCall) {program : EngineM StoreAnswer}
    {event? : Except EngineError StoreAnswer → Option (LedgerEvent Place Bytes)}
    (hrun : program.run e =
      if e.fails call then (.error (.injected call), e.drawn call)
      else match e.writtenTo id ns key slot with
        | .ok tx => (.ok .done, (e.drawn call).keeping id tx)
        | .error err => (.error err, e.drawn call))
    (hok : event? (.ok .done) = some (.writes id (ns, key) slot))
    (herror : ∀ err, event? (.error err) = none) :
    Moves e (event? (program.run e).1) (program.run e).2 := by
  rw [hrun]
  cases e.fails call with
  | true =>
    rw [if_pos rfl, herror]
    exact .drew e call
  | false =>
    rw [if_neg Bool.false_ne_true]
    cases hw : e.writtenTo id ns key slot with
    | error err =>
      rw [herror]
      exact .drew e call
    | ok tx =>
      rw [hok]
      exact .writes (faults_drawn e call) hw

/-- Whatever is called and however it goes, the engine makes the move that the answer tells. -/
theorem moves_perform (e : Engine) (call : StoreCall) :
    Moves e (call.event? ((perform call).run e).1) ((perform call).run e).2 := by
  cases call with
  | createNamespace ns => exact .rearranges id (Store.alike_createNamespace e.store ns)
  | flush ns =>
    simp only [perform, run_bind, run_ask]
    cases h : e.store.flush ns with
    | error err => exact .rearranges id (.refl e.store)
    | ok store => exact .rearranges id (Store.alike_flush h)
  | flushAll => exact .rearranges id (Store.alike_flushAll e.store)
  -- a call that only reads draws its fate and does nothing else, whatever it answers
  | recentTally ns range =>
    simp only [perform, run_map, run_recentTally]
    split <;> exact .drew e .recentTally
  | olderSize ns range =>
    simp only [perform, run_map, run_olderSize]
    split <;> exact .drew e .olderSize
  | begin =>
    simp only [perform, run_map, run_begin]
    cases e.fails .begin with
    | true => exact .drew e .begin
    | false => exact .begins (faults_drawn e .begin)
  | get id ns key =>
    simp only [perform, run_map, run_lookup]
    split <;> exact .drew e .get
  -- the two writes are one move; here it is only said which write each of them is
  | put id ns key value =>
    refine moves_of_write .put ?_ rfl fun err => rfl
    simp only [perform, run_map, run_put]
    split
    · rfl
    · cases e.writtenTo id ns key (some value) <;> rfl
  | delete id ns key =>
    refine moves_of_write .delete ?_ rfl fun err => rfl
    simp only [perform, run_map, run_delete]
    split
    · rfl
    · cases e.writtenTo id ns key none <;> rfl
  | iterator id ns range =>
    simp only [perform, run_map, run_openIterator]
    cases e.fails .iterator with
    | true => exact .drew e .iterator
    | false =>
      simp only [Bool.false_eq_true, if_false]
      cases e.keysOf id ns range with
      | error err => exact .drew e .iterator
      | ok keys => exact .rearranges (faults_drawn e .iterator) (.of_tables_eq rfl rfl rfl rfl)
  | releaseIterator => exact .rearranges id (.of_tables_eq rfl rfl rfl rfl)
  | commit id => exact moves_commit e id
  | rollback id => exact moves_rollback e id
  | drop id => exact .drops id

/-! ### The ledger follows the events -/

theorem ledger_closed : (e.closed id tx).ledger = e.ledger.close id := by
  refine Ledger.ext rfl (funext fun j => ?_)
  show (e.keeping id tx.close).ledger.pending j = _
  rw [ledger_keeping_pending, Ledger.close_pending]
  rfl

theorem ledger_discard (e : Engine) (id : TransactionId) :
    (e.discard id).ledger = e.ledger.close id := by
  unfold discard
  cases hget : e.transactions.get? id with
  | none =>
    have hp : e.ledger.pending id = none := by rw [ledger_pending, hget]; rfl
    exact (Ledger.close_of_pending_eq_none _ _ hp).symm
  | some tx =>
    refine Ledger.ext ?_ (funext fun j => ?_)
    · show (tx.abandon e.store).read = e.store.read
      unfold Transaction.abandon
      split <;> rfl
    · rw [Ledger.close_pending, ledger_pending, ledger_pending]
      simp only [SortedMap.get?_erase]
      split <;> rfl

/-- An open transaction sees its writes over the committed records. -/
theorem HasOpen.view (h : e.HasOpen id tx) :
    e.ledger.view (some id) = tx.changes.applyTo e.store.read := by
  simp [Ledger.view, h.pending]

/-- Each move of an engine is the event of its ledger. -/
theorem Moves.ledger_eq {event? : Option (LedgerEvent Place Bytes)} (h : Moves e event? e') :
    e'.ledger = e.ledger.after? event? := by
  cases h with
  | rearranges healthy alike => exact Ledger.ext alike.read_eq rfl
  | begins healthy => exact ledger_begun
  | writes healthy written => exact ledger_keeping written
  | @commitsNothing id tx faults healthy hopen nothing =>
    refine ledger_closed.trans (Ledger.ext ?_ rfl)
    -- the store is left as it is, which is what its own writes would make of it
    show e.store.read = e.ledger.view (some id)
    rw [hopen.view, nothing, Changes.nothing_applyTo]
  | @commits id tx store faults healthy hopen something applied =>
    refine ledger_closed.trans (Ledger.ext ?_ rfl)
    -- the store is not asked for what the transaction saw; applying its writes comes to the same
    show store.read = e.ledger.view (some id)
    rw [hopen.view, Store.read_apply applied]
    rfl
  | closes healthy hopen => exact ledger_closed (e := e)
  | drops id => exact ledger_discard e id

end Engine

end SecondaryIndex
