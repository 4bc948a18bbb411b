import SecondaryIndex.Proofs.Program
import SecondaryIndex.Proofs.Store.Read

/-!
# What each engine call does

One equation for each call of an engine, for any faults to come: a call that draws a failure reports
it and has done nothing but draw (`Engine.drawn`); any other call has the outcome of the store and
the transaction it is sent to, which are `Engine.recordOf`, `Engine.keysOf` and so on. A healthy
engine draws no failure and stays as it is when it does draw.
-/

namespace SecondaryIndex

namespace Engine

open Program

variable (e : Engine) (id : TransactionId) (ns : Namespace) (key : Bytes) (slot : Slot)
  (range : Range) (call : EngineCall)

/-- Whether the next call of a kind fails on its own account. -/
def fails : Bool := (e.faults.draw call).1

/-- The engine after it drew the fate of a call. -/
def drawn : Engine := { e with faults := (e.faults.draw call).2 }

/-- The transaction under a number, if there is one. -/
def held : Except EngineError Transaction :=
  match e.transactions.get? id with
  | some tx => .ok tx
  | none => .error .transactionClosed

/-- What a transaction reads under a key. -/
def recordOf : Except EngineError (Option Bytes) := do (← e.held id).get e.store ns key

/-- A transaction after a write. -/
def writtenTo : Except EngineError Transaction := do (← e.held id).write e.store ns key slot

/-- The keys that a transaction sees in a range. -/
def keysOf : Except EngineError (List Bytes) := do
  let view ← (← e.held id).view e.store ns range
  pure view.keys

/-- The engine with a transaction put under a number. -/
def keeping (tx : Transaction) : Engine := { e with transactions := e.transactions.insert id tx }

@[simp] theorem drawn_store : (e.drawn call).store = e.store := rfl

@[simp] theorem drawn_held : (e.drawn call).held id = e.held id := rfl

@[simp] theorem keeping_store (tx : Transaction) : (e.keeping id tx).store = e.store := rfl

/-- Without faults no call fails on its own account. -/
theorem fails_of_healthy (h : e.faults = .healthy) : e.fails call = false := by
  rw [fails, h, FaultPlan.draw_healthy]

/-- Without faults drawing a fate changes nothing. -/
theorem drawn_of_healthy (h : e.faults = .healthy) : e.drawn call = e := by
  rw [drawn, h, FaultPlan.draw_healthy, ← h]

/-! ### The building blocks -/

/-- Every call of the engine first draws its fate. -/
theorem run_invoke :
    (invoke call).run e =
      (if e.fails call then .error (.injected call) else .ok ⟨⟩, e.drawn call) := by
  unfold invoke
  -- the fate is drawn and the rest of the plan put back before it is told
  rw [run_bind_ok (run_get e)]
  show ((set (e.drawn call) >>= fun _ => _ : EngineM Unit)).run e = _
  rw [run_bind_ok (run_set _ _)]
  show (if e.fails call = true then throw (.injected call) else pure ⟨⟩ : EngineM Unit).run _ = _
  split <;> rfl

/-- A call that draws a failure does nothing else. -/
theorem run_guarded {α : Type} (rest : EngineM α) :
    (invoke call >>= fun _ => rest).run e =
      if e.fails call then (.error (.injected call), e.drawn call) else rest.run (e.drawn call) := by
  cases hf : e.fails call with
  | true =>
    have hi : (invoke call).run e = (.error (.injected call), e.drawn call) := by
      rw [run_invoke, hf]
      rfl
    rw [run_bind_error hi]
    rfl
  | false =>
    have hi : (invoke call).run e = (.ok ⟨⟩, e.drawn call) := by
      rw [run_invoke, hf]
      rfl
    rw [run_bind_ok hi]
    rfl

theorem run_ask {α : Type} (query : Store → Except EngineError α) :
    (ask query).run e = (query e.store, e) := rfl

theorem run_transaction : (transaction id).run e = (e.held id, e) := by
  unfold transaction held
  rw [run_bind_ok (run_get e)]
  cases e.transactions.get? id <;> rfl

/-- A write replaces the transaction by the one that has written, or is refused and changes nothing. -/
theorem run_write :
    (Engine.write id ns key slot).run e =
      match e.writtenTo id ns key slot with
      | .ok tx => (.ok ⟨⟩, e.keeping id tx)
      | .error err => (.error err, e) := by
  unfold Engine.write writtenTo
  rw [run_bind, run_transaction]
  cases e.held id with
  | error err => rfl
  | ok tx =>
    show (ask (fun store => tx.write store ns key slot) >>= keep id).run e =
      match tx.write e.store ns key slot with
      | .ok tx => (.ok ⟨⟩, e.keeping id tx)
      | .error err => (.error err, e)
    rw [run_bind, run_ask]
    cases tx.write e.store ns key slot <;> rfl

/-- What ends a transaction changes the transaction and the store, also where it fails. -/
theorem run_finish (ending : Transaction → Store → Except EngineError Unit × Transaction × Store) :
    (finish id ending).run e =
      match e.held id with
      | .ok tx =>
        ((ending tx e.store).1,
          { e.keeping id (ending tx e.store).2.1 with store := (ending tx e.store).2.2 })
      | .error err => (.error err, e) := by
  unfold finish
  rw [run_bind, run_transaction]
  cases e.held id with
  | error err => rfl
  | ok tx =>
    show ((getThe Engine >>= fun engine => _ : EngineM Unit)).run e = _
    rw [run_bind_ok (run_get e)]
    rfl

theorem run_visibleKeys : (visibleKeys id ns range).run e = (e.keysOf id ns range, e) := by
  unfold visibleKeys keysOf
  rw [run_bind, run_transaction]
  cases e.held id with
  | error err => rfl
  | ok tx =>
    show ((ask fun store => tx.view store ns range) >>= fun view => pure view.keys).run e =
      (tx.view e.store ns range >>= fun view => pure view.keys, e)
    rw [run_bind, run_ask]
    cases tx.view e.store ns range <;> rfl

/-! ### The calls -/

/-- The engine after a transaction was begun. -/
def begun : Engine :=
  { e with
    store := e.store.enter
    transactions := e.transactions.insert e.nextTransaction { start := e.store.lastCommit }
    nextTransaction := e.nextTransaction + 1 }

/-- A transaction begun goes by the next number. -/
theorem run_begin :
    begin.run e =
      if e.fails .begin then (.error (.injected .begin), e.drawn .begin)
      else (.ok e.nextTransaction, (e.drawn .begin).begun) := by
  unfold begin
  rw [run_guarded]
  rfl

/-- What a read comes to, once its fate was drawn. -/
theorem run_lookup :
    (lookup id ns key).run e =
      if e.fails .get then (.error (.injected .get), e.drawn .get)
      else (e.recordOf id ns key, e.drawn .get) := by
  unfold lookup
  rw [run_guarded, run_bind, run_transaction, drawn_held]
  unfold recordOf
  cases e.held id <;> rfl

/-- What a buffered write comes to, once its fate was drawn. -/
theorem run_put (value : Bytes) :
    (put id ns key value).run e =
      if e.fails .put then (.error (.injected .put), e.drawn .put)
      else match e.writtenTo id ns key (some value) with
        | .ok tx => (.ok ⟨⟩, (e.drawn .put).keeping id tx)
        | .error err => (.error err, e.drawn .put) := by
  unfold put
  rw [run_guarded, run_write]
  rfl

/-- What a buffered deletion comes to, once its fate was drawn. -/
theorem run_delete :
    (delete id ns key).run e =
      if e.fails .delete then (.error (.injected .delete), e.drawn .delete)
      else match e.writtenTo id ns key none with
        | .ok tx => (.ok ⟨⟩, (e.drawn .delete).keeping id tx)
        | .error err => (.error err, e.drawn .delete) := by
  unfold delete
  rw [run_guarded, run_write]
  rfl

/-- The engine after a transaction was ended in the way of `ending`. -/
def ended (tx : Transaction)
    (ending : Transaction → Store → Except EngineError Unit × Transaction × Store) : Engine :=
  { e.keeping id (ending tx e.store).2.1 with store := (ending tx e.store).2.2 }

/-- A commit draws its fate before it looks for the transaction; a fault leaves the transaction open. -/
theorem run_commit :
    (commit id).run e =
      if e.fails .commit then (.error (.injected .commit), e.drawn .commit)
      else match e.held id with
        | .ok tx => ((tx.commit e.store).1, (e.drawn .commit).ended id tx Transaction.commit)
        | .error err => (.error err, e.drawn .commit) := by
  unfold commit
  rw [run_guarded, run_finish]
  rfl

/-- A rollback draws its fate before it looks for the transaction, as a commit does. -/
theorem run_rollback :
    (rollback id).run e =
      if e.fails .rollback then (.error (.injected .rollback), e.drawn .rollback)
      else match e.held id with
        | .ok tx => ((tx.rollback e.store).1, (e.drawn .rollback).ended id tx Transaction.rollback)
        | .error err => (.error err, e.drawn .rollback) := by
  unfold rollback
  rw [run_guarded, run_finish]
  rfl

/-- The engine with one more open iterator. -/
def iterating : Engine := { e with store := e.store.iteratorOpened }

/-- An iterator that is refused is not counted among the open ones. -/
theorem run_openIterator :
    (openIterator id ns range).run e =
      if e.fails .iterator then (.error (.injected .iterator), e.drawn .iterator)
      else match e.keysOf id ns range with
        | .ok keys => (.ok { keys }, (e.drawn .iterator).iterating)
        | .error err => (.error err, e.drawn .iterator) := by
  unfold openIterator
  rw [run_guarded, run_bind, run_visibleKeys]
  -- drawing a fate changes nothing that a transaction sees
  have hk : (e.drawn .iterator).keysOf id ns range = e.keysOf id ns range := rfl
  rw [hk]
  cases e.keysOf id ns range <;> rfl

/-- The status of an iterator is drawn, and nothing else decides it. -/
theorem run_status :
    status.run e =
      (if e.fails .status then .error (.injected .status) else .ok ⟨⟩, e.drawn .status) :=
  run_invoke e .status

/-- The size of the recent records fails on its own account, or as the store does. -/
theorem run_recentTally :
    (recentTally ns range).run e =
      if e.fails .recentTally then (.error (.injected .recentTally), e.drawn .recentTally)
      else (e.store.recentTally ns range, e.drawn .recentTally) := by
  unfold recentTally
  rw [run_guarded, run_ask]
  rfl

/-- The size of the older records fails on its own account, or as the store does. -/
theorem run_olderSize :
    (olderSize ns range).run e =
      if e.fails .olderSize then (.error (.injected .olderSize), e.drawn .olderSize)
      else (e.store.olderSize ns range, e.drawn .olderSize) := by
  unfold olderSize
  rw [run_guarded, run_ask]
  rfl

end Engine

end SecondaryIndex
