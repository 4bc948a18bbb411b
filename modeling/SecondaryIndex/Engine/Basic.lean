import SecondaryIndex.Engine.FaultPlan
import SecondaryIndex.Store.Iterator
import SecondaryIndex.Store.Transaction

/-!
# The storage engine

The engine is a store together with the transactions that are in somebody's hands, each under a
number of its own, and with the faults it is going to show. Its calls are the interface that an
index is built on. Every call that may fail on its own account first draws its fate; a call that
fails in this way does nothing else.
-/

namespace SecondaryIndex

/-- The number of a transaction. -/
abbrev TransactionId := Nat

/-- A store in use. -/
structure Engine where
  store : Store
  /-- The transactions that were begun and not yet given up, finished ones included. -/
  transactions : SortedMap TransactionId Transaction := ∅
  /-- The number of the next transaction. -/
  nextTransaction : TransactionId := 0
  faults : FaultPlan := .healthy

/-- Programs over an engine, which keep its state when they fail. -/
abbrev EngineM := ExceptT EngineError (StateM Engine)

namespace Engine

/-- A new engine without faults. -/
def ofOptions (options : StoreOptions) : Engine := { store := { options } }

/-- Draws the fate of a call. -/
def invoke (call : EngineCall) : EngineM Unit := do
  let engine ← getThe Engine
  let (fails, faults) := engine.faults.draw call
  set { engine with faults }
  if fails then throw (.injected call)

/-- Changes the store, which cannot fail. -/
def modifyStore (f : Store → Store) : EngineM Unit :=
  modifyThe Engine fun engine => { engine with store := f engine.store }

/-- Asks the store and leaves it as it is. -/
def ask {α : Type} (query : Store → Except EngineError α) : EngineM α := do
  ExceptT.mk (pure (query (← getThe Engine).store))

/-- The transaction under a number; one that was given up counts as finished. -/
def transaction (id : TransactionId) : EngineM Transaction := do
  match (← getThe Engine).transactions.get? id with
  | some tx => pure tx
  | none => throw .transactionClosed

/-- Keeps the new state of a transaction. -/
def keep (id : TransactionId) (tx : Transaction) : EngineM Unit :=
  modifyThe Engine fun engine => { engine with transactions := engine.transactions.insert id tx }

/-! ### Transactions -/

/-- Begins a transaction under the next number. -/
def begin : EngineM TransactionId := do
  invoke .begin
  -- the fate was drawn, so the state is read anew
  let engine ← getThe Engine
  let id := engine.nextTransaction
  set { engine with
    store := engine.store.enter
    transactions := engine.transactions.insert id { start := engine.store.lastCommit }
    nextTransaction := id + 1 }
  pure id

/-- Reads a key through a transaction. -/
def lookup (id : TransactionId) (ns : Namespace) (key : Bytes) : EngineM (Option Bytes) := do
  invoke .get
  let tx ← transaction id
  ask fun store => tx.get store ns key

/-- Buffers a write in a transaction. -/
def write (id : TransactionId) (ns : Namespace) (key : Bytes) (slot : Slot) : EngineM Unit := do
  let tx ← transaction id
  keep id (← ask fun store => tx.write store ns key slot)

/-- Buffers a write of a value. -/
def put (id : TransactionId) (ns : Namespace) (key value : Bytes) : EngineM Unit := do
  invoke .put
  write id ns key (some value)

/-- Buffers a deletion. -/
def delete (id : TransactionId) (ns : Namespace) (key : Bytes) : EngineM Unit := do
  invoke .delete
  write id ns key none

/-- Ends a transaction in the way of `ending`. -/
def finish (id : TransactionId)
    (ending : Transaction → Store → Except EngineError Unit × Transaction × Store) : EngineM Unit := do
  let tx ← transaction id
  let (outcome, tx', store') := ending tx (← getThe Engine).store
  modifyStore fun _ => store'
  keep id tx'
  ExceptT.mk (pure outcome)

def commit (id : TransactionId) : EngineM Unit := do
  invoke .commit
  finish id Transaction.commit

def rollback (id : TransactionId) : EngineM Unit := do
  invoke .rollback
  finish id Transaction.rollback

/-- Gives a transaction up: its number is forgotten, and so are its writes if it is unfinished. -/
def discard (engine : Engine) (id : TransactionId) : Engine :=
  match engine.transactions.get? id with
  | some tx =>
    { engine with
      store := tx.abandon engine.store
      transactions := engine.transactions.erase id }
  | none => engine

/-! ### Iterators -/

/-- The keys that a transaction sees in a range. -/
def visibleKeys (id : TransactionId) (ns : Namespace) (range : Range) : EngineM (List Bytes) := do
  let tx ← transaction id
  let view ← ask fun store => tx.view store ns range
  pure view.keys

/-- Opens an iterator over the keys that a transaction sees in a range now. -/
def openIterator (id : TransactionId) (ns : Namespace) (range : Range) : EngineM RawIterator := do
  invoke .iterator
  let keys ← visibleKeys id ns range
  modifyStore Store.iteratorOpened
  pure { keys }

def releaseIterator (engine : Engine) : Engine :=
  { engine with store := engine.store.iteratorReleased }

/-- Asks an iterator whether it is healthy. -/
def status : EngineM Unit := invoke .status

/-! ### Statistics -/

/-- Counts and weighs the recent records in a range. -/
def recentTally (ns : Namespace) (range : Range) : EngineM Tally := do
  invoke .recentTally
  ask fun store => store.recentTally ns range

/-- Weighs the older records in a range. -/
def olderSize (ns : Namespace) (range : Range) : EngineM UInt64 := do
  invoke .olderSize
  ask fun store => store.olderSize ns range

end Engine

end SecondaryIndex
