import SecondaryIndex.Store.Basic

/-!
# Transactions

A transaction buffers its writes and reads its own writes first, then the committed records of the
moment. Committing hands the whole buffer to the store; whatever the outcome, the transaction is
then finished and struck off the registry. Any later call through it is refused.
-/

namespace SecondaryIndex

/-- A transaction over a store. -/
structure Transaction where
  /-- The commit it started from. -/
  start : Nat
  writes : WriteSet := ∅
  finished : Bool := false

namespace Transaction

def batch (tx : Transaction) (ns : Namespace) : Batch := tx.writes.getD ns ∅

/-- How many keys it has written and not committed. -/
def pending (tx : Transaction) : Nat := (tx.writes.values.map SortedMap.size).foldl (· + ·) 0

def requireOpen (tx : Transaction) : Except EngineError Unit :=
  if tx.finished then .error .transactionClosed else .ok ()

/-- Reads a key: the last write to it, else its committed record. -/
def get (tx : Transaction) (store : Store) (ns : Namespace) (key : Bytes) :
    Except EngineError (Option Bytes) := do
  tx.requireOpen
  match (tx.batch ns).get? key with
  | some slot => pure slot
  | none => pure ((← store.table ns).get? key)

/-- Buffers a write. A missing namespace shows here and not only at the commit. -/
def write (tx : Transaction) (store : Store) (ns : Namespace) (key : Bytes) (slot : Slot) :
    Except EngineError Transaction := do
  tx.requireOpen
  let _ ← store.table ns
  pure { tx with writes := tx.writes.insert ns ((tx.batch ns).insert key slot) }

/-- The live records in a range, its own writes included. -/
def view (tx : Transaction) (store : Store) (ns : Namespace) (range : Range) :
    Except EngineError (SortedMap Bytes Bytes) := do
  tx.requireOpen
  pure ((← store.table ns).view (tx.batch ns) range)

/-- The transaction once it is over. -/
def close (tx : Transaction) : Transaction := { tx with writes := ∅, finished := true }

/-- Hands the writes to the store. A commit without writes changes no record and never fails. -/
def commit (tx : Transaction) (store : Store) : Except EngineError Unit × Transaction × Store :=
  if tx.finished then (.error .transactionClosed, tx, store)
  else if tx.pending = 0 then (.ok (), tx.close, store.leave tx.start)
  else
    match store.apply tx.start tx.writes with
    | .ok store' => (.ok (), tx.close, store'.leave tx.start)
    | .error e => (.error e, tx.close, store.leave tx.start)

def rollback (tx : Transaction) (store : Store) : Except EngineError Unit × Transaction × Store :=
  if tx.finished then (.error .transactionClosed, tx, store)
  else (.ok (), tx.close, store.leave tx.start)

/-- The store after a transaction was abandoned: one that was still open leaves the registry. -/
def abandon (tx : Transaction) (store : Store) : Store :=
  if tx.finished then store else store.leave tx.start

end Transaction

end SecondaryIndex
