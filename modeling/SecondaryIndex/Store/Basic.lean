import SecondaryIndex.Error
import SecondaryIndex.Store.Table

/-!
# The store

A store keeps one table for each namespace, numbers its commits, and detects write conflicts by
comparing the commit that last wrote a key with the commit a transaction started from. It registers
the starts of the open transactions: commits at or below the least of them can no longer conflict,
so their records are forgotten.

Sizes are words of 64 bits. An addition of sizes that goes beyond the greatest word is an overflow, and so is every
size that is computed from it.
-/

namespace SecondaryIndex

/-- The name of a table. -/
abbrev Namespace := String

/-- The settings of a store. -/
structure StoreOptions where
  /-- How many memtable records of a namespace set off a flush; zero stands for never. -/
  memtableCapacity : Nat := 4096
  /-- What a record weighs in the statistics beyond its key and its value. -/
  recordOverhead : UInt64 := 8
  deriving DecidableEq, Repr

/-- The number and the size of the memtable records in a range. -/
structure Tally where
  /-- How many records there are, tombstones included. -/
  count : Nat
  /-- What they weigh together. -/
  size : UInt64
  deriving DecidableEq, Repr

/-- A transactional store of byte strings in named tables. -/
structure Store where
  options : StoreOptions
  /-- The table of each namespace that was created. -/
  tables : SortedMap Namespace Table := ∅
  /-- The number of the last commit. To count commits in a word is the same as long as there are fewer than `2 ^ 64`. -/
  lastCommit : Nat := 0
  /-- How many iterators were opened and not yet released. -/
  openIterators : Nat := 0
  /-- How many unfinished transactions started from each commit. -/
  active : SortedMap Nat Nat := ∅

/-- The last writes of a transaction, by namespace and key. -/
abbrev WriteSet := SortedMap Namespace Batch

namespace Store

/-! ### Namespaces -/

/-- Registers a namespace; one that exists keeps its records. -/
def createNamespace (store : Store) (ns : Namespace) : Store :=
  if store.tables.contains ns then store
  else { store with tables := store.tables.insert ns ∅ }

def hasNamespace (store : Store) (ns : Namespace) : Bool := store.tables.contains ns

def table (store : Store) (ns : Namespace) : Except EngineError Table :=
  match store.tables.get? ns with
  | some table => .ok table
  | none => .error (.namespaceNotFound ns)

def flush (store : Store) (ns : Namespace) : Except EngineError Store := do
  let table ← store.table ns
  pure { store with tables := store.tables.insert ns table.flush }

def flushAll (store : Store) : Store :=
  { store with tables := store.tables.mapValues Table.flush }

/-! ### Statistics -/

/-- A number as a word, if it is one. -/
def sizeOfNat (n : Nat) : Except EngineError UInt64 :=
  if n < UInt64.size then pure (UInt64.ofNat n) else throw .overflow

/-- The sum of two words, if it is one. -/
def addSizes (a b : UInt64) : Except EngineError UInt64 := sizeOfNat (a.toNat + b.toNat)

def recordSize (store : Store) (key value : Bytes) : Except EngineError UInt64 := do
  addSizes (← sizeOfNat (key.length + value.length)) store.options.recordOverhead

/-- Weighs records one after the other. -/
def totalSize (store : Store) (records : SortedMap Bytes Bytes) : Except EngineError UInt64 :=
  records.entries.foldlM (fun total e => do addSizes total (← store.recordSize e.1 e.2)) 0

/-- Counts and weighs the memtable records in a range; a tombstone weighs as an empty value. -/
def recentTally (store : Store) (ns : Namespace) (range : Range) :
    Except EngineError Tally := do
  let records := (← store.table ns).memtable.within range
  pure ⟨records.size, ← store.totalSize (records.mapValues fun slot => slot.getD [])⟩

/-- Weighs the flushed records in a range. -/
def olderSize (store : Store) (ns : Namespace) (range : Range) :
    Except EngineError UInt64 := do
  store.totalSize ((← store.table ns).flushed.within range)

/-! ### The registry of open transactions -/

/-- Registers a transaction that starts from the last commit. -/
def enter (store : Store) : Store :=
  { store with
    active := store.active.alter store.lastCommit fun open? => some (open?.getD 0 + 1) }

/-- Strikes off a transaction that started from commit `start`. -/
def leave (store : Store) (start : Nat) : Store :=
  { store with
    active := store.active.alter start fun open? =>
      -- the last one out takes the entry along, so that `horizon` finds open transactions only
      open?.bind fun n => if n ≤ 1 then none else some (n - 1) }

/-- The commit up to which no open or future transaction can conflict. -/
def horizon (store : Store) : Nat :=
  match store.active.min? with
  | some (start, _) => start
  -- whoever begins now starts from the last commit
  | none => store.lastCommit

/-! ### Commits -/

/-- Refuses a batch for a missing namespace, and one with a key written after commit `start`. -/
def accept (store : Store) (start : Nat) (ns : Namespace) (batch : Batch) :
    Except EngineError Unit := do
  if (← store.table ns).conflicts start batch then throw (.conflict ns)

/-- Writes all batches as the next commit, flushes the tables that became full, and forgets the last
writes that can no longer conflict. -/
def install (store : Store) (writes : WriteSet) : Store :=
  let seq := store.lastCommit + 1
  let store := { store with lastCommit := seq }
  -- the committing transaction is still registered here, so its own start bounds the horizon
  let horizon := store.horizon
  { store with
    tables := store.tables.mapEntries fun ns table =>
      (match writes.get? ns with
      | some batch => (table.write seq batch).flushAt store.options.memtableCapacity
      -- a table that is not written to is pruned all the same
      | none => table).prune horizon }

/-- Commits the writes of a transaction that started from commit `start`, all of them or none. -/
def apply (store : Store) (start : Nat) (writes : WriteSet) : Except EngineError Store := do
  -- every batch is accepted before the first of them is written
  writes.entries.forM fun (ns, batch) => store.accept start ns batch
  pure (store.install writes)

/-! ### Iterators -/

/-- Counts an iterator that was opened. -/
def iteratorOpened (store : Store) : Store :=
  { store with openIterators := store.openIterators + 1 }

/-- One less. The counter is a word, so below zero it wraps around. -/
def countDown (n : Nat) : Nat := if n = 0 then UInt64.size - 1 else n - 1

@[simp] theorem countDown_succ (n : Nat) : countDown (n + 1) = n := rfl

/-- Counts an iterator that was released. -/
def iteratorReleased (store : Store) : Store :=
  { store with openIterators := countDown store.openIterators }

end Store

end SecondaryIndex
