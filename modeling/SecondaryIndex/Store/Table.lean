import SecondaryIndex.Range

/-!
# Tables

The records of one namespace lie in two layers. The memtable holds recent writes, among them
tombstones; the flushed table holds older live records. A key shows the newest layer that mentions
it, so the contents of a table are its memtable laid over its flushed records. Beside the records a
table remembers when a key was last written, as long as an open transaction may have to know.
-/

namespace SecondaryIndex

/-- A write to a key: a value, or `none` for a removal. -/
abbrev Slot := Option Bytes

/-- The last write to each key of one namespace within a transaction. -/
abbrev Batch := SortedMap Bytes Slot

/-- The records of one namespace. -/
structure Table where
  /-- Recent writes, tombstones included. -/
  memtable : SortedMap Bytes Slot := ∅
  /-- Older records, all of them live. -/
  flushed : SortedMap Bytes Bytes := ∅
  /-- The commit that last wrote a key, for the keys that may still matter. -/
  lastWrite : SortedMap Bytes Nat := ∅

namespace Table

instance : EmptyCollection Table := ⟨{}⟩

/-- The live record of a key. -/
def get? (table : Table) (key : Bytes) : Option Bytes :=
  match table.memtable.get? key with
  | some slot => slot
  | none => table.flushed.get? key

/-- Every layer of the part of a table in a range, with a batch of writes on top. -/
def layers (table : Table) (batch : Batch) (range : Range) : SortedMap Bytes Slot :=
  (batch.within range).overlay
    ((table.memtable.within range).overlay (table.flushed.within range).slots)

/-- The live records in a range as a transaction with a batch of writes sees them. -/
def view (table : Table) (batch : Batch) (range : Range) : SortedMap Bytes Bytes :=
  (table.layers batch range).live

/-- The live records of a table. -/
def contents (table : Table) : SortedMap Bytes Bytes :=
  (table.memtable.overlay table.flushed.slots).live

/-- Moves the memtable into the flushed records. -/
def flush (table : Table) : Table :=
  { table with memtable := ∅, flushed := table.contents }

/-- Flushes a table whose memtable has reached its capacity; a capacity of zero is never reached. -/
def flushAt (capacity : Nat) (table : Table) : Table :=
  if 0 < capacity ∧ capacity ≤ table.memtable.size then table.flush else table

/-- Writes a batch as the commit with number `seq`. -/
def write (table : Table) (seq : Nat) (batch : Batch) : Table :=
  { table with
    memtable := batch.overlay table.memtable
    lastWrite := (batch.mapValues fun _ => seq).overlay table.lastWrite }

/-- Forgets the last writes that are not newer than `horizon`. -/
def prune (horizon : Nat) (table : Table) : Table :=
  { table with lastWrite := table.lastWrite.filter fun _ seq => horizon < seq }

/-- Whether a key of the batch was written by a commit after `start`. -/
def conflicts (table : Table) (start : Nat) (batch : Batch) : Bool :=
  batch.keys.any fun key =>
    match table.lastWrite.get? key with
    | some seq => start < seq
    | none => false

/-! ### Reading through the layers -/

@[simp] theorem get?_contents (table : Table) (key : Bytes) :
    table.contents.get? key = table.get? key := by
  simp only [contents, get?, SortedMap.get?_live, SortedMap.get?_overlay, SortedMap.get?_slots]
  cases table.memtable.get? key <;> cases table.flushed.get? key <;> rfl

/-- What a transaction sees of a key in range is its own last write, else the live record. -/
@[simp] theorem get?_view (table : Table) (batch : Batch) (range : Range) (key : Bytes) :
    (table.view batch range).get? key =
      if range.contains key then (batch.get? key).getD (table.get? key) else none := by
  simp only [view, layers, get?, SortedMap.get?_live, SortedMap.get?_overlay, SortedMap.get?_slots,
    SortedMap.get?_within]
  cases range.contains key
  · simp
  · cases batch.get? key <;> cases table.memtable.get? key <;> cases table.flushed.get? key <;> rfl

/-- Flushing changes the layer a record lies in, never what is read. -/
@[simp] theorem get?_flush (table : Table) (key : Bytes) :
    table.flush.get? key = table.get? key := by
  show (table.contents).get? key = table.get? key
  exact get?_contents table key

@[simp] theorem get?_flushAt (capacity : Nat) (table : Table) (key : Bytes) :
    (table.flushAt capacity).get? key = table.get? key := by
  unfold flushAt
  split <;> simp

@[simp] theorem get?_prune (horizon : Nat) (table : Table) (key : Bytes) :
    (table.prune horizon).get? key = table.get? key := rfl

/-- A batch that was written shows through. -/
@[simp] theorem get?_write (table : Table) (seq : Nat) (batch : Batch) (key : Bytes) :
    (table.write seq batch).get? key = (batch.get? key).getD (table.get? key) := by
  simp only [write, get?, SortedMap.get?_overlay]
  cases batch.get? key <;> rfl

end Table

end SecondaryIndex
