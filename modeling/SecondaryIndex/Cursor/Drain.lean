import SecondaryIndex.Cursor.Basic

/-!
# Draining a cursor

Counting its remaining items and collecting them use a cursor up. Both take the remaining steps in one
loop, and differ only in what they accumulate (`Cursor.fold`). At the end of the loop the scan is counted and
the cursor is closed; an error leaves the loop at once. Either way the cursor is dropped in the end, and
to drop a cursor that was closed before releases nothing (`Cursor.consume`).

To iterate over the items takes them step by step (`CursorItems.next`). The cursor is closed at the end or
at the first error, and nothing is given from then on. An iteration that is given up before drops its
cursor.

A step that yields an item leaves the iterator on a greater key than before, so a cursor over `n`
keys yields none at the latest at its step `n + 1`; that many steps are always enough.
-/

namespace SecondaryIndex

namespace Cursor

variable {α β : Type}

/-- Accumulates the items of at most `steps` steps up to the end. -/
def fold (f : β → α → β) : (steps : Nat) → β → CursorM α β
  | 0, total => pure total
  | steps + 1, total => do
    match ← next with
    | none => pure total
    | some item => fold f steps (f total item)

/-- Accumulates the remaining items and closes the cursor. Its counters are told how many items there
were. -/
def exhaust (f : β → α → β) (start : β) (size : β → Nat) : CursorM α β := do
  let total ← fold f ((← getThe (Cursor α)).iterator.keys.length + 1) start
  let metrics := (← getThe (Cursor α)).metrics
  modifyThe Database (Database.observe metrics (Counters.countScan (size total)))
  close
  pure total

/-- Runs a program on a cursor, which is dropped after it. -/
def consume (cursor : Cursor α) (program : CursorM α β) : IndexM β :=
  ExceptT.mk do
    let (outcome, cursor) ← program.run.run cursor
    -- this is reached from an error as well, and there the cursor need not be closed yet
    modifyThe Database cursor.release
    pure outcome

/-- The number of the remaining items. -/
def count (cursor : Cursor α) : IndexM Nat := cursor.consume (exhaust (fun n _ => n + 1) 0 id)

/-- The remaining items, all of them or the first error. -/
def collect (cursor : Cursor α) : IndexM (List α) :=
  Array.toList <$> cursor.consume (exhaust Array.push #[] Array.size)

end Cursor

/-- A cursor that is iterated over. -/
structure CursorItems (α : Type) where
  cursor : Cursor α
  /-- Whether the end was reached or an error was given. -/
  done : Bool := false

/-- Programs that move the cursor of an iteration. -/
abbrev CursorItemsM (α : Type) := StateT (CursorItems α) (StateM Database)

namespace CursorItems

variable {α β : Type}

/-- Runs a program on the cursor and tells its outcome. -/
def ofCursor (program : CursorM α β) : CursorItemsM α (Except IndexError β) := fun iteration => do
  let (outcome, cursor) ← program.run.run iteration.cursor
  pure (outcome, { iteration with cursor })

/-- Ends the iteration. -/
def finish : CursorItemsM α Unit := do
  modify fun iteration => { iteration with done := true }
  let _ ← ofCursor Cursor.close

/-- Gives the next item or the error in its place; gives none past the end and after an error. -/
def next : CursorItemsM α (Option (Except IndexError α)) := do
  if (← get).done then return none
  match ← ofCursor Cursor.next with
  | .ok (some item) => pure (some (.ok item))
  | .ok none => do
    finish
    pure none
  | .error e => do
    finish
    pure (some (.error e))

/-- What at most `steps` steps give up to the end. -/
def collect : (steps : Nat) → CursorItemsM α (List (Except IndexError α))
  | 0 => pure []
  | steps + 1 => do
    match ← next with
    | none => pure []
    | some outcome => do pure (outcome :: (← collect steps))

end CursorItems

namespace Cursor

variable {α : Type}

/-- Iterates over the remaining items, asks once more beyond the end, and gives the iteration up. What is
told is what came up to the end, an error being the last of it, and whether nothing came after it. -/
def items (cursor : Cursor α) : StateM Database (List (Except IndexError α) × Bool) := do
  -- an error may take the place of the step that yields no item
  let steps := cursor.iterator.keys.length + 2
  let (outcomes, iteration) ← (CursorItems.collect steps).run { cursor }
  let (more?, iteration) ← CursorItems.next.run iteration
  modifyThe Database iteration.cursor.release
  pure (outcomes, more?.isNone)

end Cursor

end SecondaryIndex
