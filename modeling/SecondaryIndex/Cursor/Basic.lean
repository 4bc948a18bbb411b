import SecondaryIndex.Database
import SecondaryIndex.Layout.Basic
import SecondaryIndex.Text.Record

/-!
# Cursors

A cursor walks the items of an index over a raw iterator that it owns. It has a position of its own
beside the iterator's: not yet moved, at an item, past the end, before the start, or closed. A step
first moves the iterator, then asks for its health, and only then changes the cursor's position.

The steps have two parts. Where to go next is a function of the cursor alone (`Cursor.forward`,
`Cursor.backward`); what happens on arrival, with the health check between, is `Cursor.arrive`. A
cursor with the stride `group` leaves the group of its present key as a whole, by seeking the bound
of the group in the direction of the step.
-/

namespace SecondaryIndex

/-- How a cursor finds the physical key of an item. -/
inductive Seeking (α : Type)
  /-- The item gives its physical key. -/
  | exact (encode : α → Except EncodingError Bytes)
  /-- The item gives the lower bound of a group of entries, any of which will do. -/
  | byGroup (encode : α → Except EncodingError Bytes)
  /-- The item does not tell its physical key. -/
  | impossible

/-- How far a step of a cursor goes. -/
inductive Stride
  /-- To the next entry. -/
  | entry
  /-- To the next group of entries with one key. -/
  | group (layout : Layout)
  deriving DecidableEq, Repr

def Stride.name : Stride → String
  | entry => "PerEntry"
  | group layout => "DistinctKeys(" ++ layout.name ++ ")"

/-- Where a cursor stands. -/
inductive Position
  | unopened
  | resting
  | pastEnd
  | beforeStart
  | closed
  deriving DecidableEq, Repr

/-- What is told of where a cursor stands. -/
inductive CursorState
  | unopened
  | positioned
  | exhausted
  | closed
  deriving DecidableEq, Repr

def CursorState.name : CursorState → String
  | unopened => "Unopened"
  | positioned => "Positioned"
  | exhausted => "Exhausted"
  | closed => "Closed"

/-- The state that a position shows as. -/
def Position.state : Position → CursorState
  | unopened => .unopened
  | .resting => .positioned
  | pastEnd => .exhausted
  | beforeStart => .exhausted
  | closed => .closed

/-- A walk over the items of an index. -/
structure Cursor (α : Type) where
  iterator : RawIterator
  decode : Bytes → Except EncodingError α
  seeking : Seeking α
  stride : Stride
  position : Position := .unopened
  /-- The counters that take notice of it. -/
  metrics : Option MetricsId := none

/-- Programs that move a cursor; cursor and database keep the state they reached when they fail. -/
abbrev CursorM (α : Type) := ExceptT IndexError (StateT (Cursor α) (StateM Database))

/-- What a step of a cursor does to its iterator. -/
inductive Move
  /-- The edge is known to be reached, and the iterator stays. -/
  | edge
  | to (iterator : RawIterator)

namespace Cursor

variable {α : Type}

def state (cursor : Cursor α) : CursorState := cursor.position.state

def isClosed (cursor : Cursor α) : Bool := cursor.position = .closed

def describe (cursor : Cursor α) : String :=
  showRecord "IndexCursor" [("state", cursor.state.name), ("stride", cursor.stride.name)]

/-- Runs an index program beside a cursor. -/
def ofIndex {β : Type} (program : IndexM β) : CursorM α β :=
  ExceptT.mk fun cursor => do pure (← program.run, cursor)

def stand (position : Position) : CursorM α Unit :=
  modifyThe (Cursor α) fun cursor => { cursor with position }

def walk (iterator : RawIterator) : CursorM α Unit :=
  modifyThe (Cursor α) fun cursor => { cursor with iterator }

/-- Reads the item of a physical key. -/
def read (physical : Bytes) : CursorM α α := do
  ofIndex (IndexM.ofEncoding ((← getThe (Cursor α)).decode physical))

/-! ### Where a step goes -/

/-- The bounds of the group of entries that the cursor rests in. -/
def spanOf (cursor : Cursor α) (layout : Layout) : Except IndexError (Bytes × Bound) :=
  match cursor.iterator.key? with
  | none => .error (.invalidState .lostPosition)
  | some physical => (layout.spanOf physical).mapError .encoding

/-- The move of a step forward. A group without an upper bound is the last one. -/
def forward (cursor : Cursor α) : Except IndexError Move :=
  match cursor.position with
  | .closed => .error (.invalidState .closed)
  | .pastEnd => .ok .edge
  | .unopened | .beforeStart => .ok (.to cursor.iterator.seekFirst)
  | .resting =>
    match cursor.stride with
    | .entry => .ok (.to cursor.iterator.next)
    | .group layout => do
      match (← cursor.spanOf layout).2 with
      | .excluded bound | .included bound => pure (.to (cursor.iterator.seek bound))
      | .unbounded => pure .edge

/-- The move of a step backward. -/
def backward (cursor : Cursor α) : Except IndexError Move :=
  match cursor.position with
  | .closed => .error (.invalidState .closed)
  | .beforeStart => .ok .edge
  | .unopened | .pastEnd => .ok (.to cursor.iterator.seekLast)
  | .resting =>
    match cursor.stride with
    | .entry => .ok (.to cursor.iterator.prev)
    | .group layout => do
      pure (.to (cursor.iterator.seek (← cursor.spanOf layout).1).prev)

/-! ### Steps -/

/-- Makes a move and settles on what is found there: an item, or nothing, beyond the edge. -/
def arrive (move : Except IndexError Move) (edge : Position) : CursorM α (Option α) := do
  match ← ExceptT.mk (pure move) with
  | .edge =>
    stand edge
    pure none
  | .to iterator =>
    -- an iterator that is not healthy has moved all the same; only the position stays
    walk iterator
    ofIndex (IndexM.ofEngine Engine.status)
    match iterator.key? with
    | some physical =>
      -- the cursor rests on the entry even if its item cannot be read
      stand .resting
      some <$> read physical
    | none =>
      stand edge
      pure none

/-- Steps to the next item and gives it; gives none past the end. -/
def next : CursorM α (Option α) := do
  arrive (← getThe (Cursor α)).forward .pastEnd

/-- Steps to the item before and gives it; gives none before the start. -/
def prev : CursorM α (Option α) := do
  arrive (← getThe (Cursor α)).backward .beforeStart

/-- The item that the cursor rests on. -/
def current : CursorM α α := do
  let cursor ← getThe (Cursor α)
  match cursor.position with
  | .closed => throw (.invalidState .closed)
  | .resting =>
    match cursor.iterator.key? with
    | some physical => read physical
    | none => throw (.invalidState .lostPosition)
  | _ => throw (.invalidState .unpositioned)

/-- The physical key to seek for an item, and whether any key that begins with it is a hit. -/
def target (cursor : Cursor α) (item : α) : Except IndexError (Bytes × Bool) :=
  match cursor.position, cursor.seeking with
  | .closed, _ => .error (.invalidState .closed)
  | _, .exact encode => ((encode item).mapError .encoding).map (·, false)
  | _, .byGroup encode => ((encode item).mapError .encoding).map (·, true)
  | _, .impossible => .error .cannotSeek

/-- Moves to an item and tells whether it is there. If it is not, the cursor rests on the next
greater item, or is past the end. -/
def seek (item : α) : CursorM α Bool := do
  let cursor ← getThe (Cursor α)
  let (goal, group) ← ExceptT.mk (pure (cursor.target item))
  let iterator := cursor.iterator.seek goal
  walk iterator
  ofIndex (IndexM.ofEngine Engine.status)
  match iterator.key? with
  | some physical =>
    stand .resting
    pure (if group then goal.isPrefixOf physical else physical = goal)
  | none =>
    stand .pastEnd
    pure false

/-! ### Closing -/

/-- Releases the iterator of a cursor that is not closed yet. -/
def release (cursor : Cursor α) (db : Database) : Database :=
  if cursor.isClosed then db
  else (db.mapEngine Engine.releaseIterator).observe cursor.metrics Counters.countClosed

/-- Closes the cursor; closing it again does nothing. -/
def close : CursorM α Unit := do
  let cursor ← getThe (Cursor α)
  modifyThe Database cursor.release
  stand .closed

end Cursor

end SecondaryIndex
