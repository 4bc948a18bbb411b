import SecondaryIndex.Session.Reply

/-!
# Sessions

A session is a database together with what its handles stand for. A handle that is given anew drops
what it stood for before, and dropping releases: an open transaction is abandoned, an iterator is
released, a cursor is closed.
-/

namespace SecondaryIndex

/-- An index with the kinds of its keys and values. -/
structure IndexHandle where
  keys : ItemKind
  values : ItemKind
  index : AnyIndex keys.Carrier values.Carrier

/-- A cursor with the kind of its items. -/
structure CursorHandle where
  kind : ItemKind
  cursor : Cursor kind.Carrier
  /-- Whether the iteration over its items is done, if there is one. -/
  done? : Option Bool := none

/-- A database and the handles on it. -/
structure Session where
  database : Database
  transactions : SortedMap Session.Handle TransactionId := ∅
  iterators : SortedMap Session.Handle RawIterator := ∅
  indexes : SortedMap Session.Handle IndexHandle := ∅
  cursors : SortedMap Session.Handle CursorHandle := ∅

/-- Programs over a session, which keep its state when they fail. -/
abbrev SessionM := ExceptT Session.StepError (StateM Session)

namespace Session

variable {α : Type}

/-- A session over a new database. -/
def ofOptions (options : StoreOptions) : Session := { database := Database.ofOptions options }

/-- Changes the database of a session and none of its handles. -/
def mapDatabase (f : Database → Database) (session : Session) : Session :=
  { session with database := f session.database }

/-- Runs an index program on the database of the session. -/
def ofIndex (program : IndexM α) : SessionM α :=
  ExceptT.mk fun session =>
    let (outcome, database) := program.run session.database
    (outcome.mapError .index, { session with database })

/-- Runs an engine program on the database of the session. -/
def ofEngine (program : EngineM α) : SessionM α :=
  ExceptT.mk fun session =>
    let (outcome, engine) := program.run session.database.engine
    (outcome.mapError .engine, session.mapDatabase fun db => { db with engine })

/-- Asks the store of the session. -/
def ofStore (query : Store → Except EngineError α) : SessionM α := ofEngine (Engine.ask query)

def modifyStore (f : Store → Store) : SessionM Unit := ofEngine (Engine.modifyStore f)

/-- What a handle stands for. -/
def resolve (handles : SortedMap Handle α) (handle : Handle) : SessionM α :=
  match handles.get? handle with
  | some a => pure a
  | none => throw (.noHandle handle)

/-- The transaction of a handle. -/
def transaction (tx : Handle) : SessionM TransactionId := do
  resolve (← getThe Session).transactions tx

/-- The context that a step runs in. -/
def contextOf : Option Handle → SessionM Context
  | none => pure none
  | some tx => some <$> transaction tx

/-- Reads the text of an item. -/
def readItem (kind : ItemKind) (text : String) : SessionM kind.Carrier :=
  match kind.ofText? text with
  | some item => pure item
  | none => throw .badInput

/-! ### Dropping -/

/-- Abandons the transaction of a handle. -/
def dropTransaction (tx : Handle) (session : Session) : Session :=
  match session.transactions.get? tx with
  | some id =>
    { session with
      database := session.database.mapEngine fun engine => engine.discard id
      transactions := session.transactions.erase tx }
  | none => session

/-- Releases the iterator of a handle. -/
def dropIterator (it : Handle) (session : Session) : Session :=
  match session.iterators.get? it with
  | some _ =>
    { session with
      database := session.database.mapEngine Engine.releaseIterator
      iterators := session.iterators.erase it }
  | none => session

/-- Closes the cursor of a handle. -/
def dropCursor (c : Handle) (session : Session) : Session :=
  match session.cursors.get? c with
  | some held =>
    { session with
      database := held.cursor.release session.database
      cursors := session.cursors.erase c }
  | none => session

/-! ### Giving handles

What a handle stood for before is dropped only after its new meaning was acquired. -/

/-- Puts a transaction under a handle. -/
def holdTransaction (tx : Handle) (id : TransactionId) : SessionM Unit :=
  modifyThe Session fun session =>
    let session := session.dropTransaction tx
    { session with transactions := session.transactions.insert tx id }

/-- Puts an iterator under a handle. -/
def holdIterator (it : Handle) (iterator : RawIterator) : SessionM Unit :=
  modifyThe Session fun session =>
    let session := session.dropIterator it
    { session with iterators := session.iterators.insert it iterator }

/-- Puts a cursor under a handle. -/
def holdCursor (c : Handle) (kind : ItemKind) (cursor : Cursor kind.Carrier) : SessionM Unit :=
  modifyThe Session fun session =>
    let session := session.dropCursor c
    { session with cursors := session.cursors.insert c { kind, cursor } }

end Session

end SecondaryIndex
