import SecondaryIndex.Engine.Basic
import SecondaryIndex.Index.Metrics

/-!
# The database an index works on

Index operations change an engine and the counters of their metrics. They are programs that keep the
state they reached when they fail, since what a failed operation leaves behind matters.

Every operation runs in a context: the ambient transaction of the caller, or none. Without one it
*auto-commits*: it begins a transaction of its own, commits it if the operation succeeds and rolls
it back if it fails, and gives it up either way (`transactionally`).
-/

namespace SecondaryIndex

/-- The number of a set of counters. -/
abbrev MetricsId := Nat

/-- The state that index operations change. -/
structure Database where
  engine : Engine
  /-- The counters that were installed. -/
  metrics : SortedMap MetricsId Counters := ∅

/-- Programs over a database, which keep its state when they fail. -/
abbrev IndexM := ExceptT IndexError (StateM Database)

/-- The transaction that an operation joins; without one it auto-commits. -/
abbrev Context := Option TransactionId

namespace Database

def ofOptions (options : StoreOptions) : Database := { engine := Engine.ofOptions options }

def mapEngine (f : Engine → Engine) (db : Database) : Database :=
  { db with engine := f db.engine }

/-- Lets the counters of a number take notice; without a number nothing is counted. -/
def observe (id? : Option MetricsId) (f : Counters → Counters) (db : Database) : Database :=
  match id? with
  | some id => { db with metrics := db.metrics.insert id (f (db.metrics.getD id {})) }
  | none => db

/-- Installs fresh counters. -/
def installMetrics (db : Database) : MetricsId × Database :=
  (db.metrics.size, { db with metrics := db.metrics.insert db.metrics.size {} })

end Database

namespace IndexM

variable {α : Type}

/-- Runs a program over the engine of a database; its errors are storage errors. -/
def ofEngine (program : EngineM α) : IndexM α :=
  ExceptT.mk fun db =>
    let (outcome, engine) := program.run db.engine
    (outcome.mapError .storage, { db with engine })

def ofEncoding (outcome : Except EncodingError α) : IndexM α :=
  ExceptT.mk (pure (outcome.mapError .encoding))

def observe (id? : Option MetricsId) (f : Counters → Counters) : IndexM Unit :=
  modifyThe Database (Database.observe id? f)

/-- Runs a program and hands its outcome on as a value, so that something can still be done after a
failure. -/
def attempt (program : IndexM α) : IndexM (Except IndexError α) :=
  ExceptT.mk (Except.ok <$> program.run)

/-- Succeeds or fails with an outcome. -/
def ofOutcome (outcome : Except IndexError α) : IndexM α := ExceptT.mk (pure outcome)

def releaseIterator : IndexM Unit := modifyThe Database (Database.mapEngine Engine.releaseIterator)

/-- Opens an iterator for the duration of a program. -/
def withIterator (id : TransactionId) (ns : Namespace) (range : Range)
    (program : RawIterator → IndexM α) : IndexM α := do
  let iterator ← ofEngine (Engine.openIterator id ns range)
  let outcome ← attempt (program iterator)
  -- the iterator is released whether or not the program went through
  releaseIterator
  ofOutcome outcome

/-! ### Contexts -/

/-- Ends the transaction that was begun for an operation, by the operation's outcome. If the commit
fails, `undo` takes back what the operation had acquired for its caller; if the operation failed,
its own error is what the caller learns, whether or not the rollback works. -/
def settle (id : TransactionId) (outcome : Except IndexError α) (undo : α → IndexM Unit) :
    IndexM α :=
  match outcome with
  | .ok a => do
    match ← attempt (ofEngine (Engine.commit id)) with
    | .ok _ => pure a
    | .error e => do
      undo a
      throw e
  | .error e => do
    let _ ← attempt (ofEngine (Engine.rollback id))
    throw e

/-- Runs an operation in a context. -/
def transactionally (ctx : Context) (operation : TransactionId → IndexM α)
    (undo : α → IndexM Unit) : IndexM α :=
  match ctx with
  | some id => operation id
  | none => do
    let id ← ofEngine Engine.begin
    -- from here on nothing may leave before the transaction is given up
    let outcome ← attempt (operation id)
    let result ← attempt (settle id outcome undo)
    modifyThe Database (Database.mapEngine fun engine => engine.discard id)
    ofOutcome result

/-- Runs an operation that acquires nothing in a context. -/
def within (ctx : Context) (operation : TransactionId → IndexM α) : IndexM α :=
  transactionally ctx operation fun _ => pure ()

end IndexM

end SecondaryIndex
