import SecondaryIndex.Bytes.Utf8.Basic
import SecondaryIndex.Pattern.Basic

/-!
# Errors

An error says what went wrong; the wording of each cause is in one place, its `message`. Three types
follow the layers: `EncodingError` for bytes that cannot be written or read as items, `EngineError`
for what a storage engine reports, and `IndexError` for what an index reports, which keeps the cause
of an engine failure.
-/

namespace SecondaryIndex

/-! ### Bytes and items -/

/-- The two kinds of machine word that are stored as eight bytes. -/
inductive WordKind
  | unsigned
  | signed
  deriving DecidableEq, Repr

def WordKind.name : WordKind → String
  | unsigned => "u64"
  | signed => "i64"

/-- Why an item cannot be written as bytes, or bytes cannot be read as an item. -/
inductive EncodingError
  /-- A window of `length` bytes at `offset` does not lie in a buffer of `size` bytes. -/
  | outsideBuffer (offset length size : Nat)
  /-- A word was read from a window of other than eight bytes. -/
  | wordLength (kind : WordKind) (length : Nat)
  /-- The bytes are not text. -/
  | malformedText (fault : Utf8.Fault)
  /-- A key is longer than the length in front of it can say. -/
  | keyTooLong (length limit : Nat)
  /-- A physical key is shorter than its length prefix. -/
  | missingLength (length width : Nat)
  /-- A physical key carries fewer key bytes than it declares. -/
  | truncatedKey (declared carried : Nat)
  deriving DecidableEq, Repr

def EncodingError.message : EncodingError → String
  | outsideBuffer offset length size =>
    "window " ++ toString offset ++ "+" ++ toString length ++ " exceeds " ++ toString size ++
      " byte buffer"
  | wordLength kind length => kind.name ++ " needs 8 bytes, got " ++ toString length
  | malformedText fault => "invalid UTF-8: " ++ fault.message
  | keyTooLong length limit =>
    "index key is " ++ toString length ++ " bytes, limit is " ++ toString limit
  | missingLength length width =>
    "physical key of " ++ toString length ++ " bytes has no " ++ toString width ++
      " byte length prefix"
  | truncatedKey declared carried =>
    "physical key declares " ++ toString declared ++ " key bytes but carries " ++ toString carried

/-! ### The storage engine -/

/-- The calls of a storage engine that may fail on their own account. -/
inductive EngineCall
  | begin
  | get
  | put
  | delete
  | iterator
  | commit
  | rollback
  | status
  | recentTally
  | olderSize
  deriving DecidableEq, Repr

def EngineCall.name : EngineCall → String
  | begin => "begin"
  | get => "get"
  | put => "put"
  | delete => "delete"
  | iterator => "iterator"
  | commit => "commit"
  | rollback => "rollback"
  | status => "status"
  | recentTally => "memtable_stats"
  | olderSize => "size"

def EngineCall.all : List EngineCall :=
  [begin, get, put, delete, iterator, commit, rollback, status, recentTally, olderSize]

def EngineCall.ofName? (name : String) : Option EngineCall :=
  all.find? fun call => call.name == name

/-- What a storage engine reports. -/
inductive EngineError
  /-- Another transaction committed a write to one of the same keys first. -/
  | conflict (ns : String)
  /-- The namespace was never created. -/
  | namespaceNotFound (ns : String)
  /-- The transaction was committed or rolled back before. -/
  | transactionClosed
  /-- The call failed on its own account, by injection. -/
  | injected (call : EngineCall)
  /-- A size is greater than the greatest word. Nobody recovers from this: the program that asked for the size is broken
  off (`Session.run`). -/
  | overflow
  deriving DecidableEq, Repr

def EngineError.message : EngineError → String
  | conflict ns => "write conflict on namespace " ++ ns
  | namespaceNotFound ns => "namespace " ++ ns ++ " not found"
  | transactionClosed => "transaction already finished"
  | injected call => "I/O error: injected " ++ call.name
  | overflow => "attempt to add with overflow"

/-! ### The index -/

/-- Why a cursor cannot do what it is asked in its present state. -/
inductive CursorFault
  | closed
  /-- The cursor rests on no item. -/
  | unpositioned
  /-- The iterator beneath the cursor no longer rests on an entry. -/
  | lostPosition
  deriving DecidableEq, Repr

def CursorFault.message : CursorFault → String
  | closed => "cursor is closed"
  | unpositioned => "cursor is not positioned"
  | lostPosition => "cursor lost its position"

/-- Why a setting is refused. -/
inductive SettingError
  /-- The level of a log filter directive is none of the known ones. -/
  | unknownLevel
  /-- A log filter directive is not of the form of one. -/
  | malformedDirective
  /-- The value of a field in a log filter directive is a pattern that is refused. -/
  | malformedField (fault : Pattern.Fault)
  /-- Logging was started before. -/
  | loggingStarted
  deriving DecidableEq, Repr

def SettingError.message : SettingError → String
  | unknownLevel =>
    "invalid log filter: error parsing level filter: expected one of \"off\", \"error\", \"warn\", " ++
      "\"info\", \"debug\", \"trace\", or a number 0-5"
  | malformedDirective => "invalid log filter: invalid filter directive"
  | malformedField fault => "invalid log filter: invalid field filter: " ++ fault.message
  | loggingStarted => "logging already initialized"

/-- What an index reports. -/
inductive IndexError
  /-- A key or value cannot be written, or stored bytes cannot be read. -/
  | encoding (cause : EncodingError)
  | storage (cause : EngineError)
  /-- An item does not say which physical key it came from. -/
  | cannotSeek
  | notFound
  /-- A cursor cannot do this now. -/
  | invalidState (cause : CursorFault)
  | invalidArgument (cause : SettingError)
  deriving DecidableEq, Repr

def IndexError.message : IndexError → String
  | encoding cause => "encoding error: " ++ cause.message
  | storage cause => "storage error: " ++ cause.message
  | cannotSeek =>
    "unsupported positioning: value cursors cannot rebuild the owning key"
  | notFound => "not found"
  | invalidState cause => "invalid state: " ++ cause.message
  | invalidArgument cause => "invalid argument: " ++ cause.message

end SecondaryIndex
