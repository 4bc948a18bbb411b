import SecondaryIndex.Codec.Item
import SecondaryIndex.Index.AnyIndex

/-!
# The steps of a session

A session works on one database through handles, which are names chosen by the caller: of
transactions, raw iterators, indexes and cursors. A step names the handles it uses. Items stand in
steps as text and are read by the kind that the index or cursor of the step has for them.
-/

namespace SecondaryIndex

namespace Session

/-- The name of a handle. -/
abbrev Handle := String

/-- The half of a two-way index that a step is sent to. -/
inductive Half
  /-- The half that leads from keys to values. -/
  | forward
  /-- The half that leads from values to keys. -/
  | reverse
  deriving DecidableEq, Repr

/-- The making of an index. -/
structure IndexSpec where
  name : String
  ns : Namespace
  /-- The namespace of its reverse entries, if it is to be a two-way index. -/
  reverseNs : Option Namespace
  keys : ItemKind
  values : ItemKind
  /-- The options that are asked for; counters are installed on top of them. -/
  options : IndexOptions
  /-- Whether fresh counters are installed. -/
  counted : Bool

/-- A step on the store and its transactions. -/
inductive StoreStep
  | createNamespace (ns : Namespace)
  | hasNamespace (ns : Namespace)
  | flush (ns : Namespace)
  | flushAll
  | openIterators
  | recentTally (ns : Namespace) (range : Range)
  | olderSize (ns : Namespace) (range : Range)
  /-- All keys that a transaction sees, or a fresh one. No fault touches it. -/
  | dump (ns : Namespace) (tx? : Option Handle)
  | begin (tx : Handle)
  /-- Commits; the namespace of a conflict may be kept silent. -/
  | commit (tx : Handle) (hideNamespace : Bool)
  | rollback (tx : Handle)
  | drop (tx : Handle)
  | pending (tx : Handle)
  | get (tx : Handle) (ns : Namespace) (key : Bytes)
  | put (tx : Handle) (ns : Namespace) (key value : Bytes)
  /-- Puts `n` successive words from `first` on, with empty values. -/
  | putRange (tx : Handle) (ns : Namespace) (first : UInt64) (n : Nat)
  | delete (tx : Handle) (ns : Namespace) (key : Bytes)
  | iterator (it : Handle) (tx : Handle) (ns : Namespace) (range : Range)
  | context (tx? : Option Handle)
  | fault (call : EngineCall) (skip times : Nat)
  | clearFaults
  | index (ix : Handle) (spec : IndexSpec)

/-- A step of a raw iterator. -/
inductive IteratorStep
  | seekFirst
  | seekLast
  | seek (key : Bytes)
  | next
  | prev
  | status
  | drop

/-- What the statistics of an index are asked for. -/
inductive StatisticsQuery
  | entries
  | keys
  | valuesOfKey (key : String)
  | values
  | keysWithValue (value : String)

/-- A step of an index. Steps that open a cursor name its handle. -/
inductive IndexStep
  | name
  | lifecycle
  | add (key value : String)
  | addMany (pairs : List (String × String))
  | remove (key value : String)
  | removeAll (key : String)
  | findFirst (key : String)
  | find (cursor : Handle) (key : String)
  | scanKeys (cursor : Handle)
  | scanDistinctKeys (cursor : Handle)
  | scanValues (cursor : Handle)
  | findByValue (cursor : Handle) (value : String)
  | count
  | countKey (key : String)
  | span (key : String)
  | estimateRange (range : Range)
  | estimateKey (key : String)
  | estimateSize
  /-- Asks for a count, adds the pairs of `meanwhile`, and computes the count if `force` says so. -/
  | statistics (query : StatisticsQuery) (budget : Budget) (estimateOk : Bool)
      (meanwhile : List (String × String)) (force : Bool)
  | describe
  | metrics
  | namespaceName
  | layout
  | physicalKey (key value : String)

/-- A step of a cursor. -/
inductive CursorStep
  | next
  | prev
  | current
  | seek (item : String)
  | close
  | state
  | describe

/-- A step of an iteration over the items of a cursor. -/
inductive IterationStep
  /-- Makes an iteration of a cursor. From then on the cursor takes no steps of its own. -/
  | start
  | next
  deriving DecidableEq

/-- A step that uses a cursor up. -/
inductive CursorEnding
  | count
  | collect
  /-- Iterates over all items that remain. -/
  | items
  /-- Drops the cursor, or the iteration that it is used for. -/
  | drop
  deriving DecidableEq

/-- What a handle stands for. -/
inductive HandleKind
  | transaction
  | iterator
  | index
  | cursor
  deriving DecidableEq, Repr

/-- A step of a session. -/
inductive Step
  | store (step : StoreStep)
  | iterator (it : Handle) (step : IteratorStep)
  /-- A step of an index or of one of its halves, within a transaction or auto-committing. -/
  | index (ix : Handle) (half? : Option Half) (tx? : Option Handle) (step : IndexStep)
  | cursor (c : Handle) (step : CursorStep)
  | iteration (c : Handle) (step : IterationStep)
  | ending (c : Handle) (ending : CursorEnding)
  /-- A step that cannot be read any further than to the handle it is sent to, if even that. -/
  | unreadable (handle? : Option (HandleKind × Handle))

end Session

end SecondaryIndex
