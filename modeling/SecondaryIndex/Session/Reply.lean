import SecondaryIndex.Session.Step

/-!
# What a session answers

Each step is answered by a reply: what was asked for, or the error that kept it from being told. A
step that moves a cursor also tells the state of the cursor afterwards.
-/

namespace SecondaryIndex

namespace Session

/-- Why a step was not carried out. -/
inductive StepError
  | engine (cause : EngineError)
  | index (cause : IndexError)
  | noHandle (handle : Handle)
  /-- The step does not make sense. -/
  | badInput
  deriving DecidableEq, Repr

def StepError.message : StepError → String
  | engine cause => cause.message
  | index cause => cause.message
  | noHandle handle => handle
  | badInput => "bad input"

/-- Whether a failure breaks off the session. -/
def StepError.breaksOff : StepError → Bool
  | engine .overflow => true
  | index (.storage .overflow) => true
  | _ => false

/-- What a step tells. -/
inductive Answer
  /-- Nothing beyond success. -/
  | done
  | flag (value : Bool)
  | number (n : Nat)
  /-- A size, an estimate or another number that may be large. -/
  | large (n : Nat)
  | text (s : String)
  | bytes (bytes : Bytes)
  | lookup (value? : Option Bytes)
  | keys (keys : List Bytes)
  | memtable (stats : Tally)
  /-- The key that an iterator rests on. -/
  | place (key? : Option Bytes)
  | context (auto active defaultAuto : Bool)
  | bounds (lower : Bytes) (upper : Bound)
  | namespaceName (ns : Namespace)
  | item (text : String)
  /-- The cursor stepped off an edge. -/
  | noItem
  | items (texts : List String)
  /-- What a step of an iteration gives. -/
  | iterated (outcome? : Option (Except IndexError String))
  /-- The items of an iteration, with the error that ended it if there was one, and whether the
  iteration stays ended. -/
  | iteration (outcomes : List (Except IndexError String)) (fused : Bool)
  /-- The counters of an index that has some. -/
  | counters (counters? : Option Counters)
  /-- A count, and its value if it was computed. -/
  | count (shown : Count) (value? : Option Nat)
  /-- No count fits the budget. -/
  | noCount

/-- The reply to a step. -/
structure Reply where
  outcome : Except StepError Answer
  /-- The state of the cursor of the step. -/
  state? : Option CursorState := none

/-- Whether the session is broken off instead of being replied to. -/
def Reply.breaksOff (reply : Reply) : Bool :=
  match reply.outcome with
  | .ok _ => false
  | .error e => e.breaksOff

end Session

end SecondaryIndex
