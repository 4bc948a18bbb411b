import SecondaryIndex.Session.CursorStep
import SecondaryIndex.Session.IndexStep
import SecondaryIndex.Session.StoreStep

/-!
# Running a session

The steps of a session are carried out in order. A step that fails does not stop the session, unless what it failed
with is an overflow: then the session is broken off, and nothing is replied at all.
-/

namespace SecondaryIndex

namespace Session

/-- Replies with the answer of a program. -/
def reply (program : SessionM Answer) : StateM Session Reply := do
  pure { outcome := ← program.run }

/-- Whether a handle stands for something. -/
def isHeld (session : Session) : HandleKind → Handle → Bool
  | .transaction, tx => session.transactions.contains tx
  | .iterator, it => session.iterators.contains it
  | .index, ix => session.indexes.contains ix
  | .cursor, c => session.cursors.contains c

/-- Refuses a step that cannot be read. That its handle stands for nothing is told first. -/
def refuse (handle? : Option (HandleKind × Handle)) : SessionM Answer := do
  match handle? with
  | some (kind, handle) =>
    if !(← getThe Session).isHeld kind handle then throw (.noHandle handle)
    throw .badInput
  | none => throw .badInput

def perform : Step → StateM Session Reply
  | .store step => reply (performStore step)
  | .iterator it step => reply (performIterator it step)
  | .index ix half? tx? step => reply (performIndex ix half? tx? step)
  | .cursor c step => performCursor c step
  | .iteration c step => reply (performIteration c step)
  | .ending c ending => reply (performEnding c ending)
  | .unreadable handle? => reply (refuse handle?)

/-- The replies to a list of steps, if none of them breaks off the session. -/
def replies? (session : Session) : List Step → Option (List Reply)
  | [] => some []
  | step :: steps => do
    let (reply, session) := (perform step).run session
    if reply.breaksOff then none
    pure (reply :: (← session.replies? steps))

/-- The replies to a list of steps, on an empty store with the given options. -/
def run (options : StoreOptions) (steps : List Step) : Option (List Reply) :=
  (ofOptions options).replies? steps

end Session

end SecondaryIndex
