import SecondaryIndex.Session.Basic

/-!
# Steps of a cursor

Most steps keep the cursor and tell its state afterwards, also when they fail. Counting, collecting,
iterating to the end and dropping use it up. A cursor can also be iterated over step by step; from the start of the
iteration on it is moved by the steps of the iteration only, and it can only be dropped.
-/

namespace SecondaryIndex

namespace Session

/-- What a step answers that gives an item, or none beyond an edge. -/
def itemAnswer (kind : ItemKind) : Option kind.Carrier → Answer
  | some item => .item (kind.toText item)
  | none => .noItem

/-- A step as a program on a cursor, unless its item cannot be read. -/
def cursorProgram (kind : ItemKind) : CursorStep → Option (CursorM kind.Carrier Answer)
  | .next => some (itemAnswer kind <$> Cursor.next)
  | .prev => some (itemAnswer kind <$> Cursor.prev)
  | .current => some ((fun item => .item (kind.toText item)) <$> Cursor.current)
  | .seek text => (kind.ofText? text).map fun item => Answer.flag <$> Cursor.seek item
  | .close => some do
    Cursor.close
    pure (.flag (← getThe (Cursor kind.Carrier)).isClosed)
  | .state => some do pure (.flag (← getThe (Cursor kind.Carrier)).isClosed)
  | .describe => some do pure (.text (← getThe (Cursor kind.Carrier)).describe)

/-- Carries out a step of a cursor handle. -/
def performCursor (c : Handle) (step : CursorStep) : StateM Session Reply := do
  let session ← getThe Session
  match session.cursors.get? c with
  | none | some ⟨_, _, some _⟩ => pure { outcome := .error (.noHandle c) }
  | some ⟨kind, cursor, none⟩ =>
    match cursorProgram kind step with
    | none => pure { outcome := .error .badInput }
    | some program =>
      let ((outcome, cursor), database) := (program.run.run cursor).run session.database
      set { session with database, cursors := session.cursors.insert c { kind, cursor } }
      pure ⟨outcome.mapError .index, some cursor.state⟩

/-- Carries out a step of an iteration over a cursor that is held under a handle. -/
def iterate (c : Handle) : IterationStep → CursorHandle → SessionM Answer
  | .start, ⟨kind, cursor, none⟩ => do
    modifyThe Session fun session =>
      { session with cursors := session.cursors.insert c ⟨kind, cursor, some false⟩ }
    pure .done
  | .next, ⟨kind, cursor, some done⟩ => do
    let session ← getThe Session
    let ((outcome?, iteration), database) := (CursorItems.next.run ⟨cursor, done⟩).run session.database
    set { session with
      database
      cursors := session.cursors.insert c ⟨kind, iteration.cursor, some iteration.done⟩ }
    pure (.iterated (outcome?.map fun outcome => outcome.map kind.toText))
  | _, _ => throw (.noHandle c)

def performIteration (c : Handle) (step : IterationStep) : SessionM Answer := do
  iterate c step (← resolve (← getThe Session).cursors c)

/-- The use of a cursor that ends it. -/
def endingProgram (kind : ItemKind) (cursor : Cursor kind.Carrier) : CursorEnding → IndexM Answer
  | .count => Answer.number <$> cursor.count
  | .collect => do pure (.items ((← cursor.collect).map kind.toText))
  | .items => do
    let (outcomes, fused) ← ExceptT.lift cursor.items
    pure (.iteration (outcomes.map fun outcome => outcome.map kind.toText) fused)
  | .drop => do
    modifyThe Database cursor.release
    pure .done

/-- Takes a cursor out of the hands of the session and uses it up. -/
def performEnding (c : Handle) (ending : CursorEnding) : SessionM Answer := do
  let ⟨kind, cursor, done?⟩ ← resolve (← getThe Session).cursors c
  if done?.isSome && ending ≠ .drop then throw (.noHandle c)
  modifyThe Session fun session => { session with cursors := session.cursors.erase c }
  ofIndex (endingProgram kind cursor ending)

end Session

end SecondaryIndex
