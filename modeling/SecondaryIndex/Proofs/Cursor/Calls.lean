import SecondaryIndex.Proofs.Cursor.Run

/-!
# The calls on a cursor

A `CursorCall` is one call on an open cursor, and `Cursor.perform` makes it. With a healthy iterator
neither the answer nor the cursor afterwards depends on the database: they are `Cursor.respond`, a
function of the cursor alone (`run_perform`). So whatever happens to a database between two calls
on a cursor, the cursor does not notice. The other way round, no transaction notices a call on a cursor
(`perform_idles`).
-/

namespace SecondaryIndex

/-- A call on a cursor. -/
inductive CursorCall (α : Type)
  | next
  | prev
  | seek (item : α)
  | current
  | state
  | close

/-- What a call on a cursor answers; `done` stands for success and nothing beyond. -/
inductive CursorAnswer (α : Type)
  | item (item? : Option α)
  | found (there : Bool)
  | state (state : CursorState)
  | done

namespace Cursor

open Program

variable {α : Type}

/-- Makes a call. -/
def perform : CursorCall α → CursorM α (CursorAnswer α)
  | .next => .item <$> next
  | .prev => .item <$> prev
  | .seek item => .found <$> seek item
  | .current => (fun item => .item (some item)) <$> current
  | .state => (fun cursor => .state cursor.state) <$> getThe (Cursor α)
  | .close => (fun _ => .done) <$> close

/-! ### Answers of the cursor alone -/

/-- Where a step leads if the iterator is healthy. -/
def stepped (cursor : Cursor α) (move : Except IndexError Move) (edge : Position) :
    Except IndexError (Option α) × Cursor α :=
  match move with
  | .error err => (.error err, cursor)
  | .ok .edge => (.ok none, { cursor with position := edge })
  | .ok (.to it) => cursor.landed edge it

/-- Whether a seek that landed on a physical key has found what it was to find. -/
def hits (goal : Bytes) (group : Bool) (physical : Bytes) : Bool :=
  if group then goal.isPrefixOf physical else physical = goal

/-- Where a seek leads that has placed the iterator. -/
def soughtAt (cursor : Cursor α) (goal : Bytes) (group : Bool) : Bool × Cursor α :=
  match (cursor.iterator.seek goal).key? with
  | some physical =>
    (hits goal group physical,
      { cursor with iterator := cursor.iterator.seek goal, position := .resting })
  | none => (false, { cursor with iterator := cursor.iterator.seek goal, position := .pastEnd })

/-- Where a seek leads if the iterator is healthy. -/
def sought (cursor : Cursor α) (item : α) : Except IndexError Bool × Cursor α :=
  match cursor.target item with
  | .error err => (.error err, cursor)
  | .ok (goal, group) => ((cursor.soughtAt goal group).map .ok id)

/-- The item under a cursor. -/
def present (cursor : Cursor α) : Except IndexError α :=
  match cursor.position with
  | .closed => .error (.invalidState .closed)
  | .resting =>
    match cursor.iterator.key? with
    | some physical => (cursor.decode physical).mapError .encoding
    | none => .error (.invalidState .lostPosition)
  | _ => .error (.invalidState .unpositioned)

/-- What a call answers and where it leads if the iterator is healthy. -/
def respond (cursor : Cursor α) : CursorCall α → Except IndexError (CursorAnswer α) × Cursor α
  | .next => (cursor.stepped cursor.forward .pastEnd).map (·.map .item) id
  | .prev => (cursor.stepped cursor.backward .beforeStart).map (·.map .item) id
  | .seek item => (cursor.sought item).map (·.map .found) id
  | .current => (cursor.present.map fun item => .item (some item), cursor)
  | .state => (.ok (.state cursor.state), cursor)
  | .close => (.ok .done, { cursor with position := .closed })

/-! ### Running calls -/

variable (cursor : Cursor α) (db : Database)

theorem run_seek (item : α) :
    ((seek item).run.run cursor).run db =
      match cursor.target item with
      | .error err => ((.error err, cursor), db)
      | .ok (goal, group) =>
        (if db.engine.fails .status then
          (.error (.storage (.injected .status)),
            { cursor with iterator := cursor.iterator.seek goal })
        else (cursor.soughtAt goal group).map .ok id,
          { db with engine := db.engine.drawn .status }) := by
  show ((ExceptT.mk (pure (cursor.target item)) >>= fun _ => _ : CursorM α Bool).run.run cursor).run db =
    _
  rw [run_bind]
  cases htarget : cursor.target item with
  | error err => rfl
  | ok goal =>
    obtain ⟨goal, group⟩ := goal
    show ((walk (cursor.iterator.seek goal) >>= fun _ => _ : CursorM α Bool).run.run cursor).run db = _
    rw [run_bind]
    show ((ofIndex (IndexM.ofEngine Engine.status) >>= fun _ => _ :
      CursorM α Bool).run.run { cursor with iterator := cursor.iterator.seek goal }).run db = _
    rw [run_bind, run_status]
    cases db.engine.fails .status with
    | true => rfl
    | false =>
      dsimp only
      unfold soughtAt hits
      cases (cursor.iterator.seek goal).key? <;> rfl

theorem run_current :
    ((current (α := α)).run.run cursor).run db = ((cursor.present, cursor), db) := by
  unfold current present
  rw [run_bind]
  show (((match cursor.position with
    | .closed => throw (.invalidState .closed)
    | .resting =>
      match cursor.iterator.key? with
      | some physical => read physical
      | none => throw (.invalidState .lostPosition)
    | _ => throw (.invalidState .unpositioned) : CursorM α α)).run.run cursor).run db = _
  cases cursor.position with
  | resting => cases cursor.iterator.key? <;> rfl
  | _ => rfl

/-- With a healthy iterator a call is answered by the cursor alone. -/
theorem run_perform (hstatus : db.engine.fails .status = false) (call : CursorCall α) :
    (((perform call).run.run cursor).run db).1 = cursor.respond call := by
  cases call with
  | next =>
    show (((CursorAnswer.item <$> arrive cursor.forward .pastEnd).run.run cursor).run db).1 = _
    rw [run_map, run_arrive, hstatus]
    unfold respond stepped
    rcases cursor.forward with err | _ | it <;> rfl
  | prev =>
    show (((CursorAnswer.item <$> arrive cursor.backward .beforeStart).run.run cursor).run db).1 = _
    rw [run_map, run_arrive, hstatus]
    unfold respond stepped
    rcases cursor.backward with err | _ | it <;> rfl
  | seek item =>
    show (((CursorAnswer.found <$> seek item).run.run cursor).run db).1 = _
    rw [run_map, run_seek, hstatus]
    dsimp only [respond]
    unfold sought
    rcases cursor.target item with err | ⟨goal, group⟩ <;> rfl
  | current =>
    show ((((fun item => CursorAnswer.item (some item)) <$> current).run.run cursor).run db).1 = _
    rw [run_map, run_current]
    rfl
  | state => rfl
  | close => rfl

section Healthy

variable (hdb : db.engine.faults = .healthy)

include hdb

theorem drawn_status_of_healthy : { db with engine := db.engine.drawn .status } = db := by
  rw [Engine.drawn_of_healthy _ _ hdb]

/-- Without faults a step is taken by the cursor alone, and leaves the database as it is. -/
theorem run_arrive_of_healthy (move : Except IndexError Move) (edge : Position) :
    ((arrive move edge).run.run cursor).run db = (cursor.stepped move edge, db) := by
  rw [run_arrive, Engine.fails_of_healthy _ _ hdb, drawn_status_of_healthy db hdb]
  unfold stepped
  rcases move with err | _ | it <;> rfl

/-- Without faults a call leaves the database as it is, unless it closes the cursor. -/
theorem perform_leaves {call : CursorCall α} (hopen : call ≠ .close) :
    (((perform call).run.run cursor).run db).2 = db := by
  cases call with
  | next =>
    show (((CursorAnswer.item <$> arrive cursor.forward .pastEnd).run.run cursor).run db).2 = db
    rw [run_map, run_arrive_of_healthy cursor db hdb]
  | prev =>
    show (((CursorAnswer.item <$> arrive cursor.backward .beforeStart).run.run cursor).run db).2 = db
    rw [run_map, run_arrive_of_healthy cursor db hdb]
  | seek item =>
    show (((CursorAnswer.found <$> seek item).run.run cursor).run db).2 = db
    rw [run_map, run_seek, drawn_status_of_healthy db hdb]
    rcases cursor.target item with err | ⟨goal, group⟩ <;> rfl
  | current =>
    show ((((fun item => CursorAnswer.item (some item)) <$> current).run.run cursor).run db).2 = db
    rw [run_map, run_current]
  | state => rfl
  | close => exact absurd rfl hopen

end Healthy

/-- No transaction notices a call, whatever comes of it. -/
theorem perform_idles (call : CursorCall α) :
    db.engine.Idles (((perform call).run.run cursor).run db).2.engine := by
  cases call with
  | next =>
    show db.engine.Idles (((CursorAnswer.item <$> next).run.run cursor).run db).2.engine
    rw [run_map]
    exact arrive_idles cursor db cursor.forward .pastEnd
  | prev =>
    show db.engine.Idles (((CursorAnswer.item <$> prev).run.run cursor).run db).2.engine
    rw [run_map]
    exact arrive_idles cursor db cursor.backward .beforeStart
  | seek item =>
    show db.engine.Idles (((CursorAnswer.found <$> seek item).run.run cursor).run db).2.engine
    rw [run_map, run_seek]
    rcases cursor.target item with err | ⟨goal, group⟩
    · exact .refl _
    · exact Engine.idles_drawn _ _
  | current =>
    show db.engine.Idles
      ((((fun item => CursorAnswer.item (some item)) <$> current).run.run cursor).run db).2.engine
    rw [run_map, run_current]
    exact .refl _
  | state => exact .refl _
  | close => exact release_idles cursor db

end Cursor

end SecondaryIndex
