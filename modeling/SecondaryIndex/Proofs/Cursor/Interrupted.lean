import SecondaryIndex.Proofs.Index.Endings

/-!
# Calls that are interrupted

A call that moves a cursor asks for the health of the iterator once the iterator has moved, and only then
takes note of where it stands. So a call that fails for the health of the iterator leaves the cursor with
its iterator in a new place and everything else as it was (`Cursor.exists_strays_of_interrupted`).

What this comes to depends on where the cursor stood (`Cursor.interrupted_exact`). Where it rests on no item
nothing is lost: the place of the iterator does not matter there, so the two cursors cannot be told apart by
any calls (`Cursor.Agrees.served_eq`). A seek can be repeated from anywhere, since it places the iterator
anew. But a cursor that rests on an item is where its iterator is. A step from there that would have led to
an item has been taken, and only its answer is lost: the next step leads beyond that item. A step that would
have led off the edge leaves the cursor without a position, and a cursor that walks from group to group
cannot be moved by steps any more.
-/

namespace SecondaryIndex

namespace Cursor

variable {α : Type} {cursor cursor' : Cursor α} {db db' : Database} {call : CursorCall α}
  {cause : EngineError}

/-! ### Where the iterator does not matter -/

/-- The cursor with its iterator gone to another place. -/
def strayed (cursor : Cursor α) (place : Option Nat) : Cursor α := cursor.placed place cursor.position

/-- Two cursors differ in the places of their iterators at most, and not at all if they rest. -/
def Agrees (cursor cursor' : Cursor α) : Prop :=
  ∃ place, cursor' = cursor.strayed place ∧ (cursor.position = .resting → place = cursor.iterator.place)

/-- A cursor agrees with itself. -/
theorem Agrees.refl (cursor : Cursor α) : cursor.Agrees cursor := ⟨cursor.iterator.place, rfl, fun _ => rfl⟩

theorem agrees_strayed (h : cursor.position ≠ .resting) (place : Option Nat) :
    cursor.Agrees (cursor.strayed place) := ⟨place, rfl, fun hresting => absurd hresting h⟩

/-- Two runs give the same, but for cursors that agree. -/
structure SameRun {β : Type} (run run' : (Except IndexError β × Cursor α) × Database) : Prop where
  answer : run'.1.1 = run.1.1
  cursor : run.1.2.Agrees run'.1.2
  database : run'.2 = run.2

theorem SameRun.refl {β : Type} (run : (Except IndexError β × Cursor α) × Database) : SameRun run run :=
  ⟨rfl, .refl _, rfl⟩

theorem SameRun.map {β γ : Type} {x y : CursorM α β} {f : β → γ}
    (h : SameRun ((x.run.run cursor).run db) ((y.run.run cursor').run db)) :
    SameRun (((f <$> x).run.run cursor).run db) (((f <$> y).run.run cursor').run db) := by
  rw [run_map, run_map]
  exact ⟨congrArg (Except.map f) h.answer, h.cursor, h.database⟩

theorem run_of_map_error {β γ : Type} {x : CursorM α β} {f : β → γ} {err : IndexError}
    (h : ((f <$> x).run.run cursor).run db = ((.error err, cursor'), db')) :
    (x.run.run cursor).run db = ((.error err, cursor'), db') := by
  rw [run_map] at h
  rcases hrun : (x.run.run cursor).run db with ⟨⟨err' | b, cursor''⟩, db''⟩
  · rw [hrun] at h
    cases h
    rfl
  · rw [hrun] at h
    cases h

/-- A move that does not depend on where the iterator was. -/
theorem sameRun_arrive (hposition : cursor.position ≠ .resting) (place : Option Nat)
    (move : Except IndexError Move) {edge : Position} (hedge : edge ≠ .resting) :
    SameRun (((arrive move edge).run.run cursor).run db)
      (((arrive move edge).run.run (cursor.strayed place)).run db) := by
  rw [run_arrive, run_arrive]
  rcases move with err | _ | it
  · exact ⟨rfl, agrees_strayed hposition place, rfl⟩
  · exact ⟨rfl, ⟨place, rfl, fun hresting => absurd hresting hedge⟩, rfl⟩
  · exact .refl _

/-- Where a cursor rests on no item, what it does next is up to its position. -/
theorem moves_strayed (h : cursor.position ≠ .resting) (place : Option Nat) :
    (cursor.strayed place).forward = cursor.forward ∧ (cursor.strayed place).backward = cursor.backward ∧
      (cursor.strayed place).present = cursor.present := by
  have hposition : (cursor.strayed place).position = cursor.position := rfl
  unfold forward backward present
  rw [hposition]
  cases hcase : cursor.position with
  | resting => exact absurd hcase h
  | unopened | pastEnd | beforeStart | closed => exact ⟨rfl, rfl, rfl⟩

/-- A seek that goes somewhere places the iterator anew. -/
theorem run_seek_strayed (place : Option Nat) {item : α} {goal : Bytes × Bool}
    (h : cursor.target item = .ok goal) :
    ((seek item).run.run (cursor.strayed place)).run db = ((seek item).run.run cursor).run db := by
  have htarget : (cursor.strayed place).target item = .ok goal := h
  rw [run_seek, run_seek, htarget, h]
  rfl

/-- No call tells cursors that agree from each other, and they agree afterwards. -/
theorem Agrees.perform (h : cursor.Agrees cursor') (call : CursorCall α) (db : Database) :
    SameRun (((perform call).run.run cursor).run db) (((perform call).run.run cursor').run db) := by
  obtain ⟨place, rfl, hplace⟩ := h
  by_cases hposition : cursor.position = .resting
  -- a cursor that rests agrees with itself only
  · rw [hplace hposition]
    exact .refl _
  obtain ⟨hforward, hbackward, hpresent⟩ := moves_strayed hposition place
  cases call with
  | next =>
    refine SameRun.map (x := arrive cursor.forward .pastEnd)
      (y := arrive (cursor.strayed place).forward .pastEnd) ?_
    rw [hforward]
    exact sameRun_arrive hposition place _ nofun
  | prev =>
    refine SameRun.map (x := arrive cursor.backward .beforeStart)
      (y := arrive (cursor.strayed place).backward .beforeStart) ?_
    rw [hbackward]
    exact sameRun_arrive hposition place _ nofun
  | seek item =>
    refine SameRun.map (x := seek item) (y := seek item) ?_
    cases htarget : cursor.target item with
    | ok goal =>
      rw [run_seek_strayed place htarget]
      exact .refl _
    | error err =>
      -- a seek that is refused moves neither of the two
      have htarget' : (cursor.strayed place).target item = .error err := htarget
      rw [run_seek, run_seek, htarget, htarget']
      exact ⟨rfl, agrees_strayed hposition place, rfl⟩
  | current =>
    refine SameRun.map (x := current) (y := current) ?_
    rw [run_current, run_current, hpresent]
    exact ⟨rfl, agrees_strayed hposition place, rfl⟩
  | state => exact ⟨rfl, agrees_strayed hposition place, rfl⟩
  | close => exact ⟨rfl, ⟨place, rfl, nofun⟩, rfl⟩

/-- What a cursor answers to calls one after the other, each made in a database of its own. -/
def served (cursor : Cursor α) : List (CursorCall α × Database) → List (Except IndexError (CursorAnswer α))
  | [] => []
  | (call, db) :: calls =>
    let run := (((perform call).run.run cursor).run db).1
    run.1 :: run.2.served calls

/-- However cursors are called that agree, they answer the same. -/
theorem Agrees.served_eq (h : cursor.Agrees cursor') (calls : List (CursorCall α × Database)) :
    cursor'.served calls = cursor.served calls := by
  induction calls generalizing cursor cursor' with
  | nil => rfl
  | cons call calls ih =>
    obtain ⟨call, db⟩ := call
    have hsame := h.perform call db
    exact congrArg₂ List.cons hsame.answer (ih hsame.cursor)

/-! ### What an interrupted call leaves -/

/-- What a step may come to before the iterator has moved: it is refused, though not by the engine, or it is at the
edge, or it has a place for the iterator. -/
inductive Heads (cursor : Cursor α) : Except IndexError Move → Prop
  | refused {err : IndexError} (h : ∀ cause, err ≠ .storage cause) : Heads cursor (.error err)
  | edge : Heads cursor (.ok .edge)
  | goes (place : Option Nat) : Heads cursor (.ok (.to { cursor.iterator with place }))

/-- The bounds of a group are not asked of the engine. -/
theorem spanOf_not_storage {layout : Layout} {err : IndexError} (h : cursor.spanOf layout = .error err) :
    ∀ cause, err ≠ .storage cause := by
  unfold spanOf at h
  split at h
  · cases h
    exact nofun
  · next p hkey =>
    cases hspan : layout.spanOf p with
    | ok span =>
      rw [hspan] at h
      cases h
    | error cause =>
      rw [hspan] at h
      cases h
      exact nofun

/-- A step forward heads for somewhere. -/
theorem heads_forward (cursor : Cursor α) : cursor.Heads cursor.forward := by
  unfold forward
  cases cursor.position with
  | closed => exact .refused nofun
  | pastEnd => exact .edge
  | unopened | beforeStart => exact .goes _
  | resting =>
    cases cursor.stride with
    | entry => exact .goes _
    | group layout =>
      dsimp only
      cases hspan : cursor.spanOf layout with
      | error err => exact .refused (spanOf_not_storage hspan)
      | ok span =>
        obtain ⟨lower, upper⟩ := span
        cases upper with
        | unbounded => exact .edge
        | included bound | excluded bound => exact .goes _

theorem heads_backward (cursor : Cursor α) : cursor.Heads cursor.backward := by
  unfold backward
  cases cursor.position with
  | closed => exact .refused nofun
  | beforeStart => exact .edge
  | unopened | pastEnd => exact .goes _
  | resting =>
    cases cursor.stride with
    | entry => exact .goes _
    | group layout =>
      dsimp only
      cases hspan : cursor.spanOf layout with
      | error err => exact .refused (spanOf_not_storage hspan)
      | ok span => exact .goes _

/-- However a step ends, all that it may change is where the cursor stands. -/
theorem exists_placed_of_arrive {move : Except IndexError Move} (hmove : cursor.Heads move) (edge : Position)
    (db : Database) : ∃ place position,
      (((arrive move edge).run.run cursor).run db).1.2 = cursor.placed place position := by
  rw [run_arrive]
  cases hmove with
  | refused h => exact ⟨cursor.iterator.place, cursor.position, rfl⟩
  | edge => exact ⟨cursor.iterator.place, edge, rfl⟩
  | goes place =>
    dsimp only
    split
    · exact ⟨place, cursor.position, rfl⟩
    · unfold landed
      split
      · exact ⟨place, .resting, rfl⟩
      · exact ⟨place, edge, rfl⟩

/-- All that a call may change of a cursor is where it stands. -/
theorem exists_placed_of_perform (cursor : Cursor α) (call : CursorCall α) (db : Database) :
    ∃ place position, (((perform call).run.run cursor).run db).1.2 = cursor.placed place position := by
  cases call with
  | next =>
    show ∃ place position,
      (((CursorAnswer.item <$> arrive cursor.forward .pastEnd).run.run cursor).run db).1.2 = _
    simp only [run_map]
    exact exists_placed_of_arrive cursor.heads_forward .pastEnd db
  | prev =>
    show ∃ place position,
      (((CursorAnswer.item <$> arrive cursor.backward .beforeStart).run.run cursor).run db).1.2 = _
    simp only [run_map]
    exact exists_placed_of_arrive cursor.heads_backward .beforeStart db
  | seek item =>
    show ∃ place position, (((CursorAnswer.found <$> seek item).run.run cursor).run db).1.2 = _
    simp only [run_map, run_seek]
    split
    -- a target that is refused moves nothing
    · exact ⟨cursor.iterator.place, cursor.position, rfl⟩
    · next goal group htarget =>
      dsimp only
      split
      -- the iterator has moved, and asking its health failed
      · exact ⟨(cursor.iterator.seek goal).place, cursor.position, rfl⟩
      · show ∃ place position, (cursor.soughtAt goal group).2 = _
        unfold soughtAt
        split
        · exact ⟨(cursor.iterator.seek goal).place, .resting, rfl⟩
        · exact ⟨(cursor.iterator.seek goal).place, .pastEnd, rfl⟩
  | current =>
    show ∃ place position,
      ((((fun item => CursorAnswer.item (some item)) <$> current).run.run cursor).run db).1.2 = _
    simp only [run_map, run_current]
    exact ⟨cursor.iterator.place, cursor.position, rfl⟩
  | state => exact ⟨cursor.iterator.place, cursor.position, rfl⟩
  | close => exact ⟨cursor.iterator.place, .closed, rfl⟩

/-- The cursor at rest in a place, or beyond an edge if nothing is there. -/
def settledAt (cursor : Cursor α) (place : Option Nat) (edge : Position) : Cursor α :=
  match (cursor.strayed place).iterator.key? with
  | some _ => cursor.placed place .resting
  | none => cursor.placed place edge

/-- A call has moved the iterator to a place, and has not settled there. -/
structure Strays (cursor : Cursor α) (call : CursorCall α) (place : Option Nat) (cursor' : Cursor α) :
    Prop where
  strayed : cursor' = cursor.strayed place
  settles : ∃ edge, edge ≠ .resting ∧ (cursor.respond call).2 = cursor.settledAt place edge

theorem landed_eq (place : Option Nat) (edge : Position) :
    (cursor.landed edge { cursor.iterator with place }).2 = cursor.settledAt place edge := by
  unfold landed settledAt
  have hkey : (cursor.strayed place).iterator.key? =
      ({ cursor.iterator with place } : RawIterator).key? := rfl
  rw [hkey]
  cases ({ cursor.iterator with place } : RawIterator).key? <;> rfl

theorem soughtAt_eq (goal : Bytes) (group : Bool) :
    (cursor.soughtAt goal group).2 = cursor.settledAt (cursor.iterator.seek goal).place .pastEnd := by
  unfold soughtAt settledAt
  have hkey : (cursor.strayed (cursor.iterator.seek goal).place).iterator.key? =
      (cursor.iterator.seek goal).key? := rfl
  rw [hkey]
  cases (cursor.iterator.seek goal).key? <;> rfl

/-- What a cursor refuses by itself is not the engine's. -/
theorem target_not_storage {item : α} {err : IndexError} (h : cursor.target item = .error err) :
    ∀ cause, err ≠ .storage cause := by
  have hencoded {encode : α → Except EncodingError Bytes} {group : Bool}
      (h : ((encode item).mapError IndexError.encoding).map (·, group) = .error err) :
      ∀ cause, err ≠ .storage cause := by
    cases hencode : encode item with
    | ok bytes =>
      rw [hencode] at h
      cases h
    | error cause =>
      rw [hencode] at h
      cases h
      exact nofun
  unfold target at h
  split at h
  · cases h
    exact nofun
  · exact hencoded h
  · exact hencoded h
  · cases h
    exact nofun

theorem present_not_storage {err : IndexError} (h : cursor.present = .error err) :
    ∀ cause, err ≠ .storage cause := by
  unfold present at h
  split at h
  · cases h
    exact nofun
  · split at h
    · next p hkey =>
      cases hdecode : cursor.decode p with
      | ok item =>
        rw [hdecode] at h
        cases h
      | error cause =>
        rw [hdecode] at h
        cases h
        exact nofun
    · cases h
      exact nofun
  · cases h
    exact nofun

/-- A step that fails on the side of the engine has asked for the health of the iterator. -/
theorem exists_place_of_interrupted {move : Except IndexError Move} {edge : Position}
    (hmove : cursor.Heads move)
    (hrun : ((arrive move edge).run.run cursor).run db = ((.error (.storage cause), cursor'), db')) :
    ∃ place, cursor' = cursor.strayed place ∧
      (cursor.stepped move edge).2 = cursor.settledAt place edge := by
  cases hmove with
  | refused h =>
    cases hrun
    exact absurd rfl (h cause)
  | edge => cases hrun
  | goes place =>
    refine ⟨place, ?_, landed_eq place edge⟩
    obtain ⟨r, harrive, harrives⟩ := run_arrive_goes cursor db { cursor.iterator with place } edge
    rw [harrive] at hrun
    -- what goes wrong on arrival is either the health of the iterator or an item that cannot be read
    cases harrives with
    | unhealthy hfails =>
      cases hrun
      rfl
    | off hnone => cases hrun
    | unreadable hq hdecode => cases hrun
    | item hq hdecode => cases hrun

/-- A seek that failed in the storage has moved the iterator to its goal. -/
theorem exists_goal_of_interrupted {item : α}
    (hrun : ((seek item).run.run cursor).run db = ((.error (.storage cause), cursor'), db')) :
    ∃ goal, cursor.target item = .ok goal ∧
      cursor' = cursor.strayed (cursor.iterator.seek goal.1).place := by
  rw [run_seek] at hrun
  cases htarget : cursor.target item with
  | error err =>
    rw [htarget] at hrun
    cases hrun
    exact absurd rfl (target_not_storage htarget cause)
  | ok goal =>
    obtain ⟨goal, group⟩ := goal
    rw [htarget] at hrun
    refine ⟨_, rfl, ?_⟩
    cases hfails : db.engine.fails .status with
    | true =>
      rw [hfails] at hrun
      exact (congrArg (fun r => r.1.2) hrun).symm
    | false =>
      rw [hfails] at hrun
      cases hrun

/-- A call that fails on the side of the engine has moved the iterator, and not settled where it moved. -/
theorem exists_strays_of_interrupted
    (hrun : ((perform call).run.run cursor).run db = ((.error (.storage cause), cursor'), db')) :
    ∃ place, cursor.Strays call place cursor' := by
  cases call with
  | next =>
    obtain ⟨place, hstrayed, hsettles⟩ :=
      exists_place_of_interrupted cursor.heads_forward (run_of_map_error hrun)
    exact ⟨place, hstrayed, .pastEnd, nofun, hsettles⟩
  | prev =>
    obtain ⟨place, hstrayed, hsettles⟩ :=
      exists_place_of_interrupted cursor.heads_backward (run_of_map_error hrun)
    exact ⟨place, hstrayed, .beforeStart, nofun, hsettles⟩
  | seek item =>
    obtain ⟨goal, htarget, hstrayed⟩ := exists_goal_of_interrupted (run_of_map_error hrun)
    refine ⟨_, hstrayed, .pastEnd, nofun, ?_⟩
    show (cursor.sought item).2 = _
    unfold sought
    rw [htarget]
    exact soughtAt_eq goal.1 goal.2
  | current =>
    -- reading the current item does not touch the storage
    have hpresent := run_of_map_error hrun
    rw [run_current] at hpresent
    have herr : cursor.present = .error (.storage cause) := congrArg (fun r => r.1.1) hpresent
    exact absurd rfl (present_not_storage herr cause)
  | state => cases hrun
  | close => cases hrun

/-- What is left of a cursor by a call that failed for the health of the iterator. -/
structure Interrupted (cursor : Cursor α) (call : CursorCall α) (cursor' : Cursor α) : Prop where
  /-- The state is as it was. -/
  state : cursor'.state = cursor.state
  /-- Where the cursor rested on no item, it answers everything as if the call had not been made. -/
  unnoticed : cursor.position ≠ .resting → ∀ calls, cursor'.served calls = cursor.served calls
  /-- A seek that is repeated does all that it would have done. -/
  repeatable : ∀ item, call = .seek item → ∀ db,
    ((perform call).run.run cursor').run db = ((perform call).run.run cursor).run db
  /-- From an item, a call that would have led to an item has been made: only its answer is lost. -/
  taken : cursor.position = .resting → (cursor.respond call).2.position = .resting →
    cursor' = (cursor.respond call).2
  /-- From an item, a call that would have led beyond an edge has taken the item away. -/
  lost : cursor.position = .resting → (cursor.respond call).2.position ≠ .resting →
    cursor'.present = .error (.invalidState .lostPosition)
  /-- A cursor that walks from group to group refuses all steps then. -/
  stuck : cursor.position = .resting → (cursor.respond call).2.position ≠ .resting →
    ∀ layout, cursor.stride = .group layout → ∀ step, step = .next ∨ step = .prev →
      cursor'.respond step = (.error (.invalidState .lostPosition), cursor')

/-- Whatever call on a cursor fails for the health of the iterator, in whatever position: it leaves the cursor
as `Interrupted` says. -/
theorem interrupted_exact
    (hrun : ((perform call).run.run cursor).run db = ((.error (.storage cause), cursor'), db')) :
    cursor.Interrupted call cursor' := by
  obtain ⟨place, rfl, edge, hedge, hsettles⟩ := exists_strays_of_interrupted hrun
  -- a call that would have led beyond an edge has led the iterator away from its keys
  have hoff (hbeyond : (cursor.respond call).2.position ≠ .resting) :
      (cursor.strayed place).iterator.key? = none := by
    cases hkey : (cursor.strayed place).iterator.key? with
    | none => rfl
    | some p =>
      unfold settledAt at hsettles
      rw [hkey] at hsettles
      rw [hsettles] at hbeyond
      exact absurd rfl hbeyond
  constructor
  case state => rfl
  case unnoticed =>
    intro hposition
    exact (agrees_strayed hposition place).served_eq
  case repeatable =>
    rintro item rfl db
    obtain ⟨goal, htarget, -⟩ := exists_goal_of_interrupted (run_of_map_error hrun)
    show ((CursorAnswer.found <$> seek item).run.run (cursor.strayed place)).run db =
      ((CursorAnswer.found <$> seek item).run.run cursor).run db
    rw [run_map, run_map, run_seek_strayed place htarget]
  case taken =>
    intro hposition hrests
    unfold settledAt at hsettles
    split at hsettles
    · calc cursor.strayed place
          = cursor.placed place .resting := congrArg (cursor.placed place) hposition
        _ = (cursor.respond call).2 := hsettles.symm
    · rw [hsettles] at hrests
      exact absurd hrests hedge
  case lost =>
    intro hposition hbeyond
    have hresting : (cursor.strayed place).position = .resting := hposition
    unfold present
    rw [hresting, hoff hbeyond]
  case stuck =>
    intro hposition hbeyond layout hstride step hstep
    have hresting : (cursor.strayed place).position = .resting := hposition
    have hgroup : (cursor.strayed place).stride = .group layout := hstride
    -- the bounds of the group are asked of the key under the iterator, and there is none
    have hspan : (cursor.strayed place).spanOf layout = .error (.invalidState .lostPosition) := by
      unfold spanOf
      rw [hoff hbeyond]
    have hforward : (cursor.strayed place).forward = .error (.invalidState .lostPosition) := by
      unfold forward
      simp only [hresting, hgroup, hspan]
      rfl
    have hbackward : (cursor.strayed place).backward = .error (.invalidState .lostPosition) := by
      unfold backward
      simp only [hresting, hgroup, hspan]
      rfl
    rcases hstep with rfl | rfl
    · simp only [respond, hforward]
      rfl
    · simp only [respond, hbackward]
      rfl

/-- A namespace that holds some physical keys, and nothing else is in the database. -/
def holding (ns : Namespace) (keys : List Bytes) : Database :=
  let calls : List StoreCall := [.createNamespace ns, .begin] ++ keys.map (.put 0 ns · []) ++ [.commit 0]
  { engine := calls.foldl (fun e call => ((Engine.perform call).run e).2) (Engine.ofOptions {}) }

/-- The database with an iterator that will be found unhealthy once. -/
def ailing (db : Database) : Database :=
  { db with engine := { db.engine with faults := FaultPlan.healthy.arm .status 0 1 } }

/-- A cursor over the distinct keys, at rest in the last group: the step that would have led past the end is
interrupted. -/
theorem interrupted_exact_past_the_end :
    ∃ (index : Index Bytes Bytes) (db db' : Database) (opened cursor cursor' : Cursor Bytes),
      index.Opens none db Index.fullRange (.group .compact) opened ∧ opened.Roams cursor ∧
      cursor.position = .resting ∧ (cursor.respond .next).2.position = .pastEnd ∧
      ((perform .next).run.run cursor).run (ailing db) =
        ((.error (.storage (.injected .status)), cursor'), db') ∧
      cursor.Interrupted .next cursor' := by
  let index : Index Bytes Bytes := .create "pairs" "users" .verbatim .verbatim {}
  let moved (db : Database) (opened : Cursor Bytes) := (((perform .prev).run.run opened).run db).1
  let failed (db : Database) (cursor : Cursor Bytes) := (((perform .next).run.run cursor).run (ailing db)).1
  obtain ⟨db, hdb⟩ : ∃ db : Database, (((index.scanDistinctKeys none).run db).1.toOption.any fun opened =>
      (moved db opened).1.isOk && decide ((moved db opened).2.position = .resting ∧
        ((moved db opened).2.respond .next).2.position = .pastEnd ∧
        ((next.run.run (moved db opened).2).run (ailing db)).1.1 =
          .error (.storage (.injected .status)))) = true :=
    ⟨holding "users" [[1, 7, 1], [1, 8, 1], [1, 8, 2]], by decide +kernel⟩
  rcases hrun : (index.scanDistinctKeys none).run db with ⟨_ | opened, db'⟩
  · rw [hrun] at hdb
    cases hdb
  · rw [hrun] at hdb
    obtain ⟨hok, hplaced⟩ := Bool.and_eq_true_iff.1 hdb
    obtain ⟨hrests, hpast, hfails⟩ := of_decide_eq_true hplaced
    rcases hprev : ((perform .prev).run.run opened).run db with ⟨⟨_ | answer, cursor⟩, db''⟩
    · simp only [moved, hprev] at hok
      cases hok
    · simp only [moved, hprev] at hrests hpast hfails
      rcases hnext : (next.run.run cursor).run (ailing db) with ⟨⟨outcome, cursor'⟩, db₁⟩
      obtain rfl : outcome = .error (.storage (.injected .status)) := by rwa [hnext] at hfails
      have hfailed : ((perform .next).run.run cursor).run (ailing db) =
          ((.error (.storage (.injected .status)), cursor'), db₁) := by
        show ((CursorAnswer.item <$> next).run.run cursor).run (ailing db) = _
        rw [run_map, hnext]
        rfl
      have hopen : (.prev : CursorCall Bytes) ≠ .close := nofun
      have hroams : opened.Roams cursor := .call .refl hopen hprev
      exact ⟨index, db, db₁, opened, cursor, cursor', .scanDistinctKeys hrun, hroams, hrests, hpast, hfailed,
        interrupted_exact hfailed⟩

/-- A step that is repeated after it was interrupted skips an item, and meanwhile the cursor shows an item that
it has never given. -/
theorem repeated_step_skips_item :
    ∃ (index : Index Bytes Bytes) (db : Database) (range : Range) (opened : Cursor Bytes),
      index.Opens none db range .entry opened ∧
      let cursor := ((next.run.run opened).run db).1.2
      let cursor' := ((next.run.run cursor).run (ailing db)).1.2
      ((next.run.run opened).run db).1.1 = .ok (some [1]) ∧ cursor.present = .ok [1] ∧
      ((next.run.run cursor).run (ailing db)).1.1 = .error (.storage (.injected .status)) ∧
      cursor'.present = .ok [2] ∧
      ((next.run.run cursor).run db).1.1 = .ok (some [2]) ∧
      ((next.run.run cursor').run db).1.1 = .ok (some [3]) := by
  let index : Index Bytes Bytes := .create "pairs" "users" .verbatim .verbatim {}
  obtain ⟨db, hdb⟩ : ∃ db : Database, (((index.find none [7]).run db).1.toOption.any fun opened =>
      let cursor := ((next.run.run opened).run db).1.2
      let cursor' := ((next.run.run cursor).run (ailing db)).1.2
      decide (((next.run.run opened).run db).1.1 = .ok (some [1]) ∧ cursor.present = .ok [1] ∧
        ((next.run.run cursor).run (ailing db)).1.1 = .error (.storage (.injected .status)) ∧
        cursor'.present = .ok [2] ∧
        ((next.run.run cursor).run db).1.1 = .ok (some [2]) ∧
        ((next.run.run cursor').run db).1.1 = .ok (some [3]))) = true :=
    ⟨holding "users" [[1, 7, 1], [1, 7, 2], [1, 7, 3]], by decide +kernel⟩
  rcases hrun : (index.find none [7]).run db with ⟨_ | opened, db'⟩
  · rw [hrun] at hdb
    cases hdb
  · rw [hrun] at hdb
    obtain ⟨range, hopens⟩ := Index.exists_opens_of_find hrun
    exact ⟨index, db, range, opened, hopens, of_decide_eq_true hdb⟩

end Cursor

end SecondaryIndex
