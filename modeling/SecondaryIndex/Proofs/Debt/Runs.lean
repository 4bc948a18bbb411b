import SecondaryIndex.Proofs.Debt.Session

/-!
# Nothing leaks, and nothing is released twice

The books of a session are read off its handles: as many iterators are open as raw iterators and unclosed
cursors are alive, and counters that are shared by any number of indexes count as open the unclosed
cursors that they have taken notice of (`Session.Runs.leaks_nothing`).

A cursor may be closed, dropped, used up in one step, or iterated over step by step and given up in the middle. Over
any steps that are sent to it, it is released once if it was alive before them and is not afterwards, and not at all
otherwise (`Session.Passes`), whether the calls on the way succeed or fail. Which steps leave it alive and which do
not is said by `Session.ReleasedOnce`: the step of an iteration that gives no item is the last one.
-/

namespace SecondaryIndex

namespace CursorHandle

/-- One for a cursor that is not closed. -/
def alive (held : CursorHandle) : Nat := if held.cursor.isClosed then 0 else 1

/-- A cursor owes the release of its iterator as long as it is alive. -/
theorem debt_fst (held : CursorHandle) : held.cursor.debt.1 = held.alive := by
  rw [Cursor.debt, alive]
  split <;> rfl

/-- The notice of its closing is owed to the counters that have taken notice of its opening. -/
theorem debt_snd (held : CursorHandle) (id : MetricsId) :
    held.cursor.debt.2 id = if held.cursor.metrics = some id then held.alive else 0 := by
  rw [Cursor.debt, alive]
  cases held.cursor.isClosed with
  | true => simp
  | false => simp [Debt.iterator, Debt.notice]

/-- Whether a cursor is alive is a matter of whether it is closed. -/
theorem alive_eq {held held' : CursorHandle} (h : held'.cursor.isClosed = held.cursor.isClosed) :
    held'.alive = held.alive := by
  rw [alive, alive, h]

end CursorHandle

namespace Session

open Program

variable {α : Type} {s : Session}

/-! ### Who is alive -/

/-- The cursors that are not closed. -/
def openCursors (s : Session) : List CursorHandle :=
  s.cursors.values.filter fun held => !held.cursor.isClosed

/-- How many of some cursors are counted by the counters of a number. -/
def countedBy (cursors : List CursorHandle) (id : MetricsId) : Nat :=
  cursors.countP fun held => held.cursor.metrics = some id

/-- Together, some cursors owe one iterator for each that is not closed, and to each set of counters one notice for
each of these that it counts. -/
theorem sum_debt (cursors : List CursorHandle) :
    (cursors.map fun held => held.cursor.debt).sum =
      ((cursors.filter fun held => !held.cursor.isClosed).length,
        countedBy (cursors.filter fun held => !held.cursor.isClosed)) := by
  induction cursors with
  | nil => rfl
  | cons held cursors ih =>
    rw [List.map_cons, List.sum_cons, ih, Cursor.debt]
    cases hclosed : held.cursor.isClosed with
    | true => simp [hclosed]
    | false =>
      refine Prod.ext ?_ (funext fun id => ?_)
      · simp [hclosed, Debt.iterator, Debt.notice, Nat.add_comm]
      · simp [hclosed, Debt.iterator, Debt.notice, countedBy, List.countP_cons, Nat.add_comm]

/-- What is owed by all handles can be counted off them. -/
theorem debt_eq (s : Session) :
    s.debt = (s.iterators.size + s.openCursors.length, countedBy s.openCursors) := by
  have hiterators : (s.iterators.sum fun _ => Debt.iterator) = (s.iterators.size, 0) := by
    unfold SortedMap.sum SortedMap.values SortedMap.size
    induction s.iterators.entries with
    | nil => rfl
    | cons entry entries ih =>
      rw [List.map_cons, List.map_cons, List.sum_cons, ih, List.length_cons, Nat.add_comm]
      rfl
  have hcursors : (s.cursors.sum fun held => held.cursor.debt) = _ := sum_debt s.cursors.values
  rw [debt, hiterators, hcursors]
  exact Prod.ext rfl (zero_add _)

/-! ### The end of a cursor -/

/-- What counts no opening leaves the number of openings. -/
theorem opened_observe {db : Database} {count : Counters → Counters}
    (hcount : ∀ c, (count c).opened = c.opened) (id? : Option MetricsId) (id : MetricsId) :
    ((db.observe id? count).counters id).opened = (db.counters id).opened := by
  rw [Database.counters_observe]
  split
  · exact hcount _
  · rfl

/-- To release a cursor is to count at most a closing. -/
theorem opened_release (cursor : Cursor α) (db : Database) (id : MetricsId) :
    ((cursor.release db).counters id).opened = (db.counters id).opened := by
  unfold Cursor.release
  split
  · rfl
  · have hclosed : ∀ c, (Counters.countClosed c).opened = c.opened := fun _ => rfl
    exact opened_observe hclosed cursor.metrics id

/-- A step of a cursor counts nothing at all. -/
theorem metrics_next (cursor : Cursor α) (db : Database) :
    ((Cursor.next.run.run cursor).run db).2.metrics = db.metrics := by
  show (((Cursor.arrive cursor.forward .pastEnd).run.run cursor).run db).2.metrics = _
  rw [Cursor.run_arrive]
  rcases cursor.forward with err | _ | it <;> rfl

section Opened

variable {db : Database} {id : MetricsId} {opened : Nat}

theorem opened_of_next (cursor : Cursor α) (db : Database) (h : (db.counters id).opened = opened) :
    (((Cursor.next.run.run cursor).run db).2.counters id).opened = opened := by
  rw [← h]
  unfold Database.counters
  rw [metrics_next]

theorem opened_of_release (cursor : Cursor α) (db : Database) (h : (db.counters id).opened = opened) :
    ((cursor.release db).counters id).opened = opened := (opened_release cursor db id).trans h

end Opened

/-- However a cursor is used up, no opening is counted. -/
theorem opened_endingProgram (kind : ItemKind) (cursor : Cursor kind.Carrier) (ending : CursorEnding)
    (db : Database) (id : MetricsId) :
    (((endingProgram kind cursor ending).run db).2.counters id).opened = (db.counters id).opened := by
  have hcollect : ((cursor.collect.run db).2.counters id).opened = (db.counters id).opened :=
    Cursor.collect_keeps cursor db (fun db' => (db'.counters id).opened = (db.counters id).opened) rfl
      opened_of_next opened_of_release fun _ _ n h =>
        (opened_observe (fun c => (Counters.countsAside_scan n c).1) _ id).trans h
  cases ending with
  | count =>
    show (((Answer.number <$> cursor.count).run db).2.counters id).opened = _
    rw [Cursor.count_eq, run_map, run_map]
    exact hcollect
  | collect =>
    have hstate : ((endingProgram kind cursor .collect).run db).2 = (cursor.collect.run db).2 := by
      show ((cursor.collect >>= fun items => pure _ : IndexM Answer).run db).2 = _
      rw [run_bind]
      rcases cursor.collect.run db with ⟨_ | items, db'⟩ <;> rfl
    rw [hstate]
    exact hcollect
  | items =>
    exact Cursor.items_keeps cursor db (fun db' => (db'.counters id).opened = (db.counters id).opened)
      rfl opened_of_next opened_of_release
  | drop => exact opened_release cursor db id

/-- How many cursors stand under a handle that are not closed. -/
def aliveAt (s : Session) (c : Handle) : Nat := (s.cursors.get? c).elim 0 CursorHandle.alive

theorem aliveAt_of_get? {c : Handle} {held : CursorHandle} (h : s.cursors.get? c = some held) :
    s.aliveAt c = held.alive := by
  rw [aliveAt, h]
  rfl

/-- A cursor that is put under a handle is the one that may be alive there. -/
theorem aliveAt_insert (s : Session) (database : Database) (c : Handle) (held : CursorHandle) :
    aliveAt { s with database, cursors := s.cursors.insert c held } c = held.alive :=
  aliveAt_of_get? ((SortedMap.get?_insert ..).trans (if_pos rfl))

/-- From one session to the other a cursor was released so many times that is counted by the given counters,
and nothing was opened. -/
structure Released (id? : Option MetricsId) (times : Nat) (s s' : Session) : Prop where
  iterators : s'.database.engine.store.openIterators + times = s.database.engine.store.openIterators
  opened : ∀ id, (s'.database.counters id).opened = (s.database.counters id).opened
  closed : ∀ id, (s'.database.counters id).closed = (s.database.counters id).closed +
    if id? = some id then times else 0

theorem Released.refl (id? : Option MetricsId) (s : Session) : Released id? 0 s s :=
  ⟨rfl, fun _ => rfl, fun id => by split <;> rfl⟩

/-- What was released on the way is released in all. -/
theorem Released.trans {id? : Option MetricsId} {times times' : Nat} {s s' s'' : Session}
    (h : Released id? times s s') (h' : Released id? times' s' s'') :
    Released id? (times + times') s s'' := by
  refine ⟨?_, fun id => (h'.opened id).trans (h.opened id), fun id => ?_⟩
  · rw [← h.iterators, ← h'.iterators]
    omega
  · rw [h'.closed, h.closed]
    split <;> omega

/-- What was released is what the handles do not owe any more. -/
theorem Released.of_debt {id? : Option MetricsId} {times n m : Nat} {s s' : Session} (hs : s.Owes n 0)
    (hs' : s'.Owes m 0) (hiterators : s.debt.1 = s'.debt.1 + times)
    (hcursors : ∀ id, s.debt.2 id = s'.debt.2 id + if id? = some id then times else 0)
    (hopened : ∀ id, (s'.database.counters id).opened = (s.database.counters id).opened) :
    Released id? times s s' := by
  have hdb := hs.database
  have hdb' := hs'.database
  rw [zero_add] at hdb hdb'
  refine ⟨?_, hopened, fun id => ?_⟩
  · rw [hdb.iterators, hdb'.iterators, hiterators]
  · have hbooks := hdb.cursors id
    have hbooks' := hdb'.cursors id
    rw [hopened, hbooks, hcursors] at hbooks'
    omega

/-- What becomes of the cursor under a handle: it is counted by the same counters as long as it stands
there, it does not come to life again, and it was released if it is not alive any more. -/
structure Passes (c : Handle) (held : CursorHandle) (s s' : Session) : Prop where
  metrics : ∀ held', s'.cursors.get? c = some held' → held'.cursor.metrics = held.cursor.metrics
  aliveAt_le : s'.aliveAt c ≤ held.alive
  released : Released held.cursor.metrics (held.alive - s'.aliveAt c) s s'

namespace Passes

variable {n m : Nat} {c : Handle} {held held' : CursorHandle} {s s' s'' : Session}

/-- A cursor that nothing is done with is as alive as before. -/
theorem refl (h : s.cursors.get? c = some held) : Passes c held s s := by
  refine ⟨fun held' hget => ?_, (aliveAt_of_get? h).le, ?_⟩
  · obtain rfl : held = held' := Option.some.inj (h.symm.trans hget)
    rfl
  · rw [aliveAt_of_get? h, Nat.sub_self]
    exact .refl _ _

/-- What becomes of a cursor first, and what becomes then of the one that is left under its handle, is what becomes
of it in all. -/
theorem trans (h : Passes c held s s') (hget : s'.cursors.get? c = some held') (h' : Passes c held' s' s'') :
    Passes c held s s'' := by
  have hmetrics := h.metrics held' hget
  have halive := aliveAt_of_get? hget
  have hle := h.aliveAt_le
  have hle' := h'.aliveAt_le
  have hreleased := h'.released
  rw [hmetrics] at hreleased
  refine ⟨fun held'' hget' => (h'.metrics held'' hget').trans hmetrics, by omega, ?_⟩
  have hsum : held.alive - s'.aliveAt c + (held'.alive - s''.aliveAt c) = held.alive - s''.aliveAt c := by
    omega
  exact hsum ▸ h.released.trans hreleased

/-- The cursor still stands under the handle. -/
theorem of_insert (hs : s.Owes n 0) (hget : s.cursors.get? c = some held) (database : Database)
    (hs' : Owes m 0 { s with database, cursors := s.cursors.insert c held' })
    (hmetrics : held'.cursor.metrics = held.cursor.metrics) (hle : held'.alive ≤ held.alive)
    (hopened : ∀ id, (database.counters id).opened = (s.database.counters id).opened) :
    Passes c held s { s with database, cursors := s.cursors.insert c held' } := by
  have hget' : (s.cursors.insert c held').get? c = some held' := by
    rw [SortedMap.get?_insert, if_pos rfl]
  have halive := s.aliveAt_insert database c held'
  have hdebt' : debt { s with database, cursors := s.cursors.insert c held' } =
      held'.cursor.debt + debt { s with cursors := s.cursors.erase c } := debt_withCursor s c held'
  refine ⟨fun other hother => ?_, halive.trans_le hle, .of_debt hs hs' ?_ (fun id => ?_) hopened⟩
  · obtain rfl : held' = other := Option.some.inj (hget'.symm.trans hother)
    exact hmetrics
  -- the rest of what is owed is the same before and after
  · rw [halive, hdebt', debt_of_cursor hget, Prod.fst_add, Prod.fst_add, CursorHandle.debt_fst,
      CursorHandle.debt_fst]
    omega
  · rw [halive, hdebt', debt_of_cursor hget, Prod.snd_add, Prod.snd_add, Pi.add_apply, Pi.add_apply,
      CursorHandle.debt_snd, CursorHandle.debt_snd, hmetrics]
    split <;> omega

/-- The cursor is gone. -/
theorem of_erase (hs : s.Owes n 0) (hget : s.cursors.get? c = some held) {database : Database}
    (hs' : Owes m 0 { s with database, cursors := s.cursors.erase c })
    (hopened : ∀ id, (database.counters id).opened = (s.database.counters id).opened) :
    Passes c held s { s with database, cursors := s.cursors.erase c } := by
  have hget' : (s.cursors.erase c).get? c = none := by
    rw [SortedMap.get?_erase, if_pos rfl]
  have halive : aliveAt { s with database, cursors := s.cursors.erase c } c = 0 := by
    rw [aliveAt, hget']
    rfl
  have hdebt' : debt { s with database, cursors := s.cursors.erase c } =
      debt { s with cursors := s.cursors.erase c } := rfl
  refine ⟨fun other hother => ?_, halive.trans_le (Nat.zero_le _), .of_debt hs hs' ?_ (fun id => ?_) hopened⟩
  · cases hget'.symm.trans hother
  · rw [halive, hdebt', debt_of_cursor hget, Prod.fst_add, CursorHandle.debt_fst, Nat.sub_zero, Nat.add_comm]
  · rw [halive, hdebt', debt_of_cursor hget, Prod.snd_add, Pi.add_apply, CursorHandle.debt_snd, Nat.sub_zero,
      Nat.add_comm]

end Passes

/-! ### Steps that are sent to a cursor -/

/-- Whether a step is sent to the cursor of a handle. -/
def Step.isOf (c : Handle) : Step → Prop
  | .cursor c' _ | .iteration c' _ | .ending c' _ => c' = c
  | _ => False

/-- A step of a cursor that does not close it leaves it as open as it was, and counts nothing. -/
theorem cursorProgram_still {kind : ItemKind} {step : CursorStep} {program : CursorM kind.Carrier Answer}
    (h : cursorProgram kind step = some program) (hstep : step ≠ .close) (cursor : Cursor kind.Carrier)
    (db : Database) :
    cursor.OwesAs ((program.run.run cursor).run db).1.2 ∧
      ((program.run.run cursor).run db).2.metrics = db.metrics := by
  -- arriving draws a fate and counts nothing
  have harrive (move : Except IndexError Move) (edge : Position) :
      (((Cursor.arrive move edge).run.run cursor).run db).2.metrics = db.metrics := by
    rw [Cursor.run_arrive]
    rcases move with err | _ | it <;> rfl
  cases step with
  | next =>
    cases h
    rw [Cursor.run_map]
    exact ⟨Cursor.owesAs_next cursor db, harrive cursor.forward .pastEnd⟩
  | prev =>
    cases h
    rw [Cursor.run_map]
    exact ⟨Cursor.owesAs_prev cursor db, harrive cursor.backward .beforeStart⟩
  | current =>
    cases h
    rw [Cursor.run_map, Cursor.run_current]
    exact ⟨.refl cursor, rfl⟩
  | seek text =>
    obtain ⟨item, -, rfl⟩ := Option.map_eq_some_iff.1 h
    rw [Cursor.run_map]
    refine ⟨Cursor.owesAs_seek item cursor db, ?_⟩
    show (((Cursor.seek item).run.run cursor).run db).2.metrics = _
    rw [Cursor.run_seek]
    cases cursor.target item <;> rfl
  | close => exact absurd rfl hstep
  | state =>
    cases h
    exact ⟨.refl cursor, rfl⟩
  | describe =>
    cases h
    exact ⟨.refl cursor, rfl⟩

/-- A step of an iteration gives an item and leaves the cursor as open as it was, or it is the last one and leaves it
closed. -/
theorem items_next_closes (iteration : CursorItems α) (hdone : iteration.done = false) (db : Database) :
    let r := (CursorItems.next.run iteration).run db
    r.1.2.cursor.metrics = iteration.cursor.metrics ∧
      match r.1.1 with
      | some (.ok _) => r.1.2.cursor.isClosed = iteration.cursor.isClosed
      | _ => r.1.2.cursor.isClosed = true := by
  have hnext := Cursor.owesAs_next iteration.cursor db
  dsimp only
  rw [Cursor.run_items_next, if_neg (by simp [hdone])]
  rcases hrun : (Cursor.next.run.run iteration.cursor).run db with ⟨⟨_ | _ | item, cursor'⟩, db'⟩ <;>
    rw [hrun] at hnext
  · exact ⟨hnext.metrics, rfl⟩
  · exact ⟨hnext.metrics, rfl⟩
  · exact ⟨hnext.metrics, hnext.isClosed⟩

/-- An iteration that is done gives nothing and does nothing. -/
theorem iterate_of_done {c : Handle} {kind : ItemKind} {cursor : Cursor kind.Carrier}
    (h : s.cursors.get? c = some ⟨kind, cursor, some true⟩) :
    (perform (.iteration c .next)).run s = ({ outcome := .ok (.iterated none) }, s) := by
  show (Session.reply (performIteration c .next)).run s = _
  have hrun : (performIteration c .next).run s = (.ok (.iterated none), s) := by
    rw [run_performIteration_of_some h, run_iterate_next, Cursor.run_items_next]
    show (_, { s with cursors := s.cursors.insert c ⟨kind, cursor, some true⟩ }) = _
    rw [SortedMap.insert_of_get? h]
    rfl
  show (({ outcome := ((performIteration c .next).run s).1 } : Reply), ((performIteration c .next).run s).2) = _
  rw [hrun]

/-- Where no cursor stands there is nothing to send a step to. -/
theorem perform_of_none {c : Handle} (h : s.cursors.get? c = none) {step : Step} (hstep : step.isOf c) :
    ((perform step).run s).2 = s := by
  cases step with
  | cursor c' step =>
    obtain rfl : c' = c := hstep
    show ((performCursor c' step).run s).2 = s
    rw [run_performCursor_of_none h]
  | iteration c' step =>
    obtain rfl : c' = c := hstep
    show ((performIteration c' step).run s).2 = s
    rw [run_performIteration_of_none h]
  | ending c' ending =>
    obtain rfl : c' = c := hstep
    show ((performEnding c' ending).run s).2 = s
    rw [run_performEnding_of_none h]
  | _ => exact hstep.elim

theorem admits_of_isOf {c : Handle} {step : Step} (h : step.isOf c) (s : Session) : s.Admits step := by
  cases step with
  | store step => exact h.elim
  | _ => trivial

section Steps

variable {n : Nat} {c : Handle} {held : CursorHandle}

/-- A step of a cursor releases it only by closing it. -/
theorem passes_cursor (hs : s.Owes n 0) (hget : s.cursors.get? c = some held) (step : CursorStep) :
    Passes c held s ((perform (.cursor c step)).run s).2 := by
  obtain ⟨m, hs'⟩ := hs.perform (.cursor c step) trivial
  change Owes m 0 ((performCursor c step).run s).2 at hs'
  show Passes c held s ((performCursor c step).run s).2
  obtain ⟨kind, cursor, _ | done⟩ := held
  · rw [run_performCursor_of_some hget] at hs' ⊢
    cases hprogram : cursorProgram kind step with
    | none => exact .refl hget
    | some program =>
      rw [hprogram] at hs'
      by_cases hclose : step = .close
      · subst hclose
        cases hprogram
        exact .of_insert hs hget _ hs' rfl (Nat.zero_le _) fun id => opened_release cursor s.database id
      · obtain ⟨howes, hmetrics⟩ := cursorProgram_still hprogram hclose cursor s.database
        refine .of_insert hs hget _ hs' howes.metrics (CursorHandle.alive_eq howes.isClosed).le fun id => ?_
        unfold Database.counters
        rw [hmetrics]
  · rw [run_performCursor_of_iterated hget]
    exact .refl hget

/-- A step of an iteration releases its cursor if it is the last one. A step after that finds the cursor closed. -/
theorem passes_iteration (hs : s.Owes n 0) (hget : s.cursors.get? c = some held) (step : IterationStep) :
    Passes c held s ((perform (.iteration c step)).run s).2 := by
  obtain ⟨m, hs'⟩ := hs.perform (.iteration c step) trivial
  change Owes m 0 ((performIteration c step).run s).2 at hs'
  rw [run_performIteration_of_some hget] at hs'
  show Passes c held s ((performIteration c step).run s).2
  rw [run_performIteration_of_some hget]
  obtain ⟨kind, cursor, done?⟩ := held
  cases step with
  | start =>
    cases done? with
    | none => exact .of_insert hs hget s.database hs' rfl le_rfl fun _ => rfl
    | some done => exact .refl hget
  | next =>
    match done? with
    | none => exact .refl hget
    | some true =>
      -- an iteration that is done answers without its cursor
      have hdone := congrArg Prod.snd (iterate_of_done hget)
      change ((performIteration c .next).run s).2 = s at hdone
      rw [run_performIteration_of_some hget] at hdone
      rw [hdone]
      exact .refl hget
    | some false =>
      rw [run_iterate_next] at hs' ⊢
      obtain ⟨hmetrics, hclosed⟩ := items_next_closes ⟨cursor, false⟩ rfl s.database
      refine .of_insert hs hget _ hs' hmetrics ?_ fun id => ?_
      · split at hclosed
        · exact (CursorHandle.alive_eq hclosed).le
        · rw [CursorHandle.alive, if_pos hclosed]
          exact Nat.zero_le _
      · exact Cursor.items_next_keeps s.database (fun db => (db.counters id).opened = (s.database.counters id).opened)
          ⟨cursor, false⟩ rfl opened_of_next opened_of_release

/-- An ending releases a cursor that is alive, and nothing if the cursor was closed or is being iterated over. -/
theorem passes_ending (hs : s.Owes n 0) (hget : s.cursors.get? c = some held) (ending : CursorEnding) :
    Passes c held s ((perform (.ending c ending)).run s).2 := by
  obtain ⟨m, hs'⟩ := hs.perform (.ending c ending) trivial
  change Owes m 0 ((performEnding c ending).run s).2 at hs'
  show Passes c held s ((performEnding c ending).run s).2
  obtain ⟨kind, cursor, done?⟩ := held
  by_cases hfree : done? = none ∨ ending = .drop
  · rw [run_performEnding_of_some hget hfree] at hs' ⊢
    exact .of_erase hs hget hs' fun id => opened_endingProgram kind cursor ending s.database id
  · rw [not_or] at hfree
    obtain ⟨done, rfl⟩ := Option.ne_none_iff_exists'.1 hfree.1
    rw [run_performEnding_of_iterated hget hfree.2]
    exact .refl hget

/-- Whatever is sent to a cursor, it is released if it is alive before and not afterwards. -/
theorem passes_step (hs : s.Owes n 0) (hget : s.cursors.get? c = some held) {step : Step}
    (hstep : step.isOf c) : Passes c held s ((perform step).run s).2 := by
  cases step with
  | cursor c' step =>
    obtain rfl : c' = c := hstep
    exact passes_cursor hs hget step
  | iteration c' step =>
    obtain rfl : c' = c := hstep
    exact passes_iteration hs hget step
  | ending c' ending =>
    obtain rfl : c' = c := hstep
    exact passes_ending hs hget ending
  | _ => exact hstep.elim

/-- Over all steps that are sent to a cursor it is released once, if it was alive before and is not afterwards. -/
theorem passes_after (hs : s.Owes n 0) (hget : s.cursors.get? c = some held) {steps : List Step}
    (hsteps : ∀ step ∈ steps, step.isOf c) : Passes c held s (s.carryOut steps).2 := by
  induction steps generalizing s n held with
  | nil => exact .refl hget
  | cons step steps ih =>
    obtain ⟨hstep, hrest⟩ := List.forall_mem_cons.1 hsteps
    have hpasses := passes_step hs hget hstep
    obtain ⟨m, hs'⟩ := hs.perform step (admits_of_isOf hstep s)
    rw [carryOut_cons]
    cases hget' : ((perform step).run s).2.cursors.get? c with
    | some held' => exact hpasses.trans hget' (ih hs' hget' hrest)
    | none =>
      -- no further step finds the cursor
      have hstill : (((perform step).run s).2.carryOut steps).2 = ((perform step).run s).2 := by
        generalize ((perform step).run s).2 = t at hget'
        clear ih hsteps
        induction steps with
        | nil => rfl
        | cons next steps ih =>
          obtain ⟨hnext, hrest⟩ := List.forall_mem_cons.1 hrest
          rw [carryOut_cons, perform_of_none hget' hnext]
          exact ih hrest
      rw [hstill]
      exact hpasses

/-- A cursor is released once, by whatever is done with it. What is left to release is nothing once it was closed or
used up, once its iteration has come to the end or given an error, and once it was dropped. -/
structure ReleasedOnce (c : Handle) (held : CursorHandle) (s : Session) : Prop where
  steps : ∀ steps : List Step, (∀ step ∈ steps, step.isOf c) → Passes c held s (s.carryOut steps).2
  close : held.done? = none → ((perform (.cursor c .close)).run s).2.aliveAt c = 0
  ending : ∀ ending, held.done? = none ∨ ending = .drop →
    ((perform (.ending c ending)).run s).2.cursors.get? c = none
  start : held.done? = none → ((perform (.iteration c .start)).run s).2.cursors.get? c =
    some { held with done? := some false }
  iteration : held.done? = some false → ∃ outcome?,
    ((perform (.iteration c .next)).run s).1.outcome = .ok (.iterated outcome?) ∧
      ((perform (.iteration c .next)).run s).2.aliveAt c =
        match outcome? with
        | some (.ok _) => held.alive
        | _ => 0

/-- Whoever stands under a handle of a session whose books are in order is released once. -/
theorem releasedOnce (hs : s.Owes n 0) (hget : s.cursors.get? c = some held) : ReleasedOnce c held s where
  steps _ hsteps := passes_after hs hget hsteps
  close hfree := by
    obtain ⟨kind, cursor, done?⟩ := held
    obtain rfl : done? = none := hfree
    show ((performCursor c .close).run s).2.aliveAt c = 0
    rw [run_performCursor_of_some hget]
    exact (aliveAt_insert ..).trans rfl
  ending ending hfree := by
    obtain ⟨kind, cursor, done?⟩ := held
    show ((performEnding c ending).run s).2.cursors.get? c = none
    rw [run_performEnding_of_some hget hfree]
    show (s.cursors.erase c).get? c = none
    rw [SortedMap.get?_erase, if_pos rfl]
  start hfree := by
    obtain ⟨kind, cursor, done?⟩ := held
    obtain rfl : done? = none := hfree
    show ((performIteration c .start).run s).2.cursors.get? c = _
    rw [run_performIteration_of_some hget]
    show (s.cursors.insert c ⟨kind, cursor, some false⟩).get? c = _
    rw [SortedMap.get?_insert, if_pos rfl]
  iteration hdone := by
    obtain ⟨kind, cursor, done?⟩ := held
    obtain rfl : done? = some false := hdone
    -- the item decides: with one the cursor is as alive as before, without one it is closed
    obtain ⟨-, hclosed⟩ := items_next_closes ⟨cursor, false⟩ rfl s.database
    refine ⟨_, congrArg Prod.fst ((run_performIteration_of_some hget .next).trans (run_iterate_next ..)), ?_⟩
    show ((performIteration c .next).run s).2.aliveAt c = _
    rw [run_performIteration_of_some hget, run_iterate_next]
    refine (aliveAt_insert ..).trans ?_
    generalize (CursorItems.next.run ⟨cursor, false⟩).run s.database = r at hclosed ⊢
    obtain ⟨⟨_ | _ | item, iteration⟩, db⟩ := r
    · exact if_pos hclosed
    · exact if_pos hclosed
    · exact CursorHandle.alive_eq hclosed

end Steps

/-- Wherever a run leads, and whichever calls failed on the way, as many iterators are open as raw
iterators and unclosed cursors are alive; every set of counters has as many cursors open as unclosed
cursors count into it; and whatever is done with a cursor releases it once. -/
theorem Runs.leaks_nothing {options : StoreOptions} (h : Runs options s) :
    s.database.engine.store.openIterators = s.iterators.size + s.openCursors.length ∧
    (∀ id, (s.database.counters id).closed ≤ (s.database.counters id).opened ∧
      (s.database.counters id).openCursors = countedBy s.openCursors id) ∧
    ∀ c held, s.cursors.get? c = some held → ReleasedOnce c held s := by
  obtain ⟨n, hs⟩ := h.balanced
  have hdatabase := hs.database
  rw [zero_add, debt_eq] at hdatabase
  refine ⟨hdatabase.iterators, fun id => ?_, fun c held hget => releasedOnce hs hget⟩
  have hcursors := hdatabase.cursors id
  refine ⟨Nat.le.intro hcursors.symm, ?_⟩
  rw [Counters.openCursors, hcursors]
  exact Nat.add_sub_cancel_left _ _

/-- One cursor is refused by a failing commit after its iterator was opened, another one is ended by an
unhealthy iterator in the middle of a drain, a third one is dropped in the middle of an iteration, and a
fourth one is alive. -/
theorem leaks_nothing_of_failures :
    ∃ s : Session, Runs {} s ∧ (s.database.counters 0).opened = 3 ∧
      (s.database.counters 0).closed = 2 ∧ s.iterators.size = 0 ∧ s.openCursors.length = 1 ∧
      s.database.engine.store.openIterators = s.iterators.size + s.openCursors.length ∧
      (s.database.counters 0).openCursors = countedBy s.openCursors 0 := by
  let spec : IndexSpec :=
    { name := "i", ns := "n", reverseNs := none, keys := .text, values := .text, options := {},
      counted := true }
  let on (step : IndexStep) : Step := .index "i" none none step
  have hindexed : Runs {} _ :=
    (Runs.start.step (.store (.createNamespace "n")) trivial).step (.store (.index "i" spec)) nofun
  have hadded := (hindexed.step (on (.add "k" "a")) trivial).step (on (.add "k" "b")) trivial
  have hrefused := (hadded.step (.store (.fault .commit 0 1)) trivial).step
    (on (.find "c" "k")) trivial
  have hdrained := ((hrefused.step (on (.find "c" "k")) trivial).step
    (.store (.fault .status 1 1)) trivial).step (.ending "c" .collect) trivial
  have hiterated := ((hdrained.step (on (.find "c" "k")) trivial).step
    (.iteration "c" .start) trivial).step (.iteration "c" .next) trivial
  have hruns := (hiterated.step (.ending "c" .drop) trivial).step (on (.find "c" "k")) trivial
  exact ⟨_, hruns, by decide +kernel, by decide +kernel, by decide +kernel, by decide +kernel,
    hruns.leaks_nothing.1, (hruns.leaks_nothing.2.1 0).2⟩

end Session

end SecondaryIndex
