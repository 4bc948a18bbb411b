import SecondaryIndex.Proofs.Parallel.IndexStep
import SecondaryIndex.Proofs.Parallel.StoreStep
import SecondaryIndex.Proofs.Session.Program

/-!
# Steps side by side

A step that is not carried out through the extra transaction of the second session, nor through what
was opened in it, is answered alike in alike sessions and leaves them alike (`Sessions.perform`).
-/

namespace SecondaryIndex

namespace Comparison

open Program Session

variable (c : Comparison) {α α' : Type} {A : α → α' → Prop} {owned : List Holding}

/-! ### Steps of cursors -/

/-- Every step of a cursor but one that ends it is a program in step. -/
theorem inStep_cursorProgram (kind : ItemKind) (step : CursorStep)
    {program : CursorM kind.Carrier Answer} (h : cursorProgram kind step = some program) :
    c.InStep program := by
  cases step with
  | next =>
    cases h
    exact c.inStep_next.map _
  | prev =>
    cases h
    exact c.inStep_prev.map _
  | current =>
    cases h
    exact c.inStep_current.map _
  | seek text =>
    obtain ⟨item, -, rfl⟩ := Option.map_eq_some_iff.1 h
    exact (c.inStep_seek item).map _
  | close =>
    cases h
    rintro cursor cursor' db db' hcursors hdb
    obtain ⟨-, hclosed, hdatabases⟩ := c.inStep_close hcursors hdb
    exact ⟨rfl, hclosed, hdatabases⟩
  | state =>
    cases h
    rintro cursor _ db db' ⟨counts⟩ hdb
    exact ⟨rfl, ⟨counts⟩, hdb⟩
  | describe =>
    cases h
    rintro cursor _ db db' ⟨counts⟩ hdb
    exact ⟨rfl, ⟨counts⟩, hdb⟩

/-- The step has the same reply in both sessions, and leaves them alike. -/
structure Replied (owned : List Holding) (step : Step) (r r' : Reply × Session) : Prop where
  outcome : Agree (c.Shows step) r.1.outcome r'.1.outcome
  state? : r'.1.state? = r.1.state?
  sessions : c.Sessions (owned.filter fun other => some other ≠ step.given? r.1.outcome) r.2 r'.2

variable {c} in
/-- A step that takes no handle. -/
theorem Replied.of_takes? {step : Step} (htakes : step.takes? = none) {r r' : Reply × Session}
    (houtcome : Agree c.Answers r.1.outcome r'.1.outcome) (hstate : r'.1.state? = r.1.state?)
    (hsessions : c.Sessions owned r.2 r'.2) : c.Replied owned step r r' := by
  refine ⟨houtcome.mono fun _ _ hanswers _ => hanswers, hstate, ?_⟩
  rw [Step.given?_of_takes? htakes]
  simpa using hsessions

/-- A step of a cursor is answered alike, and the cursor it leaves is put back under its handle on both sides. -/
theorem replied_cursor {s s' : Session} (hs : c.Sessions owned s s') {cur : Handle}
    (hnot : (.cursor, cur) ∉ owned) (step : CursorStep) :
    c.Replied owned (.cursor cur step) ((performCursor cur step).run s)
      ((performCursor cur step).run s') := by
  rcases hs.cursor_cases hnot with ⟨hget, hget'⟩ | ⟨kind, cursor, cursor', _ | done, hget, hget', halike⟩
  · rw [run_performCursor_of_none hget, run_performCursor_of_none hget']
    exact .of_takes? rfl (.error _) rfl hs
  · rw [run_performCursor_of_some hget, run_performCursor_of_some hget']
    cases hprogram : cursorProgram kind step with
    | none => exact .of_takes? rfl (.error _) rfl hs
    | some program =>
      obtain ⟨houtcome, hcursors, hdatabases⟩ := c.inStep_cursorProgram kind step hprogram halike hs.database
      refine .of_takes? rfl ?_ ?_ ?_
      · dsimp only
        rw [houtcome]
        cases ((program.run.run cursor).run s.database).1.1 with
        | ok answer => exact .ok (.of_eq rfl)
        | error err => exact .error _
      · dsimp only
        -- the state of a cursor does not show what it counts into
        obtain ⟨m, hcounting⟩ : ∃ m, ((program.run.run cursor').run s'.database).1.2 =
            ((program.run.run cursor).run s.database).1.2.counting m := by
          generalize ((program.run.run cursor').run s'.database).1.2 = after at hcursors ⊢
          cases hcursors
          exact ⟨_, rfl⟩
        rw [hcounting]
        rfl
      · exact hs.update_of_notMem hdatabases (.some (.cursor hcursors))
          (fun other => meaning_insert_cursor s _ other cur _)
          (fun other => meaning_insert_cursor s' _ other cur _) hnot
  · rw [run_performCursor_of_iterated hget, run_performCursor_of_iterated hget']
    exact .of_takes? rfl (.error _) rfl hs

/-- An iteration gives the same, whatever its cursor counts into. -/
theorem tracks_iteration {cur : Handle} (hnot : (.cursor, cur) ∉ owned) (step : IterationStep) :
    Tracks (c.Sessions owned) c.Answers (performIteration cur step) (performIteration cur step) := by
  intro s s' hs
  have hrefused : Agree c.Answers (.error (.noHandle cur) : Except StepError Answer) (.error (.noHandle cur)) ∧
      c.Sessions owned s s' := ⟨.error _, hs⟩
  rcases hs.cursor_cases hnot with ⟨hget, hget'⟩ | ⟨kind, cursor, cursor', done?, hget, hget', halike⟩
  · rw [run_performIteration_of_none hget, run_performIteration_of_none hget']
    exact hrefused
  · rw [run_performIteration_of_some hget, run_performIteration_of_some hget']
    cases step with
    | start =>
      cases done? with
      | none =>
        exact ⟨.ok (.of_eq rfl), hs.update_of_notMem hs.database (.some (.cursor halike))
          (fun other => meaning_insert_cursor s s.database other cur _)
          (fun other => meaning_insert_cursor s' s'.database other cur _) hnot⟩
      | some done => exact hrefused
    | next =>
      cases done? with
      | none => exact hrefused
      | some done =>
        have hiterations : Cursor.InStep.Iterations c.Cursors ⟨cursor, done⟩ ⟨cursor', done⟩ := ⟨halike, rfl⟩
        obtain ⟨houtcome, hmoved, hdatabases⟩ := c.inStep_cursors.items_next hiterations hs.database
        rw [run_iterate_next, run_iterate_next]
        dsimp only
        rw [houtcome, hmoved.done]
        exact ⟨.ok (.of_eq rfl), hs.update_of_notMem hdatabases (.some (.cursor hmoved.cursors))
          (fun other => meaning_insert_cursor s _ other cur _)
          (fun other => meaning_insert_cursor s' _ other cur _) hnot⟩

/-- What ends a cursor does so for cursors that are alike. -/
theorem tracks_endingProgram {kind : ItemKind} {cursor cursor' : Cursor kind.Carrier}
    (h : c.Cursors cursor cursor') (ending : CursorEnding) :
    Tracks c.Databases c.Answers (endingProgram kind cursor ending)
      (endingProgram kind cursor' ending) := by
  cases ending with
  | count => exact .map (c.inStep_cursors.count h) fun _ _ hn => .of_eq (congrArg _ hn)
  | collect => exact .bind (c.inStep_cursors.collect h) fun _ _ hitems => .pure (.of_eq (by rw [hitems]))
  | items => exact .bind (c.tracks_items h) fun _ _ houtcomes => .pure (.of_eq (by rw [houtcomes]))
  | drop =>
    have hrelease : Tracks c.Databases (fun _ _ => True)
        (modifyThe Database cursor.release : IndexM PUnit) (modifyThe Database cursor'.release) :=
      .modify fun _ _ hdb => c.databases_release h hdb
    exact .bind hrelease fun _ _ _ => .pure (.of_eq rfl)

theorem tracks_ending {cur : Handle} (hnot : (.cursor, cur) ∉ owned) (ending : CursorEnding) :
    Tracks (c.Sessions owned) c.Answers (performEnding cur ending) (performEnding cur ending) := by
  intro s s' hs
  rcases hs.cursor_cases hnot with ⟨hget, hget'⟩ | ⟨kind, cursor, cursor', done?, hget, hget', halike⟩
  · rw [run_performEnding_of_none hget, run_performEnding_of_none hget']
    exact ⟨.error _, hs⟩
  · by_cases hfree : done? = none ∨ ending = .drop
    · rw [run_performEnding_of_some hget hfree, run_performEnding_of_some hget' hfree]
      refine c.tracks_session_ofIndex (c.tracks_endingProgram halike ending) _ _ ?_
      exact hs.update_of_notMem hs.database .none
        (fun other => meaning_erase_cursor s s.database other cur)
        (fun other => meaning_erase_cursor s' s'.database other cur) hnot
    · rw [not_or] at hfree
      obtain ⟨done, rfl⟩ := Option.ne_none_iff_exists'.1 hfree.1
      rw [run_performEnding_of_iterated hget hfree.2, run_performEnding_of_iterated hget' hfree.2]
      exact ⟨.error _, hs⟩

/-! ### All steps -/

/-- A step that is not understood is refused in the same words. -/
theorem tracks_refuse {handle? : Option Holding} (hnot : ∀ holding, handle? = some holding → holding ∉ owned) :
    Tracks (c.Sessions owned) c.Answers (refuse handle?) (refuse handle?) := by
  cases handle? with
  | none => exact .throw _
  | some holding =>
    obtain ⟨kind, handle⟩ := holding
    intro s s' hs
    have hheld : s'.isHeld kind handle = s.isHeld kind handle := by
      have hrel := hs.meanings _ (hnot _ rfl)
      rw [isHeld_eq, isHeld_eq]
      generalize s.meaning (kind, handle) = meaning?, s'.meaning (kind, handle) = meaning?' at hrel
      cases hrel <;> rfl
    rw [run_refuse, run_refuse, hheld]
    exact ⟨.error _, hs⟩

theorem replied_of_performs {step : Step} {x : SessionM Answer} (h : c.Performs owned step x x)
    {s s' : Session} (hs : c.Sessions owned s s') (hgo : ¬ FailsWith c.StepStops (x.run s).1)
    (hgo' : ¬ FailsWith c.StepStops (x.run s').1) :
    c.Replied owned step ((reply x).run s) ((reply x).run s') := by
  obtain ⟨hagree, hsessions⟩ := h s s' hs hgo hgo'
  exact ⟨hagree, rfl, hsessions⟩

variable {c} in
/-- A step that is not carried out through what only the second session has is answered alike and
leaves the sessions alike, unless it breaks off one of them by a size that need not be the same in the other. -/
theorem Sessions.perform {s s' : Session} (hs : c.Sessions owned s s') (step : Step)
    (hnot : ∀ holding, step.through? = some holding → holding ∉ owned)
    (hfault : step.isFault = false)
    (hgo : ¬ FailsWith c.StepStops ((Session.perform step).run s).1.outcome)
    (hgo' : ¬ FailsWith c.StepStops ((Session.perform step).run s').1.outcome) :
    c.Replied owned step ((Session.perform step).run s) ((Session.perform step).run s') := by
  cases step with
  | store step =>
    refine c.replied_of_performs (c.performs_store step (fun tx htx => hnot _ ?_) hfault) hs hgo hgo'
    show step.through?.map _ = _
    rw [htx]
    rfl
  | iterator it step =>
    exact c.replied_of_performs (.of_answers (c.tracks_performIterator (hnot _ rfl) step) rfl) hs hgo hgo'
  | index ix half? tx? step =>
    refine c.replied_of_performs (c.performs_index ix half? tx? step fun tx htx => hnot _ ?_) hs hgo hgo'
    rw [htx]
    rfl
  | cursor cur step => exact c.replied_cursor hs (hnot _ rfl) step
  | iteration cur step =>
    exact c.replied_of_performs (.of_answers (c.tracks_iteration (hnot _ rfl) step) rfl) hs hgo hgo'
  | ending cur ending =>
    exact c.replied_of_performs (.of_answers (c.tracks_ending (hnot _ rfl) ending) rfl) hs hgo hgo'
  | unreadable handle? =>
    exact c.replied_of_performs (.of_answers (c.tracks_refuse hnot) rfl) hs hgo hgo'

end Comparison

end SecondaryIndex
