import SecondaryIndex.Proofs.Index.Operations
import SecondaryIndex.Session.Run

/-!
# Running the steps of a session

Equations for steps that are not built from programs of an index alone: what is read from the text of an
item or of a question, and what happens to a cursor that is moved or used up. Looking up a handle and
asking for a count leave a session as it is (`Asks`).

A session carries out steps in order and replies to each (`Session.carryOut`). The replies are what a run tells,
unless one of them breaks it off (`Session.run_eq_some_iff`).
-/

namespace SecondaryIndex

namespace Session

open Program

/-! ### Runs -/

section Runs

/-- The replies to steps, and the session that these lead to. -/
def carryOut (session : Session) (steps : List Step) : List Reply × Session :=
  (steps.mapM perform).run session

/-- The session that steps lead to, on an empty store with the given options. -/
def after (options : StoreOptions) (steps : List Step) : Session :=
  ((ofOptions options).carryOut steps).2

/-- None of some steps breaks off the session. -/
def GoesOn (session : Session) (steps : List Step) : Prop :=
  ∀ reply ∈ (session.carryOut steps).1, reply.breaksOff = false

variable (session : Session) (step : Step) (steps : List Step)

/-- The steps are carried out one after the other, each on the session the one before left. -/
theorem carryOut_cons :
    session.carryOut (step :: steps) =
      (((perform step).run session).1 :: (((perform step).run session).2.carryOut steps).1,
        (((perform step).run session).2.carryOut steps).2) := by
  unfold carryOut
  rw [List.mapM_cons]
  rfl

/-- A run in two parts is the run of the second part on the session the first one left. -/
theorem carryOut_append (more : List Step) :
    session.carryOut (steps ++ more) =
      ((session.carryOut steps).1 ++ ((session.carryOut steps).2.carryOut more).1,
        ((session.carryOut steps).2.carryOut more).2) := by
  induction steps generalizing session with
  | nil => rfl
  | cons step steps ih =>
    rw [List.cons_append, carryOut_cons, carryOut_cons, ih]
    rfl

variable {session step steps}

theorem goesOn_nil (session : Session) : session.GoesOn [] := List.forall_mem_nil _

/-- A session goes on through steps if it is not broken off at the first and goes on through the others. -/
theorem goesOn_cons_iff : session.GoesOn (step :: steps) ↔
    ((perform step).run session).1.breaksOff = false ∧ ((perform step).run session).2.GoesOn steps := by
  unfold GoesOn
  rw [carryOut_cons]
  exact List.forall_mem_cons

/-- A session goes on through two lists of steps if it goes on through the first, and from there through the
second. -/
theorem goesOn_append_iff {more : List Step} : session.GoesOn (steps ++ more) ↔
    session.GoesOn steps ∧ (session.carryOut steps).2.GoesOn more := by
  unfold GoesOn
  rw [carryOut_append]
  exact List.forall_mem_append

/-- A session that goes on answers each step; one that is broken off answers nothing at all. -/
theorem replies?_eq_some_iff {replies : List Reply} : session.replies? steps = some replies ↔
    session.GoesOn steps ∧ replies = (session.carryOut steps).1 := by
  induction steps generalizing session replies with
  | nil => exact ⟨fun h => ⟨goesOn_nil _, (Option.some.inj h).symm⟩, fun h => congrArg some h.2.symm⟩
  | cons step steps ih =>
    have hreplies : session.replies? (step :: steps) =
        if ((perform step).run session).1.breaksOff then none
        else (((perform step).run session).2.replies? steps).map (((perform step).run session).1 :: ·) := by
      rcases hrun : (perform step).run session with ⟨reply, next⟩
      rw [replies?, hrun]
      dsimp only
      cases reply.breaksOff with
      | true => rfl
      | false =>
        show (next.replies? steps >>= fun replies => some (reply :: replies)) = _
        cases next.replies? steps <;> rfl
    rw [hreplies, goesOn_cons_iff, carryOut_cons]
    cases hbreaks : ((perform step).run session).1.breaksOff with
    | true => simp
    | false => simp [ih, and_assoc, eq_comm]

/-- A run tells the replies to its steps, unless one of them breaks it off. -/
theorem run_eq_some_iff {options : StoreOptions} {replies : List Reply} : run options steps = some replies ↔
    (ofOptions options).GoesOn steps ∧ replies = ((ofOptions options).carryOut steps).1 :=
  replies?_eq_some_iff

end Runs

/-! ### Questions -/

/-- The item that is read from a text. -/
def itemOf (kind : ItemKind) (text : String) : Except StepError kind.Carrier :=
  (kind.ofText? text).elim (.error .badInput) .ok

/-- The question that is read from a query. -/
def StatisticsQuery.question (keys values : ItemKind) :
    StatisticsQuery → Except StepError (Question keys.Carrier values.Carrier)
  | .entries => .ok .entries
  | .keys => .ok .keys
  | .valuesOfKey key => (itemOf keys key).map .valuesOfKey
  | .values => .ok .values
  | .keysWithValue value => (itemOf values value).map .keysWithValue

/-- Reading an item out of a request needs no session. -/
theorem run_readItem (kind : ItemKind) (text : String) (s : Session) :
    (readItem kind text).run s = (itemOf kind text, s) := by
  unfold readItem itemOf
  cases kind.ofText? text <;> rfl

/-- Asking costs nothing. -/
theorem run_askStatistics {keys values : ItemKind} (stats : Statistics keys.Carrier values.Carrier)
    (budget : Budget) (estimateOk : Bool) (query : StatisticsQuery) (s : Session) :
    (askStatistics stats budget estimateOk query).run s =
      ((query.question keys values).map (stats.count? budget estimateOk), s) := by
  cases query with
  | valuesOfKey key =>
    show (readItem keys key >>= fun key => pure _ : SessionM (Option Count)).run s = _
    rw [run_bind, run_readItem, StatisticsQuery.question]
    cases itemOf keys key <;> rfl
  | keysWithValue value =>
    show (readItem values value >>= fun value => pure _ : SessionM (Option Count)).run s = _
    rw [run_bind, run_readItem, StatisticsQuery.question]
    cases itemOf values value <;> rfl
  | _ => rfl

/-! ### Steps that only ask -/

section Asking

variable {α β : Type}

/-- Whether a program leaves every session as it is. -/
def Asks (program : SessionM α) : Prop := ∀ s, (program.run s).2 = s

namespace Asks

/-- Asking, and asking on by what was answered, is asking. -/
theorem bind {program : SessionM α} {rest : α → SessionM β} (h : Asks program)
    (hrest : ∀ a, Asks (rest a)) : Asks (program >>= rest) := by
  intro s
  rw [run_bind]
  rcases hrun : program.run s with ⟨err | a, s'⟩
  · exact (congrArg Prod.snd hrun).symm.trans (h s)
  · obtain rfl : s' = s := (congrArg Prod.snd hrun).symm.trans (h s)
    exact hrest a s'

/-- Looking up a handle only asks. -/
theorem resolve (handles : SortedMap Handle α) (handle : Handle) :
    Asks (Session.resolve handles handle) := by
  intro s
  unfold Session.resolve
  cases handles.get? handle <;> rfl

/-- Looking up the context of a step only asks. -/
theorem contextOf (tx? : Option Handle) : Asks (Session.contextOf tx?) := by
  cases tx? with
  | none => exact fun _ => rfl
  | some tx =>
    intro s
    have htransaction : Asks (transaction tx) :=
      bind (fun _ => rfl) fun session => resolve session.transactions tx
    show ((some <$> transaction tx).run s).2 = s
    rw [run_map]
    exact htransaction s

theorem statisticsOn (held : IndexHandle) (ctx : Context) (query : StatisticsQuery) (budget : Budget)
    (estimateOk : Bool) :
    Asks (performOnIndex held ctx (.statistics query budget estimateOk [] false)) := by
  refine bind (fun s => ?_) fun count? => ?_
  · rw [run_askStatistics]
  · -- no pairs are added and nothing is computed
    cases count? <;> exact fun _ => rfl

/-- A count that is asked for and not computed costs nothing. -/
theorem statistics (ix : Handle) (half? : Option Half) (tx? : Option Handle)
    (query : StatisticsQuery) (budget : Budget) (estimateOk : Bool) :
    Asks (performIndex ix half? tx? (.statistics query budget estimateOk [] false)) := by
  refine bind (fun _ => rfl) fun session => bind (resolve session.indexes ix) fun held => ?_
  have hasked (part : IndexHandle) : Asks (do
      let ctx ← Session.contextOf tx?
      performOnIndex part ctx (.statistics query budget estimateOk [] false)) :=
    bind (contextOf tx?) fun ctx => statisticsOn part ctx query budget estimateOk
  cases half? with
  | none => exact hasked held
  | some half =>
    dsimp only
    cases held.half? half with
    | none => exact fun _ => rfl
    | some part => exact hasked part

end Asks

end Asking

/-! ### Cursors -/

section Cursors

variable {s : Session} {cur : Handle} {kind : ItemKind} {cursor : Cursor kind.Carrier}

/-- What follows a look at the session is handed the session. -/
theorem run_ask_bind {α : Type} (s : Session) (rest : Session → StateM Session α) :
    (getThe Session >>= rest).run s = (rest s).run s := rfl

/-- A step on a cursor that is not held is refused, and changes nothing. -/
theorem run_performCursor_of_none (h : s.cursors.get? cur = none) (step : CursorStep) :
    (performCursor cur step).run s = ({ outcome := .error (.noHandle cur) }, s) := by
  unfold performCursor
  rw [run_ask_bind, h]
  rfl

/-- A cursor that is iterated over is moved by its iteration only. -/
theorem run_performCursor_of_iterated {done : Bool} (h : s.cursors.get? cur = some ⟨kind, cursor, some done⟩)
    (step : CursorStep) : (performCursor cur step).run s = ({ outcome := .error (.noHandle cur) }, s) := by
  unfold performCursor
  rw [run_ask_bind, h]
  rfl

/-- A cursor that is moved goes on to stand under its handle, whatever comes of the step. -/
theorem run_performCursor_of_some (h : s.cursors.get? cur = some { kind, cursor }) (step : CursorStep) :
    (performCursor cur step).run s =
      match cursorProgram kind step with
      | none => ({ outcome := .error .badInput }, s)
      | some program =>
        let r := (program.run.run cursor).run s.database
        (⟨r.1.1.mapError .index, some r.1.2.state⟩,
          { s with database := r.2, cursors := s.cursors.insert cur { kind, cursor := r.1.2 } }) := by
  unfold performCursor
  rw [run_ask_bind, h]
  dsimp only
  cases cursorProgram kind step <;> rfl

/-- A step that ends a cursor that is not held is refused, and changes nothing. -/
theorem run_performEnding_of_none (h : s.cursors.get? cur = none) (ending : CursorEnding) :
    (performEnding cur ending).run s = (.error (.noHandle cur), s) := by
  unfold performEnding resolve
  rw [run_bind_ok (run_get s), h]
  rfl

/-- What an iteration over a cursor has been started for cannot be done with the cursor itself, except to drop it. -/
theorem run_performEnding_of_iterated {done : Bool} (h : s.cursors.get? cur = some ⟨kind, cursor, some done⟩)
    {ending : CursorEnding} (hending : ending ≠ .drop) :
    (performEnding cur ending).run s = (.error (.noHandle cur), s) := by
  unfold performEnding resolve
  rw [run_bind_ok (run_get s), h]
  cases ending with
  | drop => exact absurd rfl hending
  | _ => rfl

/-- A cursor that is used up has left its handle before. -/
theorem run_performEnding_of_some {done? : Option Bool} (h : s.cursors.get? cur = some ⟨kind, cursor, done?⟩)
    {ending : CursorEnding} (hfree : done? = none ∨ ending = .drop) :
    (performEnding cur ending).run s =
      (ofIndex (endingProgram kind cursor ending)).run
        { s with cursors := s.cursors.erase cur } := by
  unfold performEnding resolve
  rw [run_bind_ok (run_get s), h]
  rcases hfree with rfl | rfl
  · rfl
  · cases done? <;> rfl

/-- A step of an iteration over a cursor that is not held is refused, and changes nothing. -/
theorem run_performIteration_of_none (h : s.cursors.get? cur = none) (step : IterationStep) :
    (performIteration cur step).run s = (.error (.noHandle cur), s) := by
  unfold performIteration resolve
  rw [run_bind_ok (run_get s), h]
  rfl

/-- A step of an iteration over a cursor that is held is what `iterate` makes of it. -/
theorem run_performIteration_of_some {held : CursorHandle} (h : s.cursors.get? cur = some held)
    (step : IterationStep) : (performIteration cur step).run s = (iterate cur step held).run s := by
  unfold performIteration resolve
  rw [run_bind_ok (run_get s), h]
  rfl

/-- A step of an iteration leaves the cursor under its handle, with the news of the iteration. -/
theorem run_iterate_next (s : Session) (cur : Handle) (cursor : Cursor kind.Carrier) (done : Bool) :
    (iterate cur .next ⟨kind, cursor, some done⟩).run s =
      let r := (CursorItems.next.run ⟨cursor, done⟩).run s.database
      (.ok (.iterated (r.1.1.map fun outcome => outcome.map kind.toText)), { s with
        database := r.2
        cursors := s.cursors.insert cur ⟨kind, r.1.2.cursor, some r.1.2.done⟩ }) := rfl

end Cursors

/-- A step with a handle that cannot be had is refused by whether the handle is held. -/
theorem run_refuse (s : Session) (kind : HandleKind) (handle : Handle) :
    (refuse (some (kind, handle))).run s =
      (.error (if s.isHeld kind handle then .badInput else .noHandle handle), s) := by
  show ((getThe Session >>= fun _ => _ : SessionM Answer)).run s = _
  rw [run_bind_ok (run_get s)]
  cases s.isHeld kind handle <;> rfl

end Session

end SecondaryIndex
