import SecondaryIndex.Proofs.Parallel.Handles

/-!
# Answers side by side

What counts as answered alike is up to the comparison: sizes, and what is estimated from them, may be
left out, and so may be how much was used (`Comparison.Shows`). A step performs alike if it is answered
alike in alike sessions and leaves them alike, unless it asks for too large a size in one of them
(`Comparison.Performs`). It may take a handle from the extra transaction for something of its own.
-/

namespace SecondaryIndex

namespace Comparison

open Program Session

variable (c : Comparison) {α α' : Type} {A : α → α' → Prop} {owned : List Holding}

/-- Answers that tell the same, sizes apart if these are not compared. -/
structure Answers (answer answer' : Answer) : Prop where
  told : c.sizes → answer'.told = answer.told
  withoutSizes : answer'.told.withoutSizes = answer.told.withoutSizes

theorem Answers.of_eq {c : Comparison} {answer answer' : Answer} (h : answer = answer') :
    c.Answers answer answer' := by
  subst h
  exact ⟨fun _ => rfl, rfl⟩

/-- Answers to a step that tell the same, unless the step tells what is not compared. -/
def Shows (step : Step) (answer answer' : Answer) : Prop :=
  (step.tellsUse = true → c.counters) → c.Answers answer answer'

/-! ### Programs over a session -/

/-- What is in step on databases is so on sessions with alike handles. -/
theorem tracks_session_ofIndex {x : IndexM α} {x' : IndexM α'} (h : Tracks c.Databases A x x') :
    Tracks (c.Sessions owned) A (Session.ofIndex x) (Session.ofIndex x') := by
  intro s s' hs
  obtain ⟨hagree, hdatabases⟩ := h _ _ hs.database
  exact ⟨hagree.mapError _, hs.withDatabase hdatabases⟩

/-- The failures that break off a session, if sizes are not compared. -/
abbrev StepStops : StepError → Prop := c.Stops fun err => err.breaksOff = true

/-- What is in step on databases unless a size is too large is so on sessions. -/
theorem tracksUnless_session_ofIndex {x : IndexM α} {x' : IndexM α'}
    (h : TracksUnless c.IndexStops c.Databases A x x') :
    TracksUnless c.StepStops (c.Sessions owned) A (Session.ofIndex x) (Session.ofIndex x') := by
  have hstops (err : IndexError) (h : c.IndexStops err) : c.StepStops (.index err) :=
    ⟨h.1, by rw [h.2]; rfl⟩
  intro s s' hs hgo hgo'
  obtain ⟨hagree, hdatabases⟩ := h _ _ hs.database (fun hfails => hgo (hfails.mapError hstops))
    fun hfails => hgo' (hfails.mapError hstops)
  exact ⟨hagree.mapError _, hs.withDatabase hdatabases⟩

/-- Calls that are in step on engines unless a size is too large are so on sessions. -/
theorem tracksUnless_session_ofEngine {x : EngineM α} {x' : EngineM α'}
    (h : TracksUnless c.EngineStops c.engines A x x') :
    TracksUnless c.StepStops (c.Sessions owned) A (Session.ofEngine x) (Session.ofEngine x') := by
  have hstops (err : EngineError) (h : c.EngineStops err) : c.StepStops (.engine err) :=
    ⟨h.1, by rw [h.2]; rfl⟩
  intro s s' hs hgo hgo'
  obtain ⟨hagree, hengines⟩ := h _ _ hs.database.engines (fun hfails => hgo (hfails.mapError hstops))
    fun hfails => hgo' (hfails.mapError hstops)
  exact ⟨hagree.mapError _, hs.withDatabase ⟨hengines, hs.database.metrics⟩⟩

/-- Calls that are in step on engines are so on sessions. -/
theorem tracks_session_ofEngine {x : EngineM α} {x' : EngineM α'} (h : Tracks c.engines A x x') :
    Tracks (c.Sessions owned) A (Session.ofEngine x) (Session.ofEngine x') := by
  intro s s' hs
  obtain ⟨hagree, hengines⟩ := h _ _ hs.database.engines
  exact ⟨hagree.mapError _, hs.withDatabase ⟨hengines, hs.database.metrics⟩⟩

/-- A question to the stores of alike engines is in step if they answer it alike. -/
theorem tracks_ask {query : Store → Except EngineError α} {query' : Store → Except EngineError α'}
    (h : ∀ e e', c.engines e e' → Agree A (query e.store) (query' e'.store)) :
    Tracks c.engines A (Engine.ask query) (Engine.ask query') :=
  fun e e' he => ⟨h e e' he, he⟩

/-- A change of the stores is in step if it leaves the engines alike. -/
theorem tracks_modifyStore {f f' : Store → Store}
    (h : ∀ {e e' : Engine}, c.engines e e' →
      c.engines { e with store := f e.store } { e' with store := f' e'.store }) :
    Tracks c.engines (fun _ _ => True) (Engine.modifyStore f) (Engine.modifyStore f') :=
  .modify fun _ _ he => h he

/-- A transaction that is not the extra one has its two numbers. -/
theorem tracks_session_transaction {tx : Handle} (hnot : (.transaction, tx) ∉ owned) :
    Tracks (c.Sessions owned) (fun id id' => id' = c.rename id) (Session.transaction tx)
      (Session.transaction tx) := by
  refine .bind .get fun s s' hs => ?_
  unfold resolve
  rcases hs.transaction_cases hnot with ⟨hnone, hnone'⟩ | ⟨id, hsome, hsome'⟩
  · rw [hnone, hnone']
    exact .throw _
  · rw [hsome, hsome']
    exact .pure rfl

/-- A raw iterator does not depend on the transaction it was opened in, so it is the same in both sessions. -/
theorem tracks_resolve_iterator {s s' : Session} (hs : c.Sessions owned s s') {it : Handle}
    (hnot : (.iterator, it) ∉ owned) :
    Tracks (c.Sessions owned) Eq (resolve s.iterators it) (resolve s'.iterators it) := by
  unfold resolve
  rcases hs.iterator_cases hnot with ⟨hnone, hnone'⟩ | ⟨iterator, hsome, hsome'⟩
  · rw [hnone, hnone']
    exact .throw _
  · rw [hsome, hsome']
    exact .pure rfl

/-- A context is the same in both sessions, up to the number of its transaction. -/
theorem tracks_contextOf {tx? : Option Handle} (hnot : ∀ tx, tx? = some tx → (.transaction, tx) ∉ owned) :
    Tracks (c.Sessions owned) (fun ctx ctx' => ctx' = ctx.map c.rename) (contextOf tx?)
      (contextOf tx?) := by
  cases tx? with
  | none => exact .pure rfl
  | some tx => exact .map (c.tracks_session_transaction (hnot tx rfl)) fun _ _ h => congrArg some h

/-- Whether a text can be read does not depend on the session. -/
theorem tracks_readItem (kind : ItemKind) (text : String) :
    Tracks (c.Sessions owned) Eq (readItem kind text) (readItem kind text) := by
  unfold readItem
  cases kind.ofText? text with
  | none => exact .throw _
  | some item => exact .pure rfl

/-- Pairs of texts are read alike, up to the first that cannot be read. -/
theorem tracks_readPairs (keys values : ItemKind) (pairs : List (String × String)) :
    Tracks (c.Sessions owned) Eq (readPairs keys values pairs) (readPairs keys values pairs) := by
  refine .mapM fun pair => ?_
  refine .bind (c.tracks_readItem keys pair.1) ?_
  rintro key _ rfl
  refine .bind (c.tracks_readItem values pair.2) ?_
  rintro value _ rfl
  exact .pure rfl

/-! ### Dropping and giving handles -/

namespace Sessions

variable {c} {s s' : Session} (h : c.Sessions owned s s')

include h

/-- A handle is dropped in both sessions, also if it stands for a transaction in one of them only. -/
theorem databases_dropTransaction (tx : Handle) :
    c.Databases (s.dropTransaction tx).database (s'.dropTransaction tx).database := by
  unfold dropTransaction
  by_cases howned : (.transaction, tx) ∈ owned
  · -- only the second session has something to drop, which is the extra transaction
    have hnone : s.transactions.get? tx = none := Option.map_eq_none_iff.1 (h.absent _ howned)
    rw [hnone]
    cases hget : s'.transactions.get? tx with
    | none => exact h.database
    | some id =>
      have hextra := h.extra _ howned id (by rw [meaning, hget]; rfl)
      exact h.database.aside hextra (Engine.aside_discard _ id)
  · rcases h.transaction_cases howned with ⟨hnone, hnone'⟩ | ⟨id, hsome, hsome'⟩
    · rw [hnone, hnone']
      exact h.database
    · rw [hsome, hsome']
      exact ⟨c.discarded h.database.engines id, h.database.metrics⟩

/-- An iterator that is dropped is released in both sessions or in neither. -/
theorem databases_dropIterator (it : Handle) :
    c.Databases (s.dropIterator it).database (s'.dropIterator it).database := by
  unfold dropIterator
  by_cases howned : (.iterator, it) ∈ owned
  · have hnone : s.iterators.get? it = none := Option.map_eq_none_iff.1 (h.absent _ howned)
    rw [hnone]
    cases s'.iterators.get? it with
    | none => exact h.database
    | some iterator =>
      -- to release an iterator goes unnoticed, so it can be taken for work of the extra transaction
      obtain ⟨id, hextra⟩ := Option.isSome_iff_exists.1
        (h.isSome_extra (List.ne_nil_of_mem howned))
      exact h.database.aside hextra (Engine.idles_releaseIterator _).aside
  · rcases h.iterator_cases howned with ⟨hnone, hnone'⟩ | ⟨id, hsome, hsome'⟩
    · rw [hnone, hnone']
      exact h.database
    · rw [hsome, hsome']
      exact h.database.mapEngine (c.released h.database.engines)

/-- A cursor that is dropped is released, and counted by alike counters. -/
theorem databases_dropCursor (cur : Handle) :
    c.Databases (s.dropCursor cur).database (s'.dropCursor cur).database := by
  unfold dropCursor
  by_cases howned : (.cursor, cur) ∈ owned
  · have hnone : s.cursors.get? cur = none := Option.map_eq_none_iff.1 (h.absent _ howned)
    rw [hnone]
    cases s'.cursors.get? cur with
    | none => exact h.database
    | some held =>
      obtain ⟨id, hextra⟩ := Option.isSome_iff_exists.1
        (h.isSome_extra (List.ne_nil_of_mem howned))
      exact h.database.aside hextra (Cursor.release_idles held.cursor _).aside
  · rcases h.cursor_cases howned with ⟨hnone, hnone'⟩ | ⟨kind, cursor, cursor', done?, hsome, hsome', halike⟩
    · rw [hnone, hnone']
      exact h.database
    · rw [hsome, hsome']
      exact c.databases_release halike h.database

/-- A handle that is given a new transaction does not belong to the extra one any more. -/
theorem holdTransaction (tx : Handle) (id : TransactionId) :
    c.Sessions (owned.filter fun other => some other ≠ some (.transaction, tx))
      { s.dropTransaction tx with
        transactions := (s.dropTransaction tx).transactions.insert tx id }
      { s'.dropTransaction tx with
        transactions := (s'.dropTransaction tx).transactions.insert tx (c.rename id) } :=
  h.update (h.databases_dropTransaction tx) (.some (.transaction id))
    (fun other => meaning_holdTransaction s other tx id) fun other => meaning_holdTransaction s' other tx _

/-- A handle that is given a new iterator does not belong to the extra transaction any more. -/
theorem holdIterator (it : Handle) (iterator : RawIterator) :
    c.Sessions (owned.filter fun other => some other ≠ some (.iterator, it))
      { s.dropIterator it with iterators := (s.dropIterator it).iterators.insert it iterator }
      { s'.dropIterator it with iterators := (s'.dropIterator it).iterators.insert it iterator } :=
  h.update (h.databases_dropIterator it) (.some (.iterator iterator))
    (fun other => meaning_holdIterator s other it iterator) fun other => meaning_holdIterator s' other it _

/-- A handle that is given a new cursor does not belong to the extra transaction any more. -/
theorem holdCursor (cur : Handle) {kind : ItemKind} {cursor cursor' : Cursor kind.Carrier}
    (halike : c.Cursors cursor cursor') :
    c.Sessions (owned.filter fun other => some other ≠ some (.cursor, cur))
      { s.dropCursor cur with cursors := (s.dropCursor cur).cursors.insert cur { kind, cursor } }
      { s'.dropCursor cur with
        cursors := (s'.dropCursor cur).cursors.insert cur { kind, cursor := cursor' } } :=
  h.update (h.databases_dropCursor cur) (.some (.cursor halike))
    (fun other => meaning_holdCursor s other cur _) fun other => meaning_holdCursor s' other cur _

end Sessions

/-! ### Steps -/

/-- A step whose programs are in step, and which leaves sessions alike, unless it breaks off one of them. -/
def Performs (owned : List Holding) (step : Step) (x x' : SessionM Answer) : Prop :=
  ∀ s s', c.Sessions owned s s' → ¬ FailsWith c.StepStops (x.run s).1 →
    ¬ FailsWith c.StepStops (x'.run s').1 → Agree (c.Shows step) (x.run s).1 (x'.run s').1 ∧
      c.Sessions (owned.filter fun other => some other ≠ step.given? (x.run s).1) (x.run s).2
        (x'.run s').2

variable {c}

namespace Performs

variable {step : Step} {x x' : SessionM Answer}

/-- A step that takes no handle. -/
theorem of_tracksUnless (h : TracksUnless c.StepStops (c.Sessions owned) (c.Shows step) x x')
    (htakes : step.takes? = none) : c.Performs owned step x x' := by
  intro s s' hs hgo hgo'
  obtain ⟨hagree, hsessions⟩ := h s s' hs hgo hgo'
  refine ⟨hagree, ?_⟩
  rw [Step.given?_of_takes? htakes]
  simpa using hsessions

/-- A step that is answered alike performs alike if it takes no handle from the extra transaction. -/
theorem of_tracks (h : Tracks (c.Sessions owned) (c.Shows step) x x') (htakes : step.takes? = none) :
    c.Performs owned step x x' := of_tracksUnless (.of_tracks h) htakes

theorem of_answersUnless (h : TracksUnless c.StepStops (c.Sessions owned) c.Answers x x')
    (htakes : step.takes? = none) : c.Performs owned step x x' :=
  of_tracksUnless (h.mono fun _ _ hanswers _ => hanswers) htakes

theorem of_answers (h : Tracks (c.Sessions owned) c.Answers x x') (htakes : step.takes? = none) :
    c.Performs owned step x x' := of_tracks (h.mono fun _ _ hanswers _ => hanswers) htakes

/-- A step performs alike if its first part is in step, and its rest performs alike on alike results. -/
theorem bind {f : α → SessionM Answer} {f' : α' → SessionM Answer} {y : SessionM α}
    {y' : SessionM α'} (h : Tracks (c.Sessions owned) A y y')
    (hrest : ∀ a a', A a a' → c.Performs owned step (f a) (f' a')) :
    c.Performs owned step (y >>= f) (y' >>= f') := by
  intro s s' hs hgo hgo'
  obtain ⟨hagree, hsessions⟩ := h s s' hs
  rw [run_bind] at hgo hgo' ⊢
  rw [run_bind]
  rcases hy : y.run s with ⟨outcome, t⟩
  rcases hy' : y'.run s' with ⟨outcome', t'⟩
  rw [hy] at hagree hsessions hgo
  rw [hy'] at hagree hsessions hgo'
  cases hagree with
  | ok related => exact hrest _ _ related t t' hsessions hgo hgo'
  | error err =>
    refine ⟨.error err, ?_⟩
    simpa [Step.given?] using hsessions

end Performs

variable (c)

/-- Succeeding is answered alike. -/
theorem tracks_done {x : SessionM α} {x' : SessionM α'} (h : Tracks (c.Sessions owned) A x x') :
    Tracks (c.Sessions owned) c.Answers (do let _ ← x; pure .done) (do let _ ← x'; pure .done) :=
  .bind h fun _ _ _ => .pure (.of_eq rfl)

/-- What is answered with a result that is the same. -/
theorem tracks_answer {x x' : SessionM α} (h : Tracks (c.Sessions owned) Eq x x') (f : α → Answer) :
    Tracks (c.Sessions owned) c.Answers (do pure (f (← x))) (do pure (f (← x'))) :=
  .bind h fun _ _ heq => .pure (.of_eq (congrArg f heq))

/-- What is answered with a size. -/
theorem tracks_large {x x' : SessionM Nat} (h : TracksUnless c.StepStops (c.Sessions owned) c.Near x x') :
    TracksUnless c.StepStops (c.Sessions owned) c.Answers (do pure (.large (← x)))
      (do pure (.large (← x'))) := by
  refine .bind h fun n n' hnear => .of_tracks (.pure ⟨fun hs => ?_, rfl⟩)
  rw [hnear hs]

end Comparison

end SecondaryIndex
