import SecondaryIndex.Proofs.Parallel.Changes

/-!
# What each step changes

A step fits into a frame if the frame allows what is done where the step is carried out
(`Session.Step.Fits`). Then the step changes its one handle, and the engine within the frame
(`Session.perform_changes`).
-/

namespace SecondaryIndex

open Program

namespace Session

/-- What a step may do is allowed, given what it is carried out through. -/
structure Step.Fits (F : Engine.Frame) (s : Session) (step : Step) : Prop where
  free : step.through? = none → ∀ e e', F.allows e e'
  hosts : ∀ tx id, step.through? = some (.transaction, tx) → s.transactions.get? tx = some id →
    F.Hosts id
  commits : ∀ tx hideNamespace id, step = .store (.commit tx hideNamespace) →
    s.transactions.get? tx = some id →
      F.allows s.database.engine ((Engine.commit id).run s.database.engine).2
  meanwhile : step.meanwhile?.isSome → ∀ e e', F.allows e e'

/-- Every step fits into the frame that allows anything. -/
theorem Step.fits_anything (s : Session) (step : Step) : step.Fits .anything s :=
  ⟨fun _ _ _ => trivial, fun _ _ _ _ => ⟨fun _ => trivial, fun _ => trivial, fun _ => trivial⟩,
    fun _ _ _ _ _ => trivial, fun _ _ _ => trivial⟩

variable {F : Engine.Frame} {s : Session}

/-! ### Steps on the store -/

/-- Words that are written stay in the transaction. -/
theorem quiet_putWords {id : TransactionId} (h : F.Hosts id) (ns : Namespace) (first : UInt64) (n : Nat) :
    Quiet F (putWords id ns first n) := by
  induction n generalizing first with
  | zero => exact .pure _
  | succ n ih => exact (Quiet.works h (.put trivial)).bind fun _ => ih _

/-- A transaction is given a handle. -/
theorem turns_begin (tx : Handle) (hfree : ∀ e e', F.allows e e') :
    Turns F (.store (.begin tx)) s (performStore (.begin tx)) := by
  exact .bind (.ofEngine fun e => hfree e _) fun id t =>
    .at_handle (hfree _ _) fun other => meaning_holdTransaction t other tx id

/-- An iterator is given a handle, and what this stood for is released. -/
theorem turns_iterator (it tx : Handle) (ns : Namespace) (range : Range)
    (hhosts : ∀ id, s.transactions.get? tx = some id → F.Hosts id) :
    Turns F (.store (.iterator it tx ns range)) s (performStore (.iterator it tx ns range)) := by
  refine .transaction_bind fun id hget => .bind (Quiet.works (hhosts id hget) (.openIterator ns range))
    fun iterator t => .at_handle (F.idles ?_) fun other => meaning_holdIterator t other it iterator
  show t.database.engine.Idles (t.dropIterator it).database.engine
  unfold dropIterator
  split
  · exact Engine.idles_releaseIterator _
  · exact .refl _

/-- A commit does what the frame allows to it, and its handle remains. -/
theorem turns_commit (tx : Handle) (hideNamespace : Bool)
    (hcommits : ∀ id, s.transactions.get? tx = some id →
      F.allows s.database.engine ((Engine.commit id).run s.database.engine).2) :
    Turns F (.store (.commit tx hideNamespace)) s (performStore (.commit tx hideNamespace)) := by
  refine .transaction_bind fun id hget => Changes.weaken ?_
  have hcommitted : Changes F none s ((ofEngine (Engine.commit id)).run s).2 :=
    .withDatabase (hcommits id hget)
  rw [run_tryCatch, run_bind]
  rcases hrun : (ofEngine (Engine.commit id)).run s with ⟨err | _, t⟩
  · rw [hrun] at hcommitted
    -- a failure is told in one way or the other
    dsimp only
    split
    · split
      · exact hcommitted
      · exact hcommitted
    · exact hcommitted
  · rw [hrun] at hcommitted
    exact hcommitted

/-- To drop a handle gives up the transaction it stands for. -/
theorem turns_drop (tx : Handle) (hhosts : ∀ id, s.transactions.get? tx = some id → F.Hosts id) :
    Turns F (.store (.drop tx)) s (performStore (.drop tx)) := by
  refine .transaction_bind fun id hget =>
    .at_handle ?_ fun other => meaning_dropTransaction s other tx
  show F.allows s.database.engine (s.dropTransaction tx).database.engine
  unfold dropTransaction
  rw [hget]
  exact (hhosts id hget).discard _

/-- An index that is made is put under its handle. -/
theorem turns_makeIndex (ix : Handle) (spec : IndexSpec) (hfree : ∀ e e', F.allows e e') :
    Turns F (.store (.index ix spec)) s (performStore (.index ix spec)) := by
  have hrun : ((performStore (.index ix spec)).run s).2 = { (makeIndex spec s).2 with
      indexes := (makeIndex spec s).2.indexes.insert ix (makeIndex spec s).1 } := rfl
  obtain ⟨db, hdb⟩ : ∃ db, (makeIndex spec s).2 = { s with database := db } := by
    unfold makeIndex
    split
    exact ⟨_, rfl⟩
  show Changes F (some (.index, ix)) s _
  rw [hrun, hdb]
  exact .at_handle (hfree _ _) fun other => meaning_insert_index s db other ix _

/-- Each step on the store. -/
theorem turns_store (step : StoreStep) (h : (Step.store step).Fits F s) :
    Turns F (.store step) s (performStore step) := by
  -- a step through no transaction is one that nobody has to host
  have hfree (hnone : step.through? = none) : ∀ e e', F.allows e e' :=
    h.free (congrArg (Option.map _) hnone)
  have hhosts {tx : Handle} (htx : step.through? = some tx) (id : TransactionId)
      (hget : s.transactions.get? tx = some id) : F.Hosts id :=
    h.hosts tx id (congrArg (Option.map _) htx) hget
  cases step with
  | dump ns tx? =>
    cases tx? with
    | none => exact .of_quiet (.bind (.ofEngine fun e => hfree rfl e _) fun _ => .pure _)
    | some tx =>
      have hkeys (id : TransactionId) : Quiet F (ofEngine (Engine.visibleKeys id ns .all)) :=
        .reads fun e => Engine.run_visibleKeys e id ns .all
      exact .of_quiet (((Quiet.transaction tx).bind hkeys).bind fun _ => .pure _)
  | begin tx => exact turns_begin tx (hfree rfl)
  | commit tx hideNamespace => exact turns_commit tx hideNamespace fun id => h.commits tx _ id rfl
  | rollback tx =>
    refine .transaction_bind fun id hget => .of_quiet ?_
    exact (Quiet.ofEngine fun e => (hhosts rfl id hget).rollback e).bind fun _ => .pure _
  | drop tx => exact turns_drop tx (hhosts rfl)
  | pending tx =>
    exact .transaction_bind fun id _ => .of_quiet
      (.bind (.reads fun e => Engine.run_transaction e id) fun _ => .pure _)
  | get tx ns key =>
    refine .transaction_bind fun id hget => .of_quiet ?_
    exact (Quiet.works (hhosts rfl id hget) (.lookup ns key)).bind fun _ => .pure _
  | put tx ns key value =>
    refine .transaction_bind fun id hget => .of_quiet ?_
    exact (Quiet.works (hhosts rfl id hget) (.put trivial)).bind fun _ => .pure _
  | putRange tx ns first n =>
    refine .transaction_bind fun id hget => .of_quiet ?_
    exact (quiet_putWords (hhosts rfl id hget) ns first n).bind fun _ => .pure _
  | delete tx ns key =>
    refine .transaction_bind fun id hget => .of_quiet ?_
    exact (Quiet.works (hhosts rfl id hget) (.delete trivial)).bind fun _ => .pure _
  | iterator it tx ns range => exact turns_iterator it tx ns range (hhosts rfl)
  | context tx? => exact .of_quiet ((Quiet.contextOf tx?).bind fun _ => .pure _)
  | fault call skip times => exact .of_quiet fun s => .withDatabase (hfree rfl _ _)
  | clearFaults => exact .of_quiet fun s => .withDatabase (hfree rfl _ _)
  | index ix spec => exact turns_makeIndex ix spec (hfree rfl)
  | createNamespace ns => exact .of_quiet (.bind (.ofEngine fun e => hfree rfl e _) fun _ => .pure _)
  | hasNamespace ns => exact .of_quiet (.ofEngine fun e => hfree rfl e _)
  | flush ns =>
    exact .of_quiet (.bind (.ofEngine fun e => hfree rfl e _) fun _ =>
      .bind (.ofEngine fun e => hfree rfl e _) fun _ => .pure _)
  | flushAll => exact .of_quiet (.bind (.ofEngine fun e => hfree rfl e _) fun _ => .pure _)
  | openIterators => exact .of_quiet (.ofEngine fun e => hfree rfl e _)
  | recentTally ns range => exact .of_quiet (.bind (.ofEngine fun e => hfree rfl e _) fun _ => .pure _)
  | olderSize ns range => exact .of_quiet (.bind (.ofEngine fun e => hfree rfl e _) fun _ => .pure _)

/-! ### Steps of iterators -/

/-- To move an iterator changes what its handle stands for and nothing of the engine. -/
theorem turns_moveIterator {it : Handle} {step : Step} (huses : step.uses? = some (.iterator, it))
    (htakes : step.takes? = none) (move : RawIterator → RawIterator) :
    Turns F step s (moveIterator it move) := by
  refine .get_bind (.resolve_bind fun iterator _ => ?_)
  unfold Turns
  rw [Step.changes?_of_takes? htakes, huses]
  exact .at_handle (F.idles (.refl _)) fun other => meaning_insert_iterator s s.database other it _

/-- Each step of an iterator. -/
theorem turns_performIterator (it : Handle) (step : IteratorStep) :
    Turns F (.iterator it step) s (performIterator it step) := by
  cases step with
  | status =>
    refine .get_bind (.resolve_bind fun iterator _ => .of_quiet (.bind (.ofEngine fun e => ?_) fun _ =>
      .pure _))
    rw [Engine.run_status]
    exact F.idles (Engine.idles_drawn e _)
  | drop =>
    refine .get_bind (.resolve_bind fun iterator hget =>
      .at_handle (F.idles ?_) fun other => meaning_dropIterator s other it)
    show s.database.engine.Idles (s.dropIterator it).database.engine
    unfold dropIterator
    rw [hget]
    exact Engine.idles_releaseIterator _
  | _ => exact turns_moveIterator rfl rfl _

/-! ### Steps of indexes -/

/-- Each step on an index. -/
theorem turns_index (ix : Handle) (half? : Option Half) (tx? : Option Handle) (step : IndexStep)
    (h : (Step.index ix half? tx? step).Fits F s) :
    Turns F (.index ix half? tx? step) s (performIndex ix half? tx? step) := by
  have hperform (held : IndexHandle) : Turns F (.index ix half? tx? step) s
      (contextOf tx? >>= fun ctx => performOnIndex held ctx step) := by
    refine .contextOf_bind (fun hnone => ?_) fun tx id htx hget => ?_
    · exact turns_onIndex held (h.free (congrArg (Option.map _) hnone)) h.meanwhile
    · exact turns_onIndex held (h.hosts tx id (congrArg (Option.map _) htx) hget) h.meanwhile
  refine .get_bind (.resolve_bind fun held _ => ?_)
  -- a half of an index is used as an index of its own
  cases half? with
  | none => exact hperform held
  | some half =>
    dsimp only
    cases held.half? half with
    | none => exact .of_quiet (.throw _)
    | some part => exact hperform part

/-! ### Steps of cursors -/

/-- A cursor that is moved leaves the engine as it was, up to its faults and the iterators that are open. -/
theorem cursorProgram_idles (kind : ItemKind) (step : CursorStep)
    {program : CursorM kind.Carrier Answer} (h : cursorProgram kind step = some program)
    (cursor : Cursor kind.Carrier) (db : Database) :
    db.engine.Idles ((program.run.run cursor).run db).2.engine := by
  have hmap {β : Type} {x : CursorM kind.Carrier β} (f : β → Answer)
      (hx : db.engine.Idles ((x.run.run cursor).run db).2.engine) :
      db.engine.Idles (((f <$> x).run.run cursor).run db).2.engine := by
    rw [Cursor.run_map]
    exact hx
  cases step with
  | next =>
    cases h
    exact hmap _ (cursor.arrive_idles db cursor.forward .pastEnd)
  | prev =>
    cases h
    exact hmap _ (cursor.arrive_idles db cursor.backward .beforeStart)
  | current =>
    cases h
    refine hmap _ ?_
    rw [Cursor.run_current]
    exact .refl _
  | seek text =>
    -- a target that is refused costs nothing, any other one the status of the iterator
    obtain ⟨item, -, rfl⟩ := Option.map_eq_some_iff.1 h
    refine hmap _ ?_
    rw [Cursor.run_seek]
    split
    · exact .refl _
    · exact Engine.idles_drawn _ _
  | close =>
    cases h
    exact cursor.release_idles db
  | state =>
    cases h
    exact .refl _
  | describe =>
    cases h
    exact .refl _

theorem changes_performCursor (cur : Handle) (step : CursorStep) :
    Changes F (some (.cursor, cur)) s ((performCursor cur step).run s).2 := by
  cases hget : s.cursors.get? cur with
  | none =>
    rw [run_performCursor_of_none hget]
    exact .refl _ s
  | some held =>
    obtain ⟨kind, cursor, _ | done⟩ := held
    · rw [run_performCursor_of_some hget]
      cases hprogram : cursorProgram kind step with
      | none => exact .refl _ s
      | some program =>
        exact .at_handle (F.idles (cursorProgram_idles kind step hprogram cursor s.database)) fun other =>
          meaning_insert_cursor s _ other cur _
    · rw [run_performCursor_of_iterated hget]
      exact .refl _ s

/-- An iteration changes its cursor, and the engine no more than a step or the release of the cursor does. -/
theorem turns_iteration (cur : Handle) (step : IterationStep) :
    Turns F (.iteration cur step) s (performIteration cur step) := by
  unfold Turns
  rw [Step.changes?_of_takes? rfl]
  cases hget : s.cursors.get? cur with
  | none =>
    rw [run_performIteration_of_none hget]
    exact .refl _ s
  | some held =>
    rw [run_performIteration_of_some hget]
    obtain ⟨kind, cursor, done?⟩ := held
    cases step with
    | start =>
      cases done? with
      | none =>
        exact .at_handle (F.idles (.refl _)) fun other => meaning_insert_cursor s s.database other cur _
      | some done => exact .refl _ s
    | next =>
      cases done? with
      | none => exact .refl _ s
      | some done =>
        rw [run_iterate_next]
        exact .at_handle (F.idles (Cursor.items_next_idles s.database ⟨cursor, done⟩)) fun other =>
          meaning_insert_cursor s _ other cur _

theorem idle_endingProgram (kind : ItemKind) (cursor : Cursor kind.Carrier) (ending : CursorEnding) :
    IndexM.Idle (endingProgram kind cursor ending) := by
  intro db
  cases ending with
  | count =>
    show db.engine.Idles ((Answer.number <$> cursor.count).run db).2.engine
    rw [run_map]
    exact Index.count_idle cursor db
  | collect =>
    show db.engine.Idles ((cursor.collect >>= fun items => pure _ : IndexM Answer).run db).2.engine
    rw [run_bind]
    have hcollect := cursor.collect_idle db
    rcases hrun : cursor.collect.run db with ⟨_ | items, db'⟩ <;> rw [hrun] at hcollect <;> exact hcollect
  | items => exact cursor.items_idles db
  | drop => exact cursor.release_idles db

/-- What ends a cursor takes its handle away. -/
theorem turns_ending (cur : Handle) (ending : CursorEnding) :
    Turns F (.ending cur ending) s (performEnding cur ending) := by
  unfold Turns
  rw [Step.changes?_of_takes? rfl]
  cases hget : s.cursors.get? cur with
  | none =>
    rw [run_performEnding_of_none hget]
    exact .refl _ s
  | some held =>
    obtain ⟨kind, cursor, done?⟩ := held
    by_cases hfree : done? = none ∨ ending = .drop
    · rw [run_performEnding_of_some hget hfree]
      exact .at_handle (F.idles (idle_endingProgram kind cursor ending s.database)) fun other =>
        meaning_erase_cursor s _ other cur
    · rw [not_or] at hfree
      obtain ⟨done, rfl⟩ := Option.ne_none_iff_exists'.1 hfree.1
      rw [run_performEnding_of_iterated hget hfree.2]
      exact .refl _ s

/-! ### All steps -/

theorem quiet_refuse (handle? : Option Holding) : Quiet F (refuse handle?) := by
  cases handle? with
  | none => exact .throw _
  | some holding =>
    refine Quiet.get.bind fun s => ?_
    split
    · exact .throw _
    · exact .throw _

/-- A step changes one handle at most, and the engine within any frame that it fits into. -/
theorem perform_changes (step : Step) (h : step.Fits F s) :
    Changes F (step.changes? ((perform step).run s).1.outcome) s ((perform step).run s).2 := by
  cases step with
  | store step => exact turns_store step h
  | iterator it step => exact turns_performIterator it step
  | index ix half? tx? step => exact turns_index ix half? tx? step h
  | cursor cur step =>
    rw [Step.changes?_of_takes? rfl]
    exact changes_performCursor cur step
  | iteration cur step => exact turns_iteration cur step
  | ending cur ending => exact turns_ending cur ending
  | unreadable handle? => exact Turns.of_quiet (quiet_refuse handle?)

/-! ### Counts with pairs that come in meanwhile -/

section Meanwhile

/-- Whether an answer fits does not depend on the context. -/
theorem isSome_count? {K V : Type} (index : AnyIndex K V) (ctx ctx' : Context) (budget : Budget)
    (estimateOk : Bool) (question : Question K V) :
    ((index.statistics ctx').count? budget estimateOk question).isSome =
      ((index.statistics ctx).count? budget estimateOk question).isSome := by
  have hscanning {value value' : IndexM Nat} : (Statistics.scanning budget value').isSome =
      (Statistics.scanning budget value).isSome := by
    unfold Statistics.scanning
    split <;> rfl
  have hestimable {value value' estimate : IndexM Nat} :
      (Statistics.estimable budget estimateOk value' estimate).isSome =
        (Statistics.estimable budget estimateOk value estimate).isSome := by
    unfold Statistics.estimable
    split
    · rfl
    · rfl
  cases question with
  | entries => exact hestimable
  | keys => exact hscanning
  | valuesOfKey key => exact hestimable
  | values => exact hscanning
  | keysWithValue value =>
    show ((index.statistics ctx').keysWithValue value budget estimateOk).isSome =
      ((index.statistics ctx).keysWithValue value budget estimateOk).isSome
    unfold Statistics.keysWithValue
    split
    · rw [Option.isSome_map, Option.isSome_map]
      rfl
    · rfl

/-- Programs with the same beginning. -/
theorem Changes.bind_same {α : Type} {x : SessionM α} {f g : α → SessionM Answer}
    (h : ∀ a t, Changes F none ((f a).run t).2 ((g a).run t).2) :
    Changes F none ((x >>= f).run s).2 ((x >>= g).run s).2 := by
  rw [run_bind, run_bind]
  rcases x.run s with ⟨err | a, t⟩
  · exact .refl _ t
  · exact h a t

variable {id : TransactionId} {tx : Handle}

/-- Beyond the pairs that come in, a count in a transaction works there at most. -/
theorem onIndex_beyond_meanwhile (hhosts : F.Hosts id) (held : IndexHandle) (query : StatisticsQuery)
    (budget : Budget) (estimateOk : Bool) (pairs : List (String × String)) (force : Bool) :
    Changes F none
      ((performOnIndex held none (.statistics query budget estimateOk pairs false)).run s).2
      ((performOnIndex held (some id) (.statistics query budget estimateOk pairs force)).run s).2 := by
  unfold performOnIndex
  rw [run_bind, run_bind, run_askStatistics, run_askStatistics]
  cases query.question held.keys held.values with
  | error err => exact .refl _ s
  | ok question =>
    rw [Except.map, Except.map]
    have hsome := isSome_count? held.index none (some id) budget estimateOk question
    cases hcount : (held.index.statistics none).count? budget estimateOk question <;>
      cases hcount' : (held.index.statistics (some id)).count? budget estimateOk question <;>
      rw [hcount, hcount'] at hsome <;> cases hsome
    · exact .refl _ s
    · -- reading and adding the pairs is the same in both, and then one of them may count
      refine .bind_same fun _ _ => .bind_same fun _ t => ?_
      cases force with
      | true =>
        exact ((Quiet.ofIndex fun db => hhosts.works (Contained.count_value hcount' id rfl db)).bind fun _ => .pure _) t
      | false => exact .refl _ t

/-- A step with pairs that come in meanwhile does what these alone do, and works in its transaction. -/
theorem perform_beyond_meanwhile (hhosts : F.Hosts id) (hget : s.transactions.get? tx = some id)
    {step added : Step} (hthrough : step.through? = some (.transaction, tx))
    (hmeanwhile : step.meanwhile? = some added) :
    Changes F none ((perform added).run s).2 ((perform step).run s).2 := by
  unfold Step.meanwhile? at hmeanwhile
  split at hmeanwhile
  · next ix half? tx? query budget estimateOk pair pairs force =>
    cases hmeanwhile
    obtain ⟨tx', htx, heq⟩ := Option.map_eq_some_iff.1 hthrough
    cases heq
    subst htx
    have hcontext : (contextOf (some tx)).run s = (.ok (some id), s) := by
      show (some <$> (getThe Session >>= fun s => resolve s.transactions tx)).run s = _
      rw [run_map, run_bind_ok (run_get s), resolve, hget]
      rfl
    have hperform (held : IndexHandle) :
        Changes F none
          ((contextOf none >>= fun ctx => performOnIndex held ctx
            (.statistics query budget estimateOk (pair :: pairs) false)).run s).2
          ((contextOf (some tx) >>= fun ctx => performOnIndex held ctx
            (.statistics query budget estimateOk (pair :: pairs) force)).run s).2 := by
      rw [run_bind_ok hcontext]
      exact onIndex_beyond_meanwhile hhosts held query budget estimateOk _ force
    -- up to the context the two steps are resolved alike
    show Changes F none ((performIndex ix half? none _).run s).2
      ((performIndex ix half? (some tx) _).run s).2
    unfold performIndex resolve
    rw [run_bind_ok (run_get s), run_bind_ok (run_get s)]
    cases s.indexes.get? ix with
    | none => exact .refl _ s
    | some held =>
      cases half? with
      | none => exact hperform held
      | some half =>
        dsimp only
        rw [pure_bind, pure_bind]
        cases held.half? half with
        | none => exact .refl _ s
        | some part => exact hperform part
  · cases hmeanwhile

end Meanwhile

end Session

end SecondaryIndex
