import SecondaryIndex.Proofs.Parallel.Answers

/-!
# Steps on the store side by side

Steps on the store and steps of iterators perform alike, unless they are carried out through what belongs
to the extra transaction (`Comparison.performs_store`, `Comparison.tracks_performIterator`).
-/

namespace SecondaryIndex

namespace Comparison

open Program Session

variable (c : Comparison) {α α' : Type} {A : α → α' → Prop} {owned : List Holding}

/-! ### Steps on the store -/

/-- Engines that are alike have the same namespaces. -/
theorem hasNamespace_eq {e e' : Engine} (h : c.engines e e') (ns : Namespace) :
    e'.store.hasNamespace ns = e.store.hasNamespace ns := by
  have hrecords := congrArg Option.isSome (congrFun (c.records h) ns)
  simpa [Store.records, Store.hasNamespace, SortedMap.contains] using hrecords

/-- A namespace lists the same keys, in whichever layers these lie. -/
theorem agree_contents_keys {e e' : Engine} (h : c.engines e e') (ns : Namespace) :
    Agree Eq (do pure (← e.store.table ns).contents.keys : Except EngineError (List Bytes))
      (do pure (← e'.store.table ns).contents.keys) := by
  rcases c.table_cases h ns with ⟨t, t', ht, ht', hget⟩ | ⟨ht, ht'⟩
  · -- contents do not show in which layer a record lies
    have hsame : t'.contents = t.contents := by
      refine SortedMap.ext_get? fun key => ?_
      rw [Table.get?_contents, Table.get?_contents, hget]
    rw [ht, ht']
    exact .ok (congrArg SortedMap.keys hsame.symm)
  · rw [ht, ht']
    exact .error _

/-- A flush changes one table, or finds no namespace. -/
theorem run_flush (s : Session) (ns : Namespace) :
    (performStore (.flush ns)).run s =
      match s.database.engine.store.flush ns with
      | .ok store => (.ok .done,
          { s with database := { s.database with engine := { s.database.engine with store } } })
      | .error err => (.error (.engine err), s) := by
  have hask : (Session.ofStore fun store => store.flush ns).run s =
      ((s.database.engine.store.flush ns).mapError StepError.engine, s) := rfl
  show (Session.ofStore _ >>= fun _ => _ : SessionM Answer).run s = _
  rw [run_bind, hask]
  cases s.database.engine.store.flush ns <;> rfl

/-- A flush is in step: it shows in no record. -/
theorem tracks_flush (ns : Namespace) :
    Tracks (c.Sessions owned) c.Answers (performStore (.flush ns)) (performStore (.flush ns)) := by
  intro s s' hs
  have hflush {store : Store} {table : Table} (ht : store.table ns = .ok table) :
      store.flush ns = .ok { store with tables := store.tables.insert ns table.flush } := by
    unfold Store.flush
    rw [ht]
    rfl
  have herror {store : Store} (ht : store.table ns = .error (.namespaceNotFound ns)) :
      store.flush ns = .error (.namespaceNotFound ns) := by
    unfold Store.flush
    rw [ht]
    rfl
  rw [run_flush, run_flush]
  rcases c.table_cases hs.database.engines ns with ⟨t, t', ht, ht', -⟩ | ⟨ht, ht'⟩
  · rw [hflush ht, hflush ht']
    exact ⟨.ok (.of_eq rfl), hs.withDatabase ⟨c.flushed hs.database.engines (hflush ht) (hflush ht'),
      hs.database.metrics⟩⟩
  · rw [herror ht, herror ht']
    exact ⟨.error _, hs⟩

/-- A commit is told in the same words, with the namespace of a conflict or without it. -/
theorem tracks_commit_step {tx : Handle} (hnot : (.transaction, tx) ∉ owned) (hideNamespace : Bool) :
    Tracks (c.Sessions owned) c.Answers (Session.commit tx hideNamespace)
      (Session.commit tx hideNamespace) := by
  refine .bind (c.tracks_session_transaction hnot) ?_
  rintro id _ rfl
  refine .tryCatch (c.tracks_done (c.tracks_session_ofEngine (c.tracks_commit id))) fun err => ?_
  -- a conflict may be told without its namespace; no other failure is
  split
  · split
    · exact .pure (.of_eq rfl)
    · exact .throw _
  · exact .throw _

/-- Several words are written one after the other, in step. -/
theorem tracks_putWords (id : TransactionId) (ns : Namespace) (first : UInt64) (n : Nat) :
    Tracks (c.Sessions owned) (fun _ _ => True) (putWords id ns first n)
      (putWords (c.rename id) ns first n) := by
  induction n generalizing first with
  | zero => exact .pure trivial
  | succ n ih =>
    exact .bind (c.tracks_session_ofEngine (c.tracks_put id ns _ [])) fun _ _ _ => ih (first + 1)

/-- The keys of a namespace are listed alike in a transaction and outside of one. -/
theorem tracks_dumpKeys (ns : Namespace) {tx? : Option Handle}
    (hnot : ∀ tx, tx? = some tx → (.transaction, tx) ∉ owned) :
    Tracks (c.Sessions owned) Eq (dumpKeys ns tx?) (dumpKeys ns tx?) := by
  cases tx? with
  | none =>
    exact c.tracks_session_ofEngine (c.tracks_ask fun _ _ h => c.agree_contents_keys h ns)
  | some tx =>
    refine .bind (c.tracks_session_transaction (hnot tx rfl)) ?_
    rintro id _ rfl
    exact c.tracks_session_ofEngine (c.tracks_visibleKeys id ns .all)

/-- The transactions that are begun correspond, and are put under the same handle. -/
theorem performs_begin (tx : Handle) :
    c.Performs owned (.store (.begin tx)) (performStore (.begin tx)) (performStore (.begin tx)) := by
  refine .bind (c.tracks_session_ofEngine c.tracks_begin) ?_
  rintro id _ rfl s s' hs - -
  exact ⟨.ok fun _ => .of_eq rfl, hs.holdTransaction tx id⟩

/-- An iterator is put under the handle that the step takes. -/
theorem performs_iterator (it tx : Handle) (ns : Namespace) (range : Range)
    (hnot : (.transaction, tx) ∉ owned) :
    c.Performs owned (.store (.iterator it tx ns range)) (performStore (.iterator it tx ns range))
      (performStore (.iterator it tx ns range)) := by
  refine .bind (c.tracks_session_transaction hnot) ?_
  rintro id _ rfl
  refine .bind (c.tracks_session_ofEngine (c.tracks_openIterator id ns range)) ?_
  rintro iterator _ rfl s s' hs - -
  exact ⟨.ok fun _ => .of_eq rfl, hs.holdIterator it iterator⟩

theorem tracks_drop {tx : Handle} (hnot : (.transaction, tx) ∉ owned) :
    Tracks (c.Sessions owned) c.Answers (performStore (.drop tx)) (performStore (.drop tx)) := by
  have hdrop : Tracks (c.Sessions owned) (fun _ _ => True)
      (modifyThe Session (dropTransaction tx) : SessionM PUnit)
      (modifyThe Session (dropTransaction tx)) := by
    exact .modify fun s s' hs => hs.update_of_notMem (hs.databases_dropTransaction tx) .none
      (fun other => meaning_dropTransaction s other tx) (fun other => meaning_dropTransaction s' other tx) hnot
  exact .bind (c.tracks_session_transaction hnot) fun _ _ _ => c.tracks_done hdrop

/-- Fresh counters are installed in both runs. -/
theorem installMetrics_alike {db db' : Database} (h : c.Databases db db') :
    c.Counts (some db.installMetrics.1) (some db'.installMetrics.1) ∧
      c.Databases db.installMetrics.2 db'.installMetrics.2 := by
  refine ⟨⟨rfl, fun hcounters => ?_⟩, h.engines, fun hcounters => ?_⟩
  · show some db'.metrics.size = some db.metrics.size
    rw [h.metrics hcounters]
  · show db'.metrics.insert db'.metrics.size {} = db.metrics.insert db.metrics.size {}
    rw [h.metrics hcounters]

/-- An index is made alike, up to its counters. -/
theorem makeIndex_alike (spec : IndexSpec) {s s' : Session} (h : c.Sessions owned s s') :
    c.Meanings (.index (makeIndex spec s).1) (.index (makeIndex spec s').1) ∧
      ∃ db db', (makeIndex spec s).2 = { s with database := db } ∧
        (makeIndex spec s').2 = { s' with database := db' } ∧ c.Databases db db' := by
  obtain ⟨name, ns, reverseNs, keys, values, options, counted⟩ := spec
  cases counted with
  | false =>
    refine ⟨?_, s.database, s'.database, rfl, rfl, h.database⟩
    cases reverseNs with
    | none => exact .index (.oneWay (.refl c _))
    | some reverseNs => exact .index (.twoWay (.refl c _) (.refl c _))
  | true =>
    obtain ⟨hcounts, hdatabases⟩ := c.installMetrics_alike h.database
    refine ⟨?_, s.database.installMetrics.2, s'.database.installMetrics.2, rfl, rfl, hdatabases⟩
    cases reverseNs with
    | none => exact .index (.oneWay hcounts)
    | some reverseNs => exact .index (.twoWay hcounts hcounts)

/-- An index is given its metrics on both sides, though they may be numbered otherwise. -/
theorem tracks_makeIndex (ix : Handle) (spec : IndexSpec) :
    Tracks (c.Sessions owned) c.Answers (performStore (.index ix spec))
      (performStore (.index ix spec)) := by
  intro s s' hs
  have hrun (s : Session) : (performStore (.index ix spec)).run s =
      (.ok .done, { (makeIndex spec s).2 with
        indexes := (makeIndex spec s).2.indexes.insert ix (makeIndex spec s).1 }) := rfl
  obtain ⟨hmeanings, db, db', hsession, hsession', hdatabases⟩ := c.makeIndex_alike spec hs
  rw [hrun, hrun, hsession, hsession']
  exact ⟨.ok (.of_eq rfl), hs.update_of_notMem hdatabases (.some hmeanings)
    (fun other => meaning_insert_index s db other ix _) (fun other => meaning_insert_index s' db' other ix _)
    (hs.index_notMem ix)⟩

/-- Each step on the store. -/
theorem performs_store (step : StoreStep)
    (hnot : ∀ tx, step.through? = some tx → (.transaction, tx) ∉ owned)
    (hfault : (Step.store step).isFault = false) :
    c.Performs owned (.store step) (performStore step) (performStore step) := by
  -- a transaction that a step goes through is not one of those owned, so both sides know it
  have hid {tx : Handle} (htx : step.through? = some tx) :=
    c.tracks_session_transaction (hnot tx htx)
  cases step with
  | createNamespace ns =>
    refine .of_answers (.bind (c.tracks_session_ofEngine (c.tracks_modifyStore ?_)) fun _ _ _ =>
      .pure (.of_eq rfl)) rfl
    exact fun h => c.created h ns
  | hasNamespace ns =>
    refine .of_answers (c.tracks_session_ofEngine (c.tracks_ask fun e e' h => ?_)) rfl
    exact .ok (.of_eq (by rw [c.hasNamespace_eq h]))
  | flush ns => exact .of_answers (c.tracks_flush ns) rfl
  | flushAll =>
    refine .of_answers (c.tracks_done (c.tracks_session_ofEngine (c.tracks_modifyStore ?_))) rfl
    exact fun h => c.flushedAll h
  | openIterators =>
    refine .of_tracks (c.tracks_session_ofEngine (c.tracks_ask fun e e' h => ?_)) rfl
    -- open iterators are counted alike only where the comparison says so
    exact .ok fun hcounters => .of_eq (by rw [c.openIterators (hcounters rfl) h])
  | recentTally ns range =>
    -- a size may overflow on one side alone; where it does not, the sizes are compared
    refine .of_answersUnless (.bind (c.tracksUnless_session_ofEngine (c.tracks_recentTally ns range))
      fun tally tally' hnear => .of_tracks (.pure ⟨fun hs => ?_, rfl⟩)) rfl
    rw [hnear hs]
  | olderSize ns range =>
    refine .of_answersUnless (.bind (c.tracksUnless_session_ofEngine (c.tracks_olderSize ns range))
      fun size size' hnear => .of_tracks (.pure ⟨fun hs => ?_, rfl⟩)) rfl
    rw [hnear hs]
  | dump ns tx? => exact .of_answers (c.tracks_answer (c.tracks_dumpKeys ns hnot) .keys) rfl
  | begin tx => exact c.performs_begin tx
  | commit tx hideNamespace =>
    exact .of_answers (c.tracks_commit_step (hnot tx rfl) hideNamespace) rfl
  | rollback tx =>
    refine .of_answers (.bind (hid rfl) ?_) rfl
    rintro id _ rfl
    exact c.tracks_done (c.tracks_session_ofEngine (c.tracks_rollback id))
  | drop tx => exact .of_answers (c.tracks_drop (hnot tx rfl)) rfl
  | pending tx =>
    refine .of_answers (.bind (hid rfl) ?_) rfl
    rintro id _ rfl
    exact c.tracks_answer (c.tracks_session_ofEngine (c.tracks_transaction id)) fun tx => .number tx.pending
  | get tx ns key =>
    refine .of_answers (.bind (hid rfl) ?_) rfl
    rintro id _ rfl
    exact c.tracks_answer (c.tracks_session_ofEngine (c.tracks_lookup id ns key)) .lookup
  | put tx ns key value =>
    refine .of_answers (.bind (hid rfl) ?_) rfl
    rintro id _ rfl
    exact c.tracks_done (c.tracks_session_ofEngine (c.tracks_put id ns key value))
  | putRange tx ns first n =>
    refine .of_answers (.bind (hid rfl) ?_) rfl
    rintro id _ rfl
    exact c.tracks_done (c.tracks_putWords id ns first n)
  | delete tx ns key =>
    refine .of_answers (.bind (hid rfl) ?_) rfl
    rintro id _ rfl
    exact c.tracks_done (c.tracks_session_ofEngine (c.tracks_delete id ns key))
  | iterator it tx ns range => exact c.performs_iterator it tx ns range (hnot tx rfl)
  | context tx? =>
    refine .of_answers (.bind (c.tracks_contextOf hnot) ?_) rfl
    rintro ctx _ rfl
    exact .pure (.of_eq (by cases ctx <;> rfl))
  | fault call skip times => cases hfault
  | clearFaults =>
    refine .of_answers (c.tracks_done (A := fun _ _ => True) (.modify fun s s' hs => ?_)) rfl
    exact hs.withDatabase ⟨c.healed hs.database.engines, hs.database.metrics⟩
  | index ix spec => exact .of_answers (c.tracks_makeIndex ix spec) rfl

/-! ### Steps of iterators -/

/-- The iterator under a handle is moved alike. -/
theorem tracks_moveIterator {it : Handle} (hnot : (.iterator, it) ∉ owned)
    (move : RawIterator → RawIterator) :
    Tracks (c.Sessions owned) c.Answers (moveIterator it move) (moveIterator it move) := by
  refine .bind .get fun s s' hs => .bind (c.tracks_resolve_iterator hs hnot) ?_
  rintro iterator _ rfl
  have hmove : Tracks (c.Sessions owned) (fun _ _ => True)
      (modifyThe Session fun session =>
        { session with iterators := session.iterators.insert it (move iterator) } : SessionM PUnit)
      (modifyThe Session fun session =>
        { session with iterators := session.iterators.insert it (move iterator) }) := by
    exact .modify fun s s' hs => hs.update_of_notMem hs.database (.some (.iterator (move iterator)))
      (fun other => meaning_insert_iterator s s.database other it _)
      (fun other => meaning_insert_iterator s' s'.database other it _) hnot
  exact .bind hmove fun _ _ _ => .pure (.of_eq rfl)

/-- Each step of an iterator. -/
theorem tracks_performIterator {it : Handle} (hnot : (.iterator, it) ∉ owned) (step : IteratorStep) :
    Tracks (c.Sessions owned) c.Answers (performIterator it step) (performIterator it step) := by
  cases step with
  | seekFirst => exact c.tracks_moveIterator hnot _
  | seekLast => exact c.tracks_moveIterator hnot _
  | seek key => exact c.tracks_moveIterator hnot _
  | next => exact c.tracks_moveIterator hnot _
  | prev => exact c.tracks_moveIterator hnot _
  | status =>
    refine .bind .get fun s s' hs => .bind (c.tracks_resolve_iterator hs hnot) ?_
    rintro iterator _ rfl
    exact .bind (c.tracks_session_ofEngine c.tracks_engine_status) fun _ _ _ => .pure (.of_eq rfl)
  | drop =>
    have hdrop : Tracks (c.Sessions owned) (fun _ _ => True)
        (modifyThe Session (dropIterator it) : SessionM PUnit)
        (modifyThe Session (dropIterator it)) := by
      exact .modify fun s s' hs => hs.update_of_notMem (hs.databases_dropIterator it) .none
        (fun other => meaning_dropIterator s other it) (fun other => meaning_dropIterator s' other it) hnot
    exact .bind .get fun s s' hs => .bind (c.tracks_resolve_iterator hs hnot) fun _ _ _ =>
      c.tracks_done hdrop

end Comparison

end SecondaryIndex
