import SecondaryIndex.Proofs.Parallel.Answers

/-!
# Steps of indexes side by side

A step of an index performs alike if it runs in no transaction or in one that both sessions have
(`Comparison.performs_index`). The two indexes are the same up to their counters.
-/

namespace SecondaryIndex

namespace Comparison

open Program Session

variable (c : Comparison) {α α' : Type} {A : α → α' → Prop} {owned : List Holding}

/-- A cursor that is opened is put under the handle that the step takes, on both sides. -/
theorem performs_openCursor {step : Step} {cur : Handle} (htakes : step.takes? = some (.cursor, cur))
    {kind : ItemKind} {x x' : IndexM (Cursor kind.Carrier)} (h : Tracks c.Databases c.Cursors x x') :
    c.Performs owned step (openCursor cur kind x) (openCursor cur kind x') := by
  refine .bind (c.tracks_session_ofIndex h) fun cursor cursor' halike s s' hs _ _ => ?_
  have hgiven : step.given? (.ok (.text "cursor")) = some (.cursor, cur) := htakes
  refine ⟨.ok fun _ => .of_eq rfl, ?_⟩
  have hsessions := hs.holdCursor cur halike
  rw [← hgiven] at hsessions
  exact hsessions

/-- The metrics of an index are no part of its description. -/
theorem describe_counting {K V : Type} (index : Index K V) {m : Option MetricsId}
    (hm : c.Counts index.options.metrics m) : (index.counting m).describe = index.describe := by
  unfold Index.describe
  show showRecord "MultiIndex" [_, _, ("options", (index.counting m).options.describe)] = _
  have hoptions : (index.counting m).options.describe = index.options.describe := by
    unfold IndexOptions.describe
    show showRecord "IndexOptions" [_, ("metrics", toString m.isSome)] = _
    rw [hm.isSome]
    rfl
  rw [hoptions]
  rfl

section Indexes

variable {K V : Type} {index index' : AnyIndex K V}

/-- Indexes that are alike are described in the same words. -/
theorem Indexes.describe_eq {c : Comparison} (h : c.Indexes index index') :
    index'.describe = index.describe := by
  cases h with
  | oneWay counts => exact c.describe_counting _ counts
  | twoWay forward reverse =>
    rename_i index m m'
    show showRecord "BidirectionalIndex"
      [("forward", (index.forward.counting m).describe),
        ("reverse", (index.reverse.counting m').describe)] = _
    rw [c.describe_counting _ forward, c.describe_counting _ reverse]
    rfl

end Indexes

/-- A question about statistics is answered on both sides or declined on both. -/
theorem tracks_askStatistics {keys values : ItemKind}
    {stats stats' : Statistics keys.Carrier values.Carrier} (h : c.StatisticsAlike stats stats')
    (budget : Budget) (estimateOk : Bool) (query : StatisticsQuery) :
    Tracks (c.Sessions owned) (Option.Rel c.CountsAlike) (askStatistics stats budget estimateOk query)
      (askStatistics stats' budget estimateOk query) := by
  cases query with
  | entries => exact .pure (h.rel_entries budget estimateOk)
  | keys => exact .pure (h.rel_keys budget estimateOk)
  | valuesOfKey key =>
    refine .bind (c.tracks_readItem keys key) ?_
    rintro key _ rfl
    exact .pure (h.rel_valuesOfKey budget estimateOk key)
  | values => exact .pure (h.rel_values budget estimateOk)
  | keysWithValue value =>
    refine .bind (c.tracks_readItem values value) ?_
    rintro value _ rfl
    exact .pure (h.rel_keysWithValue budget estimateOk value)

/-- A count is told alike, whether or not it is computed. -/
theorem answers_count {count count' : Count} (h : c.CountsAlike count count') {n? n?' : Option Nat}
    (hn : (count.isEstimate = true → c.sizes) → n? = n?') (hsome : n?'.isSome = n?.isSome) :
    c.Answers (.count count n?) (.count count' n?') := by
  refine ⟨fun hs => ?_, ?_⟩
  · rw [Answer.told_count, Answer.told_count, h.isEstimate, hn fun _ => hs]
  · rw [Answer.told_count, Answer.told_count, Answer.withoutSizes_count, Answer.withoutSizes_count,
      h.isEstimate]
    dsimp only
    split
    · -- of an estimate it is told only whether it was computed
      cases n? <;> cases n?' <;> simp_all
    · next hexact => rw [hn fun htrue => absurd htrue hexact]

/-- A question that is answered after something else was done in the meantime is tracked. -/
theorem tracks_statistics {keys values : ItemKind}
    {index index' : AnyIndex keys.Carrier values.Carrier} (h : c.Indexes index index') (ctx : Context)
    (query : StatisticsQuery) (budget : Budget) (estimateOk : Bool)
    (meanwhile : List (String × String)) (force : Bool) :
    TracksUnless c.StepStops (c.Sessions owned) c.Answers
      (performOnIndex ⟨keys, values, index⟩ ctx (.statistics query budget estimateOk meanwhile force))
      (performOnIndex ⟨keys, values, index'⟩ (ctx.map c.rename)
        (.statistics query budget estimateOk meanwhile force)) := by
  refine .bind (.of_tracks (c.tracks_askStatistics (h.statisticsAlike ctx) budget estimateOk query)) ?_
  rintro _ _ (⟨hcount⟩ | _)
  · refine .bind (.of_tracks (c.tracks_readPairs keys values meanwhile)) ?_
    rintro pairs _ rfl
    refine .bind (.of_tracks (c.tracks_session_ofIndex (h.tracks_addMany none pairs))) fun _ _ _ => ?_
    cases force with
    | true =>
      exact .bind (c.tracksUnless_session_ofIndex hcount.value) fun _ _ hn =>
        .of_tracks (.pure (c.answers_count hcount (fun hs => congrArg some (hn hs)) rfl))
    | false => exact .of_tracks (.pure (c.answers_count hcount (fun _ => rfl) rfl))
  · exact .of_tracks (.pure (.of_eq rfl))

/-- What an index is asked for that is the same whatever it counts into. -/
theorem Indexes.forward_eq {c : Comparison} {K V : Type} {index index' : AnyIndex K V}
    (h : c.Indexes index index') (f : Index K V → α) (hf : ∀ (half : Index K V) m,
      f (half.counting m) = f half) : f index'.forward = f index.forward := by
  obtain ⟨m, hforward, -⟩ := h.exists_forward
  rw [hforward, hf]

section OnIndex

variable {keys values : ItemKind} {index index' : AnyIndex keys.Carrier values.Carrier}
  (h : c.Indexes index index') (ctx : Context) {ix : Handle} {half? : Option Half}
  {tx? : Option Handle}

include h

/-- The counters of an index agree if its metrics correspond. -/
theorem performs_metrics :
    c.Performs owned (.index ix half? tx? .metrics) (performOnIndex ⟨keys, values, index⟩ ctx .metrics)
      (performOnIndex ⟨keys, values, index'⟩ (ctx.map c.rename) .metrics) := by
  obtain ⟨m, hforward, hm⟩ := h.exists_forward
  refine .of_tracks (.bind .get fun s s' hs => .pure fun hcounters => .of_eq ?_) rfl
  show Answer.counters (index.forward.options.metrics.bind s.database.metrics.get?) =
    .counters (index'.forward.options.metrics.bind s'.database.metrics.get?)
  rw [hforward, hs.database.metrics (hcounters rfl)]
  show _ = Answer.counters (m.bind _)
  rw [hm.eq (hcounters rfl)]

theorem performs_findByValue (cur : Handle) (value : String) :
    c.Performs owned (.index ix half? tx? (.findByValue cur value))
      (performOnIndex ⟨keys, values, index⟩ ctx (.findByValue cur value))
      (performOnIndex ⟨keys, values, index'⟩ (ctx.map c.rename) (.findByValue cur value)) := by
  cases h with
  | oneWay counts =>
    -- no cursor is opened, so the handle stays what it was
    intro s s' hs _ _
    refine ⟨.ok fun _ => .of_eq rfl, ?_⟩
    have hgiven : (Step.index ix half? tx? (.findByValue cur value)).given?
        (.ok (.text "no reverse lookup")) = none := rfl
    change c.Sessions (owned.filter fun other => some other ≠
      (Step.index ix half? tx? (.findByValue cur value)).given? (.ok (.text "no reverse lookup"))) s s'
    rw [hgiven]
    simpa using hs
  | twoWay forward reverse =>
    refine .bind (c.tracks_readItem values value) ?_
    rintro value _ rfl
    exact c.performs_openCursor rfl (c.tracks_find _ reverse ctx value)

/-- Each step on an index, on the index itself. -/
theorem performs_onIndex (step : IndexStep) :
    c.Performs owned (.index ix half? tx? step) (performOnIndex ⟨keys, values, index⟩ ctx step)
      (performOnIndex ⟨keys, values, index'⟩ (ctx.map c.rename) step) := by
  have hkey (text : String) :
      Tracks (c.Sessions owned) Eq (readItem keys text) (readItem keys text) :=
    c.tracks_readItem keys text
  have hvalue (text : String) :
      Tracks (c.Sessions owned) Eq (readItem values text) (readItem values text) :=
    c.tracks_readItem values text
  -- most steps are sent to the forward half
  obtain ⟨m, hforward, hm⟩ := h.exists_forward
  cases step with
  | name =>
    refine .of_answers (.pure (.of_eq ?_)) rfl
    exact congrArg Answer.text (h.forward_eq Index.name fun _ _ => rfl).symm
  | lifecycle => exact .of_answers (.pure (.of_eq rfl)) rfl
  | add key value =>
    refine .of_answers (.bind (hkey key) ?_) rfl
    rintro key _ rfl
    refine .bind (hvalue value) ?_
    rintro value _ rfl
    exact c.tracks_done (c.tracks_session_ofIndex (h.tracks_add ctx key value))
  | addMany pairs =>
    refine .of_answers (.bind (c.tracks_readPairs keys values pairs) ?_) rfl
    rintro pairs _ rfl
    exact c.tracks_answer (c.tracks_session_ofIndex (h.tracks_addMany ctx pairs)) .number
  | remove key value =>
    refine .of_answers (.bind (hkey key) ?_) rfl
    rintro key _ rfl
    refine .bind (hvalue value) ?_
    rintro value _ rfl
    exact c.tracks_done (c.tracks_session_ofIndex (h.tracks_remove ctx key value))
  | removeAll key =>
    refine .of_answers (.bind (hkey key) ?_) rfl
    rintro key _ rfl
    exact c.tracks_answer (c.tracks_session_ofIndex (h.tracks_removeAll ctx key)) .number
  | findFirst key =>
    refine .of_answers (.bind (hkey key) ?_) rfl
    rintro key _ rfl
    dsimp only
    rw [hforward]
    exact c.tracks_answer (c.tracks_session_ofIndex (c.tracks_findFirst _ ctx key)) _
  | find cur key =>
    refine .bind (hkey key) ?_
    rintro key _ rfl
    dsimp only
    rw [hforward]
    exact c.performs_openCursor rfl (c.tracks_find _ hm ctx key)
  | scanKeys cur =>
    show c.Performs owned _ _ (openCursor cur keys (index'.forward.scanKeys _))
    rw [hforward]
    exact c.performs_openCursor rfl (c.tracks_cursorOverKeys _ hm ctx .entry)
  | scanDistinctKeys cur =>
    show c.Performs owned _ _ (openCursor cur keys (index'.forward.scanDistinctKeys _))
    rw [hforward]
    exact c.performs_openCursor rfl (c.tracks_cursorOverKeys _ hm ctx _)
  | scanValues cur =>
    show c.Performs owned _ _ (openCursor cur values (index'.forward.scanValues _))
    rw [hforward]
    exact c.performs_openCursor rfl (c.tracks_scanValues _ hm ctx)
  | findByValue cur value => exact c.performs_findByValue h ctx cur value
  | count =>
    show c.Performs owned _ _ (do pure (.number (← Session.ofIndex (index'.forward.count _))))
    rw [hforward]
    exact .of_answers (c.tracks_answer (c.tracks_session_ofIndex (c.tracks_count _ hm ctx)) _) rfl
  | countKey key =>
    refine .of_answers (.bind (hkey key) ?_) rfl
    rintro key _ rfl
    dsimp only
    rw [hforward]
    exact c.tracks_answer (c.tracks_session_ofIndex (c.tracks_countKey _ hm ctx key)) _
  | span key =>
    refine .of_answers (.bind (hkey key) ?_) rfl
    rintro key _ rfl
    have hspan := h.forward_eq (·.span key) fun _ _ => rfl
    dsimp only at hspan ⊢
    rw [hspan]
    refine .bind (c.tracks_session_ofIndex (c.tracks_ofEncoding _)) ?_
    rintro bounds _ rfl
    exact .pure (.of_eq rfl)
  | estimateRange range =>
    show c.Performs owned _ _ (do pure (.large (← Session.ofIndex (index'.forward.estimateRange range))))
    rw [hforward]
    exact .of_answersUnless
      (c.tracks_large (c.tracksUnless_session_ofIndex (c.tracks_estimateRange _ hm range))) rfl
  | estimateKey key =>
    refine .of_answersUnless (.bind (.of_tracks (hkey key)) ?_) rfl
    rintro key _ rfl
    dsimp only
    rw [hforward]
    exact c.tracks_large (c.tracksUnless_session_ofIndex (c.tracks_estimateKey _ hm key))
  | estimateSize =>
    show c.Performs owned _ _ (do pure (.large (← Session.ofIndex index'.forward.estimateSize)))
    rw [hforward]
    exact .of_answersUnless (c.tracks_large (c.tracksUnless_session_ofIndex (c.tracks_estimateSize _ hm))) rfl
  | statistics query budget estimateOk meanwhile force =>
    exact .of_answersUnless (c.tracks_statistics h ctx query budget estimateOk meanwhile force) rfl
  | describe =>
    exact .of_answers (.pure (.of_eq (congrArg Answer.text h.describe_eq.symm))) rfl
  | metrics => exact c.performs_metrics h ctx
  | namespaceName =>
    refine .of_answers (.pure (.of_eq ?_)) rfl
    exact congrArg Answer.namespaceName (h.forward_eq Index.ns fun _ _ => rfl).symm
  | layout =>
    refine .of_answers (.pure (.of_eq ?_)) rfl
    exact congrArg Answer.text (h.forward_eq (·.codec.layout.name) fun _ _ => rfl).symm
  | physicalKey key value =>
    refine .of_answers (.bind (hkey key) ?_) rfl
    rintro key _ rfl
    refine .bind (hvalue value) ?_
    rintro value _ rfl
    have hencode := h.forward_eq (·.codec.encode key value) fun _ _ => rfl
    dsimp only at hencode ⊢
    rw [hencode]
    exact c.tracks_answer (c.tracks_session_ofIndex (c.tracks_ofEncoding _)) _

end OnIndex

/-- The half of an index, as far as there is one. -/
theorem half?_alike {keys values : ItemKind} {index index' : AnyIndex keys.Carrier values.Carrier}
    (h : c.Indexes index index') (half : Half) :
    Option.Rel (fun held held' => c.Meanings (.index held) (.index held'))
      (IndexHandle.half? ⟨keys, values, index⟩ half) (IndexHandle.half? ⟨keys, values, index'⟩ half) := by
  cases h with
  | oneWay counts => cases half <;> exact .none
  | twoWay forward reverse =>
    cases half with
    | forward => exact .some (.index (.oneWay forward))
    | reverse => exact .some (.index (.oneWay reverse))

/-- Each step on an index, on the handle of the index. -/
theorem performs_index (ix : Handle) (half? : Option Half) (tx? : Option Handle) (step : IndexStep)
    (hnot : ∀ tx, tx? = some tx → (.transaction, tx) ∉ owned) :
    c.Performs owned (.index ix half? tx? step) (performIndex ix half? tx? step)
      (performIndex ix half? tx? step) := by
  -- the index is looked up on both sides, then the context, and only then is anything asked of it
  have hresolve {s s' : Session} (hs : c.Sessions owned s s') :
      Tracks (c.Sessions owned) (fun held held' => c.Meanings (.index held) (.index held'))
        (resolve s.indexes ix) (resolve s'.indexes ix) := by
    unfold resolve
    rcases hs.index_cases ix with ⟨hnone, hnone'⟩ |
      ⟨keys, values, index, index', hsome, hsome', halike⟩
    · rw [hnone, hnone']
      exact .throw _
    · rw [hsome, hsome']
      exact .pure (.index halike)
  have hperform {held held' : IndexHandle} (hheld : c.Meanings (.index held) (.index held')) :
      c.Performs owned (.index ix half? tx? step)
        (contextOf tx? >>= fun ctx => performOnIndex held ctx step)
        (contextOf tx? >>= fun ctx => performOnIndex held' ctx step) := by
    refine .bind (c.tracks_contextOf hnot) ?_
    rintro ctx _ rfl
    cases hheld with
    | index halike => exact c.performs_onIndex halike ctx step
  refine .bind .get fun s s' hs => .bind (hresolve hs) fun held held' hheld => ?_
  cases half? with
  | none => exact .bind (.pure hheld) fun _ _ hheld => hperform hheld
  | some half =>
    -- both indexes have the half that is asked, or neither does
    have hrel : Option.Rel (fun held held' => c.Meanings (.index held) (.index held'))
        (held.half? half) (held'.half? half) := by
      cases hheld with
      | index halike => exact c.half?_alike halike half
    dsimp only
    generalize held.half? half = part?, held'.half? half = part?' at hrel
    cases hrel with
    | none =>
      exact .bind (.throw (A := fun held held' => c.Meanings (.index held) (.index held')) _)
        fun _ _ hheld => hperform hheld
    | some hpart => exact .bind (.pure hpart) fun _ _ hheld => hperform hheld

end Comparison

end SecondaryIndex
