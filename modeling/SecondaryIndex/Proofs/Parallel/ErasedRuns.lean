import SecondaryIndex.Proofs.Parallel.Alone
import SecondaryIndex.Proofs.Parallel.Erasure

/-!
# Runs with a transaction and without

A run stays alike if a transaction is erased from it that commits no writes
(`Session.Episode.erasable_of_uncommitted`). Until the transaction begins, the two runs are the same. From
then on the second session has a transaction more, and step by step it is either both that go on or only
one of them (`Sessions.carryOut_erased`).
-/

namespace SecondaryIndex

open Program

namespace Session

/-! ### Handles of transactions -/

/-- The engine is regular, and the transactions that have handles have been begun. -/
structure Regular (s : Session) : Prop where
  engine : s.database.engine.Regular s.database.engine.nextTransaction
  begun : ∀ tx id, s.transactions.get? tx = some id → id < s.database.engine.nextTransaction

theorem regular_ofOptions (options : StoreOptions) : (ofOptions options).Regular :=
  ⟨⟨Engine.sound_ofOptions options, rfl, Nat.le_refl _⟩, nofun⟩

/-- The session with one more transaction, which has no handle yet. -/
def begun (s : Session) : Session := { s with database := s.database.mapEngine Engine.begun }

/-- The session with a handle given to a transaction. -/
def withHandle (s : Session) (tx : Handle) (id : TransactionId) : Session :=
  { s.dropTransaction tx with transactions := (s.dropTransaction tx).transactions.insert tx id }

variable {s : Session} {tx : Handle}

/-- A transaction begins if nothing fails, and is given its handle. -/
theorem run_begin (hhealthy : s.database.engine.faults = .healthy) :
    (perform (.store (.begin tx))).run s =
      ({ outcome := .ok .done }, s.begun.withHandle tx s.database.engine.nextTransaction) := by
  have hbegin : (ofEngine Engine.begin).run s =
      (.ok s.database.engine.nextTransaction, s.begun) := by
    have hrun : (ofEngine Engine.begin).run s =
        ((Engine.begin.run s.database.engine).1.mapError .engine,
          { s with database := { s.database with engine := (Engine.begin.run s.database.engine).2 } }) := rfl
    rw [hrun, Engine.run_begin, Engine.fails_of_healthy _ _ hhealthy, Engine.drawn_of_healthy _ _ hhealthy]
    rfl
  have hperform : (performStore (.begin tx)).run s =
      (.ok .done, s.begun.withHandle tx s.database.engine.nextTransaction) := by
    show (ofEngine Engine.begin >>= fun id => _ : SessionM Answer).run s = _
    rw [run_bind_ok hbegin]
    rfl
  show (Reply.mk ((performStore (.begin tx)).run s).1 none, ((performStore (.begin tx)).run s).2) = _
  rw [hperform]

/-- To drop a handle gives up the transaction that it stands for. -/
theorem run_drop {id : TransactionId} (hget : s.transactions.get? tx = some id) :
    (performStore (.drop tx)).run s = (.ok .done, s.dropTransaction tx) := by
  show (transaction tx >>= fun _ => _ : SessionM Answer).run s = _
  unfold transaction resolve
  rw [bind_assoc, run_bind_ok (run_get s), hget]
  rfl

theorem nextTransaction_dropTransaction :
    (s.dropTransaction tx).database.engine.nextTransaction = s.database.engine.nextTransaction := by
  unfold dropTransaction
  split
  · exact (Engine.aside_discard _ _).next
  · rfl

/-- A step that changes the handle of a transaction begins it or drops it. -/
theorem Step.of_changes?_transaction {step : Step} {outcome : Except StepError Answer}
    (h : step.changes? outcome = some (.transaction, tx)) :
    step = .store (.begin tx) ∨ Step.drop? (.transaction, tx) = some step := by
  unfold changes? at h
  rcases Option.or_eq_some_iff.1 h with hgiven | ⟨-, huses⟩
  · rcases takes?_cases (given?_eq_takes? hgiven) with ⟨tx', rfl, heq⟩ | hkind | hkind
    · cases heq
      exact .inl rfl
    · cases hkind
    · cases hkind
  · unfold uses? at huses
    split at huses <;> cases huses
    exact .inr rfl

namespace Regular

/-- Steps other than the choice of faults keep a session regular. -/
theorem perform (h : s.Regular) {step : Step} (hfault : step.isFault = false) :
    ((Session.perform step).run s).2.Regular := by
  -- numbers are never taken back, so only the handle that the step changes is to be looked at
  have hregular := h.engine.perform hfault
  refine ⟨⟨hregular.sound, hregular.healthy, Nat.le_refl _⟩, fun tx id hget => ?_⟩
  have hmeaning : ((Session.perform step).run s).2.meaning (.transaction, tx) = some (.transaction id) :=
    congrArg (Option.map _) hget
  have hchanges := perform_changes step (Step.fits_anything s step)
  by_cases hat : step.changes? ((Session.perform step).run s).1.outcome = some (.transaction, tx)
  · rcases Step.of_changes?_transaction hat with rfl | hdrop
    · rw [run_begin h.engine.healthy] at hmeaning ⊢
      rw [withHandle, meaning_holdTransaction, if_pos rfl] at hmeaning
      cases hmeaning
      show _ < (s.begun.dropTransaction tx).database.engine.nextTransaction
      rw [nextTransaction_dropTransaction]
      exact Nat.lt_succ_self _
    · rw [meaning_perform_drop hdrop] at hmeaning
      cases hmeaning
  · rw [hchanges.meaning _ hat] at hmeaning
    obtain ⟨id', hget', heq⟩ := Option.map_eq_some_iff.1 hmeaning
    cases heq
    exact Nat.lt_of_lt_of_le (h.begun tx id hget') hregular.given

theorem carryOut (h : s.Regular) {steps : List Step} (hfaults : ∀ step ∈ steps, step.isFault = false) :
    (s.carryOut steps).2.Regular := by
  induction steps generalizing s with
  | nil => exact h
  | cons step steps ih =>
    rw [carryOut_cons]
    exact ih (h.perform (hfaults step List.mem_cons_self)) fun step hmem =>
      hfaults step (List.mem_cons_of_mem _ hmem)

end Regular

/-! ### Marked steps -/

/-- Whether the reply to a step is to be compared: the step stays, and does not tell how much was used. -/
def isCompared (step : Step × Bool) : Bool := step.2 && !step.1.tellsUse

theorem length_carryOut (s : Session) (steps : List Step) :
    (s.carryOut steps).1.length = steps.length := by
  induction steps generalizing s with
  | nil => rfl
  | cons step steps ih =>
    rw [carryOut_cons, List.length_cons, List.length_cons, ih]

theorem repliesTo_append {α : Type} (kind : α → Bool) {l : List α} {replies : List Reply}
    (h : replies.length = l.length) (l' : List α) (replies' : List Reply) :
    repliesTo kind (l ++ l') (replies ++ replies') =
      repliesTo kind l replies ++ repliesTo kind l' replies' := by
  unfold repliesTo
  rw [List.zip_append h.symm, List.filter_append, List.map_append]

theorem repliesTo_cons_not (step : Step) (l : List (Step × Bool)) (reply : Reply) (replies : List Reply) :
    repliesTo isCompared ((step, false) :: l) (reply :: replies) = repliesTo isCompared l replies := rfl

theorem repliesTo_cons_stays (step : Step) (l : List (Step × Bool)) (reply : Reply) (replies : List Reply) :
    repliesTo isCompared ((step, true) :: l) (reply :: replies) =
      (if step.tellsUse then [] else [reply]) ++ repliesTo isCompared l replies := by
  rw [repliesTo_cons, isCompared]
  cases step.tellsUse <;> rfl

/-- What does not stay is not compared. -/
theorem repliesTo_leftover (steps : List Step) (replies : List Reply) :
    repliesTo isCompared (steps.map (·, false)) replies = [] := by
  unfold repliesTo
  rw [List.map_eq_nil_iff, List.filter_eq_nil_iff]
  rintro ⟨⟨step, stays⟩, reply⟩ hmem
  obtain ⟨step', -, heq⟩ := List.mem_map.1 (List.of_mem_zip hmem).1
  cases heq
  simp [isCompared]

/-- Of a step of the transaction the erased run keeps at most what becomes of its handle, and of any other
step all. -/
theorem erased_cons (m : Moment) (ms : List Moment) :
    erased (m :: ms) =
      (if m.isThrough then m.leftover.map (·, false) else [(m.step, true)]) ++ erased ms :=
  List.flatMap_cons

theorem map_fst_marked_moments (s : Session) (owned : List Holding) (steps : List Step) :
    (marked (s.moments owned steps)).map Prod.fst = steps := by
  induction steps generalizing s owned with
  | nil => rfl
  | cons step steps ih => exact congrArg (step :: ·) (ih _ _)

/-- Where nothing is left over, what is erased are just the steps of the transaction. -/
theorem erased_eq_filter_marked {ms : List Moment}
    (h : ∀ m ∈ ms, m.isThrough = true → m.leftover = []) : erased ms = (marked ms).filter Prod.snd := by
  induction ms with
  | nil => rfl
  | cons m ms ih =>
    have hrest := ih fun m' hmem => h m' (List.mem_cons_of_mem _ hmem)
    rw [erased_cons, hrest]
    show _ = ((m.step, !m.isThrough) :: marked ms).filter Prod.snd
    cases hthrough : m.isThrough with
    | true =>
      rw [if_pos rfl, h m List.mem_cons_self hthrough]
      rfl
    | false => rfl

theorem map_fst_mark (steps : List Step) (stays : Bool) :
    (steps.map (·, stays)).map Prod.fst = steps := by
  rw [List.map_map]
  exact List.map_id _

end Session

namespace Comparison

open Session

variable {c : Comparison} {id : TransactionId} {owned : List Holding} {s s' : Session}

/-- The two sessions have given the same handle anew. -/
theorem given?_eq {step : Step} {r r' : Except StepError Answer} (h : Agree (c.Shows step) r r') :
    step.given? r' = step.given? r := by
  cases h with
  | error err => rfl
  | ok shows =>
    cases htells : step.tellsUse with
    | true =>
      have htakes := Step.takes?_of_tellsUse htells
      rw [Step.given?_of_takes? htakes, Step.given?_of_takes? htakes]
    | false =>
      have hanswers := shows fun h => by rw [htells] at h; cases h
      rw [Step.given?_ok, Step.given?_ok, ← Answer.text?_told, hanswers.withoutSizes, Answer.text?_told]

/-- A step that stays is carried out in both sessions. -/
theorem Sessions.stay {m : Moment} (hs : (omitting id).Sessions m.owned s m.session)
    (hthrough : m.isThrough = false) (hfault : m.step.isFault = false) :
    (omitting id).Replied m.owned m.step ((Session.perform m.step).run s)
        ((Session.perform m.step).run m.session) ∧
      (omitting id).Sessions m.ownedAfter ((Session.perform m.step).run s).2 m.next := by
  have hnot (holding : Holding) (hholding : m.step.through? = some holding) : holding ∉ m.owned := by
    intro hmem
    rw [Moment.isThrough_iff.2 ⟨holding, hholding, hmem⟩] at hthrough
    cases hthrough
  have hreplied := hs.perform_sizes trivial hnot hfault
  refine ⟨hreplied, ?_⟩
  unfold Moment.ownedAfter Moment.given? Moment.outcome
  rw [if_neg (by rw [hthrough]; exact Bool.false_ne_true), given?_eq hreplied.outcome]
  exact hreplied.sessions.filter_held

/-- A run goes on alike without the steps of the transaction, as long as these commit no writes. If the run is not
broken off, neither is what is left of it. -/
theorem Sessions.carryOut_erased (hs : (omitting id).Sessions owned s s')
    (hheld : ∀ holding ∈ owned, s'.isHeld holding.1 holding.2) {steps : List Step}
    (hfaults : ∀ step ∈ steps, step.isFault = false)
    (hcommits : ∀ m ∈ s'.moments owned steps, m.isThrough = true → m.commitsWrites = false)
    (hgo : s'.GoesOn steps) :
    s.GoesOn ((erased (s'.moments owned steps)).map Prod.fst) ∧
      (repliesTo isCompared (marked (s'.moments owned steps)) (s'.carryOut steps).1).map Reply.told =
        (repliesTo isCompared (erased (s'.moments owned steps))
          (s.carryOut ((erased (s'.moments owned steps)).map Prod.fst)).1).map Reply.told := by
  -- by induction on the steps; the handles that belong to the transaction change along with the sessions
  induction steps generalizing owned s s' with
  | nil => exact ⟨nofun, rfl⟩
  | cons step steps ih =>
    let m : Moment := ⟨s', owned, step⟩
    obtain ⟨hstep, hsteps⟩ := goesOn_cons_iff.1 hgo
    have hheld' : ∀ holding ∈ m.ownedAfter, m.next.isHeld holding.1 holding.2 := fun holding hmem =>
      (List.mem_filter.1 hmem).2
    have hfaults' : ∀ step ∈ steps, step.isFault = false := fun step hmem =>
      hfaults step (List.mem_cons_of_mem _ hmem)
    have hcommits' : ∀ m' ∈ m.next.moments m.ownedAfter steps, m'.isThrough = true →
        m'.commitsWrites = false := fun m' hmem => hcommits m' (List.mem_cons_of_mem _ hmem)
    show s.GoesOn ((erased (m :: m.next.moments m.ownedAfter steps)).map Prod.fst) ∧
      (repliesTo isCompared ((step, !m.isThrough) :: marked (m.next.moments m.ownedAfter steps))
          (s'.carryOut (step :: steps)).1).map Reply.told =
        (repliesTo isCompared (erased (m :: m.next.moments m.ownedAfter steps))
          (s.carryOut ((erased (m :: m.next.moments m.ownedAfter steps)).map Prod.fst)).1).map Reply.told
    rw [erased_cons, carryOut_cons]
    cases hthrough : m.isThrough with
    | true =>
      -- only the second session takes the step, the first one what is left over; neither is compared
      obtain ⟨hgoes, hreplies⟩ := ih (hs.erase hthrough hheld (hcommits m List.mem_cons_self hthrough)) hheld'
        hfaults' hcommits' hsteps
      rw [if_pos rfl, Bool.not_true, repliesTo_cons_not, List.map_append, map_fst_mark, goesOn_append_iff,
        carryOut_append, repliesTo_append _ (by rw [length_carryOut, List.length_map]), repliesTo_leftover,
        List.nil_append]
      exact ⟨⟨m.goesOn_leftover s, hgoes⟩, hreplies⟩
    | false =>
      -- both sessions take the step
      obtain ⟨hreplied, hsessions⟩ := hs.stay hthrough (hfaults step List.mem_cons_self)
      obtain ⟨hgoes, hreplies⟩ := ih hsessions hheld' hfaults' hcommits' hsteps
      rw [if_neg Bool.false_ne_true, List.singleton_append, List.map_cons, goesOn_cons_iff, carryOut_cons,
        Bool.not_false, repliesTo_cons_stays, repliesTo_cons_stays, List.map_append, List.map_append]
      refine ⟨⟨hreplied.breaksOff_eq.symm.trans hstep, hgoes⟩, congrArg₂ _ ?_ hreplies⟩
      cases htells : step.tellsUse with
      | true => rfl
      | false =>
        exact congrArg (fun reply => [reply]) (hreplied.told_eq trivial fun h => by rw [htells] at h; cases h)

/-! ### Where the transaction begins -/

/-- A meaning is alike to itself if the transactions that have been begun keep their numbers. -/
theorem meanings_of_regular (h : s.Regular)
    (hrename : ∀ id, id < s.database.engine.nextTransaction → c.rename id = id) (holding : Holding) :
    Option.Rel c.Meanings (s.meaning holding) (s.meaning holding) := by
  cases hmeaning : s.meaning holding with
  | none => exact .none
  | some meaning =>
    refine .some (.refl _ meaning fun id hid => ?_)
    subst hid
    obtain ⟨kind, tx⟩ := holding
    obtain rfl : kind = .transaction := fst_of_meaning_transaction hmeaning
    obtain ⟨id', hget, heq⟩ := Option.map_eq_some_iff.1 hmeaning
    cases heq
    exact hrename id (h.begun tx id hget)

/-- Up to its begin there is no difference. -/
theorem sessions_begun (h : s.Regular) :
    (omitting s.database.engine.nextTransaction).Sessions [] s s.begun :=
  ⟨⟨Engine.omits_begun h.engine.sound h.engine.healthy, nofun⟩,
    fun holding _ => meanings_of_regular h (fun _ hid => if_pos hid) holding, nofun, nofun,
    fun hne => absurd rfl hne, nofun⟩

/-- The transaction is given its handle, which stands for nothing without it. -/
theorem Sessions.withHandle (hs : (omitting id).Sessions [] s s') (tx : Handle) :
    (omitting id).Sessions [(.transaction, tx)] (s.dropTransaction tx) (s'.withHandle tx id) := by
  refine ⟨hs.databases_dropTransaction tx, fun holding hnot => ?_, fun holding hmem => ?_,
    fun holding hmem j hj => ?_, fun _ => rfl, fun ix hmem => ?_⟩
  · have hne : holding ≠ (.transaction, tx) := fun heq => hnot (List.mem_singleton.2 heq)
    rw [meaning_dropTransaction, Session.withHandle, meaning_holdTransaction, if_neg hne, if_neg hne]
    exact hs.meanings holding List.not_mem_nil
  · rw [meaning_dropTransaction, if_pos (List.mem_singleton.1 hmem)]
  · rw [Session.withHandle, meaning_holdTransaction, if_pos (List.mem_singleton.1 hmem)] at hj
    cases hj
    rfl
  · cases List.mem_singleton.1 hmem

end Comparison

namespace Session

/-! ### Runs of which a transaction is erased -/

/-- A run, with one of the transactions that begin in it. -/
structure Episode where
  options : StoreOptions
  /-- What is done before the transaction begins. -/
  before : List Step
  /-- The handle that the transaction is given. -/
  tx : Handle
  /-- What is done from then on. -/
  rest : List Step

namespace Episode

variable (episode : Episode)

/-- The steps of the run, with the beginning of the transaction among them. -/
def steps : List Step := episode.before ++ .store (.begin episode.tx) :: episode.rest

/-- The begin of the transaction. -/
def begin : Moment := ⟨after episode.options episode.before, [], .store (.begin episode.tx)⟩

/-- What is done once the transaction has begun. -/
def course : List Moment := episode.begin.next.moments [(.transaction, episode.tx)] episode.rest

/-- The steps of the run, and whether they stay when the transaction is erased. -/
def marked : List (Step × Bool) :=
  episode.before.map (·, true) ++ (episode.begin.step, false) :: Session.marked episode.course

/-- The run without the transaction: the steps that stay, and what is left over of the others. -/
def erased : List (Step × Bool) :=
  episode.before.map (·, true) ++ (episode.begin.leftover.map (·, false) ++ Session.erased episode.course)

/-- Whether the transaction ever commits writes. -/
def commitsWrites : Bool := episode.course.any fun m => m.isThrough && m.commitsWrites

variable {episode}

/-- Every step of the run is marked. -/
theorem map_fst_marked : episode.marked.map Prod.fst = episode.steps := by
  unfold marked steps course
  rw [List.map_append, map_fst_mark, List.map_cons, map_fst_marked_moments]
  rfl

/-- Unless a step of the transaction does something for others, all that is done is to delete the begin of
the transaction and its steps. -/
theorem erased_eq_filter (hbegin : episode.begin.leftover = [])
    (hcourse : ∀ m ∈ episode.course, m.isThrough = true → m.leftover = []) :
    episode.erased = episode.marked.filter Prod.snd := by
  have hbefore : (episode.before.map (·, true)).filter Prod.snd = episode.before.map (·, true) := by
    rw [List.filter_eq_self]
    rintro step hmem
    obtain ⟨_, -, rfl⟩ := List.mem_map.1 hmem
    rfl
  unfold erased marked
  rw [hbegin, erased_eq_filter_marked hcourse, List.filter_append, hbefore]
  rfl

/-- Where the transaction begins, its handle is dropped if it stood for another one. -/
theorem carryOut_leftover (h : episode.begin.session.Regular) :
    (episode.begin.session.carryOut episode.begin.leftover).2 =
      episode.begin.session.dropTransaction episode.tx := by
  have hgiven : episode.begin.given? = some (.transaction, episode.tx) := by
    unfold Moment.given? Moment.outcome
    show (Step.store (.begin episode.tx)).given? ((perform (.store (.begin episode.tx))).run _).1.outcome = _
    rw [run_begin h.engine.healthy]
    rfl
  rw [Moment.leftover_of_given? rfl hgiven]
  cases hget : episode.begin.session.transactions.get? episode.tx with
  | none =>
    have hsame : episode.begin.session.dropTransaction episode.tx = episode.begin.session := by
      simp only [dropTransaction, hget]
    rw [if_neg fun h => ?_, hsame]
    · rfl
    · have hcontains := h.2
      simp [isHeld, SortedMap.contains, hget] at hcontains
  | some id =>
    have hheld : episode.begin.session.isHeld .transaction episode.tx := by
      simp [isHeld, SortedMap.contains, hget]
    rw [if_pos ⟨List.not_mem_nil, hheld⟩]
    show ((performStore (.drop episode.tx)).run _).2 = _
    rw [run_drop hget]

/-- A transaction that commits no writes can be erased: if the run is not broken off, the run without the
transaction is not either, and every step that stays is answered as before, but for what tells how much was used. -/
theorem erasable_of_uncommitted (hfaults : ∀ step ∈ episode.steps, step.isFault = false)
    (huncommitted : episode.commitsWrites = false) {replies : List Reply}
    (hrun : run episode.options episode.steps = some replies) :
    ∃ replies', run episode.options (episode.erased.map Prod.fst) = some replies' ∧
      (repliesTo isCompared episode.marked replies).map Reply.told =
        (repliesTo isCompared episode.erased replies').map Reply.told := by
  have hregular : episode.begin.session.Regular :=
    (regular_ofOptions episode.options).carryOut fun step hmem => hfaults step (List.mem_append_left _ hmem)
  have hbegun : episode.begin.next =
      episode.begin.session.begun.withHandle episode.tx episode.begin.session.database.engine.nextTransaction :=
    congrArg Prod.snd (run_begin hregular.engine.healthy)
  -- where the transaction begins the two sessions differ in nothing else
  have hsessions := (Comparison.sessions_begun hregular).withHandle episode.tx
  rw [← hbegun, ← carryOut_leftover hregular] at hsessions
  have hheld : ∀ holding ∈ [(HandleKind.transaction, episode.tx)],
      episode.begin.next.isHeld holding.1 holding.2 := by
    intro holding hmem
    rw [hbegun, isHeld_eq, withHandle, meaning_holdTransaction, if_pos (List.mem_singleton.1 hmem)]
    rfl
  obtain ⟨hgo, rfl⟩ := run_eq_some_iff.1 hrun
  rw [steps, goesOn_append_iff, goesOn_cons_iff] at hgo
  obtain ⟨hgoBefore, -, hgoRest⟩ := hgo
  obtain ⟨hgoes, hreplies⟩ := hsessions.carryOut_erased hheld
    (fun step hmem => hfaults step (List.mem_append_right _ (List.mem_cons_of_mem _ hmem)))
    (fun m hmem hthrough => by
      have huncommitted' := List.any_eq_false.1 huncommitted m hmem
      rw [hthrough, Bool.true_and] at huncommitted'
      exact Bool.eq_false_iff.2 huncommitted') hgoRest
  -- up to there the two runs are the same run
  refine ⟨_, run_eq_some_iff.2 ⟨?_, rfl⟩, ?_⟩
  · rw [erased, List.map_append, map_fst_mark, List.map_append, map_fst_mark, goesOn_append_iff,
      goesOn_append_iff]
    exact ⟨hgoBefore, episode.begin.goesOn_leftover _, hgoes⟩
  · rw [steps, marked, erased, List.map_append, List.map_append, map_fst_mark, map_fst_mark,
      carryOut_append, carryOut_append, carryOut_append, carryOut_cons,
      repliesTo_append _ (by rw [length_carryOut, List.length_map]),
      repliesTo_append _ (by rw [length_carryOut, List.length_map]),
      repliesTo_append _ (by rw [length_carryOut, List.length_map]), repliesTo_leftover, List.nil_append,
      repliesTo_cons_not, List.map_append, List.map_append]
    exact congrArg _ hreplies

/-- A transaction writes a key, looks around, and fails to commit since another one was faster. -/
def contended : Episode where
  options := {}
  before := [.store (.createNamespace "records"), .store (.begin "u"), .store (.put "u" "records" [1] [2])]
  tx := "t"
  rest := [.store (.put "t" "records" [1] [3]), .store (.iterator "it" "t" "records" .all),
    .iterator "it" .seekFirst, .store (.commit "u" false), .store (.commit "t" false), .store (.begin "u"),
    .store (.get "u" "records" [1]), .store (.recentTally "records" .all)]

/-- A transaction that loses against a commit made on the way, after its handles were used by others. -/
theorem erasable_of_conflict :
    ∃ replies, run contended.options contended.steps = some replies ∧
      replies.map (fun reply => reply.outcome.isOk) =
        [true, true, true, true, true, true, true, true, false, true, true, true] ∧
      (∀ step ∈ contended.steps, step.isFault = false) ∧ contended.commitsWrites = false ∧
      ∃ replies', run contended.options (contended.erased.map Prod.fst) = some replies' ∧
        (repliesTo isCompared contended.marked replies).map Reply.told =
          (repliesTo isCompared contended.erased replies').map Reply.told := by
  have hfaults : ∀ step ∈ contended.steps, step.isFault = false := by decide +kernel
  have huncommitted : contended.commitsWrites = false := by decide +kernel
  obtain ⟨replies, hrun, hok⟩ := Option.map_eq_some_iff.1 (show (run contended.options contended.steps).map
    (·.map fun reply => reply.outcome.isOk) =
      some [true, true, true, true, true, true, true, true, false, true, true, true] by decide +kernel)
  exact ⟨replies, hrun, hok, hfaults, huncommitted, erasable_of_uncommitted hfaults huncommitted hrun⟩

end Episode

end Session

end SecondaryIndex
