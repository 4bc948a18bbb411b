import SecondaryIndex.Proofs.Parallel.Omission
import SecondaryIndex.Proofs.Parallel.Run
import SecondaryIndex.Proofs.Parallel.Turns
import SecondaryIndex.Proofs.Session.Sizes

/-!
# Erasing a transaction

A run is followed together with the handles that belong to one of its transactions: the handle of the
transaction itself, and those of iterators and cursors that were opened in it (`Session.moments`). A step
that is sent to one of them is erased, up to what it does for others (`Moment.leftover`).

Two sessions, of which only the second one has the transaction, stay alike when a step of the
transaction is carried out in the second one alone, as long as it commits no writes
(`Sessions.erase`).
-/

namespace SecondaryIndex

open Program

namespace Session

/-- A step to come, in a session of which some handles belong to a transaction. -/
structure Moment where
  session : Session
  owned : List Holding
  step : Step

/-- Whether the transaction of a handle has writes that are not committed. -/
def hasPending (session : Session) (tx : Handle) : Bool :=
  ((session.transactions.get? tx).bind session.database.engine.transactions.get?).any (·.pending != 0)

namespace Moment

variable (m : Moment)

def outcome : Except StepError Answer := ((perform m.step).run m.session).1.outcome

/-- The session after the step. -/
def next : Session := ((perform m.step).run m.session).2

def given? : Option Holding := m.step.given? m.outcome

/-- Whether the step is carried out through the transaction, or through what was opened in it. -/
def isThrough : Bool := m.step.through?.any (· ∈ m.owned)

/-- The handles that belong to the transaction after the step. -/
def ownedAfter : List Holding :=
  (if m.isThrough then m.given?.toList ++ m.owned
    else m.owned.filter fun holding => some holding ≠ m.given?).filter
      fun holding => m.next.isHeld holding.1 holding.2

/-- What the step does for others than its transaction: it may let pairs come in before it counts, and
a handle that it gives anew drops what it stood for. -/
def leftover : List Step :=
  m.step.meanwhile?.toList ++
    (m.given?.filter fun holding => holding ∉ m.owned ∧ m.session.isHeld holding.1 holding.2).toList.filterMap
      Step.drop?

/-- Whether the step commits writes. -/
def commitsWrites : Bool :=
  match m.step, m.outcome with
  | .store (.commit tx _), .ok .done => m.session.hasPending tx
  | _, _ => false

end Moment

/-- The steps of a run, each with the session that it meets. -/
def moments (session : Session) (owned : List Holding) : List Step → List Moment
  | [] => []
  | step :: steps =>
    let m : Moment := ⟨session, owned, step⟩
    m :: moments m.next m.ownedAfter steps

/-- The steps of a run, and whether they stay when the transaction is erased. -/
def marked (ms : List Moment) : List (Step × Bool) := ms.map fun m => (m.step, !m.isThrough)

/-- What stays of the steps of a run, and what is left over of the others. -/
def erased (ms : List Moment) : List (Step × Bool) :=
  ms.flatMap fun m => if m.isThrough then m.leftover.map (·, false) else [(m.step, true)]

/-! ### The handles of a step -/

/-- What is dropped is not held any more. -/
theorem meaning_perform_drop {s : Session} {holding : Holding} {step : Step}
    (h : Step.drop? holding = some step) : ((perform step).run s).2.meaning holding = none := by
  have hresolve {α : Type} {handles : SortedMap Handle α} {handle : Handle} {f : α → SessionM Answer}
      (hnone : handles.get? handle = none → s.meaning holding = none)
      (hsome : ∀ a, ((f a).run s).2.meaning holding = none) :
      ((resolve handles handle >>= f).run s).2.meaning holding = none := by
    unfold resolve
    cases hget : handles.get? handle with
    | none => exact hnone hget
    | some a => exact hsome a
  unfold Step.drop? at h
  split at h
  · next tx =>
    cases h
    refine hresolve (f := fun _ => _) (congrArg (Option.map _)) fun id => ?_
    exact (meaning_dropTransaction s _ tx).trans (if_pos rfl)
  · next it =>
    cases h
    refine hresolve (f := fun _ => _) (congrArg (Option.map _)) fun iterator => ?_
    exact (meaning_dropIterator s _ it).trans (if_pos rfl)
  · next c =>
    cases h
    show ((performEnding c .drop).run s).2.meaning _ = none
    cases hget : s.cursors.get? c with
    | none =>
      rw [run_performEnding_of_none hget]
      exact congrArg (Option.map _) hget
    | some held =>
      rw [run_performEnding_of_some hget (.inr rfl)]
      exact (meaning_erase_cursor s _ _ c).trans (if_pos rfl)
  · cases h

/-- To drop an iterator or a cursor changes nothing that a transaction notices. -/
theorem changes_drop {s : Session} {step : Step} {holding : Holding}
    (htransaction : holding.1 ≠ .transaction) (h : Step.drop? holding = some step) :
    Changes .idling (some holding) s ((perform step).run s).2 := by
  obtain ⟨hthrough, huses, htakes, hmeanwhile⟩ := Step.of_drop? h
  have hfits : step.Fits .idling s := by
    refine ⟨?_, fun tx id' htx _ => ?_, fun tx hideNamespace id' hstep _ => ?_, ?_⟩
    · rw [hthrough]
      nofun
    · cases hthrough.symm.trans htx
      exact absurd rfl htransaction
    · subst hstep
      cases huses
    · rw [hmeanwhile]
      nofun
  have hchanges := perform_changes step hfits
  rwa [Step.changes?_of_takes? htakes, huses] at hchanges

theorem fst_of_meaning_transaction {s : Session} {holding : Holding} {id : TransactionId}
    (h : s.meaning holding = some (.transaction id)) : holding.1 = .transaction := by
  obtain ⟨kind, handle⟩ := holding
  cases kind with
  | transaction => rfl
  | iterator => obtain ⟨_, -, heq⟩ := Option.map_eq_some_iff.1 h; cases heq
  | index => obtain ⟨_, -, heq⟩ := Option.map_eq_some_iff.1 h; cases heq
  | cursor => obtain ⟨_, -, heq⟩ := Option.map_eq_some_iff.1 h; cases heq

/-- A handle that a step uses does not stand for a transaction afterwards. -/
theorem meaning_ne_transaction_of_uses? {s : Session} {step : Step} {holding : Holding}
    (huses : step.uses? = some holding) (id : TransactionId) :
    ((perform step).run s).2.meaning holding ≠ some (.transaction id) := by
  intro hmeaning
  have hkind := fst_of_meaning_transaction hmeaning
  unfold Step.uses? at huses
  split at huses <;> cases huses
  · rw [meaning_perform_drop rfl] at hmeaning
    cases hmeaning
  all_goals cases hkind

/-! ### Steps of the transaction -/

/-- A commit that succeeds is told so. -/
theorem outcome_commit {s : Session} {tx : Handle} {hideNamespace : Bool} {id : TransactionId}
    (hget : s.transactions.get? tx = some id)
    (hok : ((Engine.commit id).run s.database.engine).1 = .ok ⟨⟩) :
    ((perform (.store (.commit tx hideNamespace))).run s).1.outcome = .ok .done := by
  show ((Session.commit tx hideNamespace).run s).1 = _
  unfold Session.commit transaction resolve
  rw [bind_assoc, run_bind_ok (run_get s), hget]
  have hcommit : (ofEngine (Engine.commit id)).run s =
      (.ok ⟨⟩, ((ofEngine (Engine.commit id)).run s).2) := by
    refine Prod.ext ?_ rfl
    show (((Engine.commit id).run s.database.engine).1.mapError StepError.engine) = _
    rw [hok]
    rfl
  dsimp only
  rw [pure_bind, run_tryCatch, run_bind_ok hcommit]
  rfl

namespace Moment

variable {m : Moment} {id : TransactionId}

theorem isThrough_iff :
    m.isThrough = true ↔ ∃ holding, m.step.through? = some holding ∧ holding ∈ m.owned := by
  unfold isThrough
  cases m.step.through? <;> simp

theorem leftover_of_given?_none (h : m.given? = none) : m.leftover = m.step.meanwhile?.toList := by
  unfold leftover
  rw [h]
  exact List.append_nil _

theorem leftover_of_given? (hmeanwhile : m.step.meanwhile? = none) {holding : Holding}
    (hgiven : m.given? = some holding) :
    m.leftover = if holding ∉ m.owned ∧ m.session.isHeld holding.1 holding.2
      then (Step.drop? holding).toList else [] := by
  unfold leftover
  rw [hmeanwhile, hgiven, Option.filter_some, Option.toList_none, List.nil_append]
  by_cases h : holding ∉ m.owned ∧ m.session.isHeld holding.1 holding.2
  · rw [if_pos (decide_eq_true h), if_pos h]
    cases hdrop : Step.drop? holding with
    | none => exact List.filterMap_cons_none hdrop
    | some step => exact List.filterMap_cons_some hdrop
  · rw [if_neg (by simpa using h), if_neg h]
    rfl

/-- Pairs that come in and handles that are dropped break off nothing. -/
theorem goesOn_leftover (m : Moment) (s : Session) : s.GoesOn m.leftover := by
  refine goesOn_of_asksSizes (fun step hmem => ?_) s
  rcases List.mem_append.1 hmem with hmeanwhile | hdropped
  · have hadded := Option.mem_toList.1 hmeanwhile
    unfold Step.meanwhile? at hadded
    split at hadded <;> cases hadded
    rfl
  · obtain ⟨holding, -, hdrop⟩ := List.mem_filterMap.1 hdropped
    unfold Step.drop? at hdrop
    split at hdrop <;> cases hdrop <;> rfl

/-- A step of a transaction changes a handle that belongs to the transaction, or has given one to an
iterator or a cursor. -/
theorem changes?_cases (hthrough : m.isThrough = true) :
    (m.given? = none ∧ m.step.changes? m.outcome = m.step.uses? ∧
      ∀ holding, m.step.uses? = some holding → holding ∈ m.owned) ∨
    ∃ holding, m.given? = some holding ∧ m.step.changes? m.outcome = some holding ∧
      holding.1 ≠ .transaction ∧ holding.1 ≠ .index := by
  obtain ⟨through, hholding, howned⟩ := isThrough_iff.1 hthrough
  unfold Step.changes?
  show (m.given? = none ∧ m.given?.or _ = _ ∧ _) ∨ ∃ holding, _ ∧ m.given?.or _ = _ ∧ _
  cases hgiven : m.given? with
  | none =>
    refine .inl ⟨rfl, rfl, fun holding huses => ?_⟩
    rwa [Step.uses?_of_through? hholding huses]
  | some holding =>
    refine .inr ⟨holding, rfl, rfl, ?_⟩
    rcases Step.takes?_cases (Step.given?_eq_takes? hgiven) with ⟨tx, hbegin, -⟩ | hkind | hkind
    · -- a begin is carried out through nothing
      rw [hbegin] at hholding
      cases hholding
    · simp [hkind]
    · simp [hkind]

/-- Unless it commits writes, a step of a transaction changes nothing but that. -/
theorem fits_aside (hid : ∀ tx id', (.transaction, tx) ∈ m.owned →
      m.session.transactions.get? tx = some id' → id' = id)
    (hthrough : m.isThrough = true) (hcommits : m.commitsWrites = false)
    (hmeanwhile : m.step.meanwhile? = none) : m.step.Fits (.aside id) m.session := by
  obtain ⟨session, owned, step⟩ := m
  obtain ⟨holding, hholding, howned⟩ := isThrough_iff.1 hthrough
  dsimp only at hid hholding howned hmeanwhile
  have hid' {tx : Handle} {id' : TransactionId} (htx : step.through? = some (.transaction, tx))
      (hget : session.transactions.get? tx = some id') : id' = id := by
    rw [hholding] at htx
    cases htx
    exact hid tx id' howned hget
  refine ⟨fun hnone => ?_, fun tx id' htx hget => ?_, fun tx hideNamespace id' hstep hget => ?_,
    fun hsome => ?_⟩
  · rw [hholding] at hnone
    cases hnone
  · rw [hid' htx hget]
    exact Engine.Frame.aside_hosts id
  · subst hstep
    obtain rfl := hid' rfl hget
    -- a commit that succeeds has been told so, and then there was nothing to commit
    refine Engine.aside_commit _ id' fun hok t hopen => ?_
    have hnothing : session.hasPending tx = false := by
      unfold commitsWrites outcome at hcommits
      rwa [outcome_commit hget hok] at hcommits
    unfold hasPending at hnothing
    rw [hget, Option.bind_some, hopen.1] at hnothing
    exact Transaction.pending_eq_zero_iff.1 (by simpa using hnothing)
  · rw [hmeanwhile] at hsome
    cases hsome

end Moment

end Session

namespace Comparison

open Session

variable {id : TransactionId} {owned owned' : List Holding} {holding? : Option Holding}
  {s s' t t' : Session}

/-- What is done in the transaction of the second session, or idly in the first one, leaves them alike. -/
theorem Sessions.beside (hs : (omitting id).Sessions owned s s') (hleft : Session.Changes .idling holding? s t)
    (hright : Session.Changes (.aside id) holding? s' t')
    (howned : ∀ holding, holding ∈ owned' ↔ holding ∈ owned ∨ holding? = some holding)
    (hholding : ∀ holding, holding? = some holding →
      holding.1 ≠ .index ∧ t.meaning holding = none ∧
        ∀ j, t'.meaning holding = some (.transaction j) → j = id) :
    (omitting id).Sessions owned' t t' := by
  have hkept {holding : Holding} (hmem : holding ∈ owned') (hne : holding? ≠ some holding) :
      holding ∈ owned := ((howned holding).1 hmem).resolve_right hne
  refine ⟨⟨?_, nofun⟩, fun holding hnot => ?_, fun holding hmem => ?_, fun holding hmem j hj => ?_,
    fun _ => rfl, fun ix hmem => ?_⟩
  · exact (hs.database.engines.aside hright.engine).idles hleft.engine
  · have hnot' := fun hor => hnot ((howned holding).2 hor)
    rw [hleft.meaning _ fun heq => hnot' (.inr heq), hright.meaning _ fun heq => hnot' (.inr heq)]
    exact hs.meanings _ fun hmem => hnot' (.inl hmem)
  · -- the first session has given up the handle that changes, or never had it
    by_cases hne : holding? = some holding
    · exact (hholding _ hne).2.1
    · rw [hleft.meaning _ hne]
      exact hs.absent _ (hkept hmem hne)
  · by_cases hne : holding? = some holding
    · exact congrArg some ((hholding _ hne).2.2 j hj).symm
    · rw [hright.meaning _ hne] at hj
      exact hs.extra _ (hkept hmem hne) j hj
  · by_cases hne : holding? = some (.index, ix)
    · exact (hholding _ hne).1 rfl
    · exact hs.index_notMem ix (hkept hmem hne)

theorem Sessions.filter_held {c : Comparison} (hs : c.Sessions owned s s') :
    c.Sessions (owned.filter fun holding => s'.isHeld holding.1 holding.2) s s' := by
  refine hs.filter fun holding _ hkeep => ?_
  rwa [isHeld_eq, Option.isSome_eq_false_iff, Option.isNone_iff_eq_none] at hkeep

section Erase

variable {m : Moment} (hs : (omitting id).Sessions m.owned s m.session) (hthrough : m.isThrough = true)

include hs

theorem Sessions.id_eq {tx : Handle} {id' : TransactionId} (hmem : (.transaction, tx) ∈ m.owned)
    (hget : m.session.transactions.get? tx = some id') : id' = id :=
  (Option.some.inj (hs.extra _ hmem id' (congrArg (Option.map _) hget))).symm

include hthrough

/-- The pairs that come in on the way to a count of the transaction are added in both sessions. -/
theorem Sessions.erase_meanwhile (hheld : ∀ holding ∈ m.owned, m.session.isHeld holding.1 holding.2)
    {added : Step} (hmeanwhile : m.step.meanwhile? = some added) :
    (omitting id).Sessions m.owned ((Session.perform added).run s).2 m.next := by
  obtain ⟨⟨kind, tx⟩, hholding, howned⟩ := Moment.isThrough_iff.1 hthrough
  obtain ⟨-, hkind, hfree, htakes, hfault⟩ := Step.of_meanwhile? hmeanwhile
  obtain rfl : kind = .transaction := hkind _ hholding
  have hnot (holding : Holding) (h : added.through? = some holding) : holding ∉ m.owned := by
    rw [hfree] at h
    cases h
  -- first the pairs come in on both sides, then the second session goes on in its transaction
  have hadded := (hs.perform_sizes trivial hnot hfault).sessions
  rw [Step.given?_of_takes? htakes] at hadded
  have hsessions : (omitting id).Sessions m.owned ((Session.perform added).run s).2
      ((Session.perform added).run m.session).2 := by simpa using hadded
  cases hget : m.session.transactions.get? tx with
  | none =>
    have hcontains := hheld _ howned
    simp [isHeld, SortedMap.contains, hget] at hcontains
  | some id' =>
    obtain rfl := hs.id_eq howned hget
    have hbeyond := perform_beyond_meanwhile (Engine.Frame.aside_hosts id') hget hholding hmeanwhile
    refine hsessions.beside (.refl none _) hbeyond (fun holding => ?_) fun holding h => ?_
    · simp
    · cases h

/-- What a step of the transaction has given, or has used, is not held in the first session once what is
left over of the step has been carried out there. -/
theorem Sessions.erase_alone (hmeanwhile : m.step.meanwhile? = none) :
    Session.Changes .idling (m.step.changes? m.outcome) s (s.carryOut m.leftover).2 ∧
      ∀ holding, m.step.changes? m.outcome = some holding →
        (s.carryOut m.leftover).2.meaning holding = none := by
  rcases Moment.changes?_cases hthrough with ⟨hgiven, hchanges, huses⟩ |
    ⟨holding, hgiven, hchanges, htransaction, hindex⟩
  · rw [hchanges, Moment.leftover_of_given?_none hgiven, hmeanwhile]
    exact ⟨.refl _ s, fun holding h => hs.absent _ (huses holding h)⟩
  · rw [hchanges, Moment.leftover_of_given? hmeanwhile hgiven]
    by_cases hdrops : holding ∉ m.owned ∧ m.session.isHeld holding.1 holding.2
    · -- the handle stood for something of both, which the first session drops by itself
      obtain ⟨drop, hdrop⟩ : ∃ drop, Step.drop? holding = some drop := by
        obtain ⟨kind, handle⟩ := holding
        cases kind with
        | index => exact absurd rfl hindex
        | _ => exact ⟨_, rfl⟩
      rw [if_pos hdrops, hdrop, Option.toList_some, carryOut_cons]
      refine ⟨changes_drop htransaction hdrop, fun other h => ?_⟩
      cases h
      exact meaning_perform_drop hdrop
    · rw [if_neg hdrops]
      refine ⟨.refl _ s, fun other h => ?_⟩
      cases h
      show s.meaning holding = none
      by_cases howned : holding ∈ m.owned
      · exact hs.absent _ howned
      · -- what the second session does not hold, the first one does not hold either
        have hrel := hs.meanings _ howned
        have hnone : m.session.meaning holding = none := by
          by_contra hsome
          refine hdrops ⟨howned, ?_⟩
          rw [isHeld_eq]
          exact Option.isSome_iff_ne_none.2 hsome
        rw [hnone] at hrel
        generalize s.meaning holding = meaning? at hrel ⊢
        cases hrel
        rfl

/-- A step of the transaction, that commits no writes, is carried out in the second session alone; only
what is left over of it is carried out in the first one. -/
theorem Sessions.erase (hheld : ∀ holding ∈ m.owned, m.session.isHeld holding.1 holding.2)
    (hcommits : m.commitsWrites = false) :
    (omitting id).Sessions m.ownedAfter (s.carryOut m.leftover).2 m.next := by
  suffices hsessions : (omitting id).Sessions (m.given?.toList ++ m.owned) (s.carryOut m.leftover).2
      m.next by
    unfold Moment.ownedAfter
    rw [if_pos hthrough]
    exact hsessions.filter_held
  cases hmeanwhile : m.step.meanwhile? with
  | some added =>
    -- a count gives no handle
    have hgiven : m.given? = none := Step.given?_of_takes? (Step.of_meanwhile? hmeanwhile).1 _
    rw [hgiven, Moment.leftover_of_given?_none hgiven, hmeanwhile, Option.toList_some, carryOut_cons]
    exact hs.erase_meanwhile hthrough hheld hmeanwhile
  | none =>
    have hfits := Moment.fits_aside (fun tx id' => hs.id_eq) hthrough hcommits hmeanwhile
    have hright := perform_changes m.step hfits
    obtain ⟨hleft, hnone⟩ := hs.erase_alone hthrough hmeanwhile
    rcases Moment.changes?_cases hthrough with ⟨hgiven, hchanges, huses⟩ |
      ⟨holding, hgiven, hchanges, htransaction, hindex⟩
    · -- the handle belongs to the transaction already
      rw [hchanges] at hleft hnone
      replace hright : Session.Changes (.aside id) m.step.uses? m.session m.next := hchanges ▸ hright
      rw [hgiven]
      refine hs.beside hleft hright (fun holding => ?_) fun holding h => ⟨?_, hnone holding h, fun j hj => ?_⟩
      · exact ⟨.inl, fun hor => hor.elim (fun hmem => hmem) (huses holding)⟩
      · obtain ⟨kind, ix⟩ := holding
        rintro rfl
        exact hs.index_notMem ix (huses _ h)
      · exact absurd hj (meaning_ne_transaction_of_uses? h j)
    · -- the handle belongs to the transaction from now on
      rw [hchanges] at hleft hnone
      replace hright : Session.Changes (.aside id) (some holding) m.session m.next := hchanges ▸ hright
      rw [hgiven]
      refine hs.beside hleft hright (fun other => by simp [or_comm, eq_comm]) fun other h => ?_
      cases h
      exact ⟨hindex, hnone _ rfl, fun j hj => absurd (fst_of_meaning_transaction hj) htransaction⟩

end Erase

end Comparison

end SecondaryIndex
