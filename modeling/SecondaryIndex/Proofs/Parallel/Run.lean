import SecondaryIndex.Proofs.Parallel.Step

/-!
# Runs of a session

Of the replies to the steps of a run those to some of the steps are picked out (`Session.repliesTo`), and of a
reply what it tells is kept (`Reply.told`), with the sizes or without. A step that does not break off its session in
either of two runs is answered alike in both (`Comparison.Sessions.perform_goingOn`).
-/

namespace SecondaryIndex

namespace Session

/-- What a reply tells. -/
def Reply.told (reply : Reply) : Reply := { reply with outcome := reply.outcome.map Answer.told }

/-- What a reply tells, without sizes and without what is estimated from them. -/
def Reply.withoutSizes (reply : Reply) : Reply :=
  { reply with outcome := reply.outcome.map fun answer => answer.told.withoutSizes }

/-- The replies to the steps of a kind, where the steps may be marked. -/
def repliesTo {α : Type} (kind : α → Bool) (steps : List α) (replies : List Reply) : List Reply :=
  ((steps.zip replies).filter fun replied => kind replied.1).map Prod.snd

section RepliesTo

variable {α : Type} (kind : α → Bool) (a : α) (l : List α) (reply : Reply) (replies : List Reply)

theorem repliesTo_cons :
    repliesTo kind (a :: l) (reply :: replies) =
      if kind a then reply :: repliesTo kind l replies else repliesTo kind l replies := by
  unfold repliesTo
  rw [List.zip_cons_cons, List.filter_cons]
  split <;> rfl

end RepliesTo

end Session

namespace Comparison

open Session

variable {c : Comparison} {owned : List Holding} {step : Step} {r r' : Reply × Session}

/-- What does not break off its session does not fail by a size that is not compared. -/
theorem not_failsWith_of_goesOn (c : Comparison) {reply : Reply} (h : reply.breaksOff = false) :
    ¬ Program.FailsWith c.StepStops reply.outcome := by
  obtain ⟨_ | answer, state?⟩ := reply
  · rintro ⟨-, hbreaks⟩
    exact Bool.false_ne_true (h.symm.trans hbreaks)
  · exact id

theorem Sessions.perform_goingOn {s s' : Session} (hs : c.Sessions owned s s')
    (hnot : ∀ holding, step.through? = some holding → holding ∉ owned) (hfault : step.isFault = false)
    (hgo : ((Session.perform step).run s).1.breaksOff = false)
    (hgo' : ((Session.perform step).run s').1.breaksOff = false) :
    c.Replied owned step ((Session.perform step).run s) ((Session.perform step).run s') :=
  hs.perform step hnot hfault (c.not_failsWith_of_goesOn hgo) (c.not_failsWith_of_goesOn hgo')

/-- Where sizes are compared, nothing has to be asked of the step. -/
theorem Sessions.perform_sizes {s s' : Session} (hs : c.Sessions owned s s') (hsizes : c.sizes)
    (hnot : ∀ holding, step.through? = some holding → holding ∉ owned) (hfault : step.isFault = false) :
    c.Replied owned step ((Session.perform step).run s) ((Session.perform step).run s') :=
  hs.perform step hnot hfault (c.not_failsWith_stops hsizes _) (c.not_failsWith_stops hsizes _)

/-- Of a reply that does not tell how much was used, everything is the same but for sizes. -/
theorem Replied.withoutSizes_eq (h : c.Replied owned step r r') (htells : step.tellsUse = true → c.counters) :
    r'.1.withoutSizes = r.1.withoutSizes := by
  obtain ⟨⟨outcome, state?⟩, s⟩ := r
  obtain ⟨⟨outcome', state?'⟩, s'⟩ := r'
  obtain ⟨houtcome, hstate, -⟩ := h
  dsimp only at houtcome hstate
  subst hstate
  cases houtcome with
  | ok shows => exact congrArg (fun answer => Reply.mk (.ok answer) _) (shows htells).withoutSizes
  | error err => rfl

/-- A step that breaks off one of the sessions breaks off the other. -/
theorem Replied.breaksOff_eq (h : c.Replied owned step r r') : r'.1.breaksOff = r.1.breaksOff := by
  obtain ⟨⟨outcome, state?⟩, s⟩ := r
  obtain ⟨⟨outcome', state?'⟩, s'⟩ := r'
  cases h.outcome <;> rfl

/-- If sizes are compared, then everything is the same. -/
theorem Replied.told_eq (h : c.Replied owned step r r') (hsizes : c.sizes)
    (htells : step.tellsUse = true → c.counters) : r'.1.told = r.1.told := by
  obtain ⟨⟨outcome, state?⟩, s⟩ := r
  obtain ⟨⟨outcome', state?'⟩, s'⟩ := r'
  obtain ⟨houtcome, hstate, -⟩ := h
  dsimp only at houtcome hstate
  subst hstate
  cases houtcome with
  | ok shows => exact congrArg (fun answer => Reply.mk (.ok answer) _) ((shows htells).told hsizes)
  | error err => rfl

end Comparison

end SecondaryIndex
