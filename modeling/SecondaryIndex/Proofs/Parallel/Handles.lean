import SecondaryIndex.Proofs.Parallel.Session

/-!
# Steps and their handles

A step is carried out through a transaction, an iterator or a cursor, or through nothing
(`Step.through?`). It may give one handle anew, which shows from its answer (`Step.given?`), or use
one up (`Step.uses?`), and it changes no other handle.

What is told of an answer leaves out programs that are not run (`Answer.told`), and may leave out sizes
and what is estimated from them (`Answer.withoutSizes`).
-/

namespace SecondaryIndex

namespace Session

/-! ### Steps and their handles -/

/-- The transaction that a step on the store is carried out through. -/
def StoreStep.through? : StoreStep → Option Handle
  | .dump _ tx? | .context tx? => tx?
  | .commit tx _ | .rollback tx | .drop tx | .pending tx | .get tx _ _ | .put tx _ _ _
  | .putRange tx _ _ _ | .delete tx _ _ | .iterator _ tx _ _ => some tx
  | _ => none

/-- The transaction, the iterator or the cursor that a step is carried out through. -/
def Step.through? : Step → Option Holding
  | .store step => step.through?.map (.transaction, ·)
  | .iterator it _ => some (.iterator, it)
  | .index _ _ tx? _ => tx?.map (.transaction, ·)
  | .cursor c _ => some (.cursor, c)
  | .iteration c _ => some (.cursor, c)
  | .ending c _ => some (.cursor, c)
  | .unreadable handle? => handle?

/-- The handle of the cursor that a step of an index opens. -/
def IndexStep.opens? : IndexStep → Option Handle
  | .find c _ | .scanKeys c | .scanDistinctKeys c | .scanValues c | .findByValue c _ => some c
  | _ => none

/-- The handle of a transaction, an iterator or a cursor that a step gives anew if it succeeds. -/
def Step.takes? : Step → Option Holding
  | .store (.begin tx) => some (.transaction, tx)
  | .store (.iterator it _ _ _) => some (.iterator, it)
  | .index _ _ _ step => step.opens?.map (.cursor, ·)
  | _ => none

/-- The handle that a step has given anew. A look-up that an index has not got gives none. -/
def Step.given? (step : Step) : Except StepError Answer → Option Holding
  | .ok (.text s) => if s = "cursor" then step.takes? else none
  | .ok _ => step.takes?
  | .error _ => none

/-- Whether a step sets the faults to come. -/
def Step.isFault : Step → Bool
  | .store (.fault ..) => true
  | _ => false

/-- Whether a step tells how much was used: how many iterators are open, or what was counted. -/
def Step.tellsUse : Step → Bool
  | .store .openIterators => true
  | .index _ _ _ .metrics => true
  | _ => false

/-- A step that takes no handle gives none, whatever its answer. -/
theorem Step.given?_of_takes? {step : Step} (h : step.takes? = none)
    (outcome : Except StepError Answer) : step.given? outcome = none := by
  unfold given?
  rw [h]
  split
  · split <;> rfl
  · rfl
  · rfl

/-- The handle that a step is sent to and that it moves, drops, uses up or binds. -/
def Step.uses? : Step → Option Holding
  | .store (.drop tx) => some (.transaction, tx)
  | .store (.index ix _) => some (.index, ix)
  | .iterator it _ => some (.iterator, it)
  | .cursor c _ => some (.cursor, c)
  | .iteration c _ => some (.cursor, c)
  | .ending c _ => some (.cursor, c)
  | _ => none

/-- The handle whose meaning a step has changed. -/
def Step.changes? (step : Step) (outcome : Except StepError Answer) : Option Holding :=
  (step.given? outcome).or step.uses?

/-- A step that takes no handle changes at most what it uses. -/
theorem Step.changes?_of_takes? {step : Step} (h : step.takes? = none)
    (outcome : Except StepError Answer) : step.changes? outcome = step.uses? := by
  unfold changes?
  rw [given?_of_takes? h]
  rfl

/-- The pairs that come in on the way to a count, as a step of its own. -/
def Step.meanwhile? : Step → Option Step
  | .index ix half? _ (.statistics query budget estimateOk (pair :: pairs) _) =>
    some (.index ix half? none (.statistics query budget estimateOk (pair :: pairs) false))
  | _ => none

/-- The step that drops what a handle stands for. Indexes are not dropped. -/
def Step.drop? : Holding → Option Step
  | (.transaction, tx) => some (.store (.drop tx))
  | (.iterator, it) => some (.iterator it .drop)
  | (.cursor, c) => some (.ending c .drop)
  | (.index, _) => none

/-! How the handles of a step belong together. -/

/-- A step uses what it is carried out through, or nothing. -/
theorem Step.uses?_of_through? {step : Step} {holding other : Holding}
    (hthrough : step.through? = some holding) (huses : step.uses? = some other) : other = holding := by
  unfold uses? at huses
  split at huses <;> cases huses <;> cases hthrough <;> rfl

/-- A handle is given to a transaction that begins, to an iterator or to a cursor. -/
theorem Step.takes?_cases {step : Step} {holding : Holding} (h : step.takes? = some holding) :
    (∃ tx, step = .store (.begin tx) ∧ holding = (.transaction, tx)) ∨
      holding.1 = .iterator ∨ holding.1 = .cursor := by
  unfold takes? at h
  split at h
  · cases h
    exact .inl ⟨_, rfl, rfl⟩
  · cases h
    exact .inr (.inl rfl)
  · obtain ⟨c, -, rfl⟩ := Option.map_eq_some_iff.1 h
    exact .inr (.inr rfl)
  · cases h

/-- What a step gives is the handle that it takes. -/
theorem Step.given?_eq_takes? {step : Step} {outcome : Except StepError Answer} {holding : Holding}
    (h : step.given? outcome = some holding) : step.takes? = some holding := by
  unfold given? at h
  split at h
  · split at h
    · exact h
    · cases h
  · exact h
  · cases h

/-- A drop uses its handle and nothing else. -/
theorem Step.of_drop? {step : Step} {holding : Holding} (h : Step.drop? holding = some step) :
    step.through? = some holding ∧ step.uses? = some holding ∧ step.takes? = none ∧
      step.meanwhile? = none := by
  unfold Step.drop? at h
  split at h <;> cases h <;> exact ⟨rfl, rfl, rfl, rfl⟩

/-- The step that is done in the meantime is carried out through no handle and takes none. -/
theorem Step.of_meanwhile? {step added : Step} (h : step.meanwhile? = some added) :
    step.takes? = none ∧ (∀ holding, step.through? = some holding → holding.1 = .transaction) ∧
      added.through? = none ∧ added.takes? = none ∧ added.isFault = false := by
  unfold Step.meanwhile? at h
  split at h
  · cases h
    refine ⟨rfl, fun holding hthrough => ?_, rfl, rfl, rfl⟩
    obtain ⟨tx, -, rfl⟩ := Option.map_eq_some_iff.1 hthrough
    rfl
  · cases h

/-! ### What answers tell -/

/-- What is told of an answer. Of a count that is still a program it is whether it is an estimate. -/
def Answer.told : Answer → Answer
  | .count shown value? => .count ⟨shown.isEstimate, pure 0⟩ value?
  | answer => answer

/-- An answer without tallies and weights, and without what is estimated from them. -/
def Answer.withoutSizes : Answer → Answer
  | .memtable _ => .done
  | .large _ => .done
  | .count shown value? =>
    .count shown (if shown.isEstimate then value?.map fun _ => 0 else value?)
  | answer => answer

theorem Answer.told_count (shown : Count) (value? : Option Nat) :
    (count shown value?).told = .count ⟨shown.isEstimate, pure 0⟩ value? := rfl

theorem Answer.withoutSizes_count (shown : Count) (value? : Option Nat) :
    (count shown value?).withoutSizes =
      .count shown (if shown.isEstimate then value?.map fun _ => 0 else value?) := rfl

/-- The text that is answered. -/
def Answer.text? : Answer → Option String
  | .text s => some s
  | _ => none

theorem Answer.text?_told (answer : Answer) : answer.told.withoutSizes.text? = answer.text? := by
  cases answer <;> rfl

/-- The answer decides whether the handle is given: a look-up that finds nothing opens no cursor. -/
theorem Step.given?_ok (step : Step) (answer : Answer) :
    step.given? (.ok answer) = if answer.text?.all (· = "cursor") then step.takes? else none := by
  cases answer with
  | text s => simp [given?, Answer.text?]
  | _ => rfl

theorem Step.takes?_of_tellsUse {step : Step} (h : step.tellsUse = true) : step.takes? = none := by
  unfold tellsUse at h
  split at h
  · rfl
  · rfl
  · cases h

end Session

end SecondaryIndex
