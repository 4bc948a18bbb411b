import SecondaryIndex.Database

/-!
# Running programs that keep their state

Engine and index programs are of one shape, `ExceptT ε (StateM σ)`: run from a state they give an
outcome and the state they reached, and a program that fails keeps the state it reached. Here is
what running does to each way of building such a program. Proofs about programs use these equations
and never unfold the monad.

A sequence is run by cases: `run_bind_ok` and `run_bind_error` go on once the outcome of its first
part is known, `run_bind` is the two together.
-/

namespace SecondaryIndex

namespace Program

variable {ε σ α β : Type}

/-! ### The general shape -/

/-- A sequence, by the outcome of its first part: the rest runs on from the state that part reached, or the failure
stands. -/
theorem run_bind (x : ExceptT ε (StateM σ) α) (f : α → ExceptT ε (StateM σ) β) (s : σ) :
    (x >>= f).run s =
      match x.run s with
      | (.ok a, s') => (f a).run s'
      | (.error e, s') => (.error e, s') := by
  show StateT.bind x (ExceptT.bindCont f) s = _
  unfold StateT.bind ExceptT.run
  change (match x s with | (a, s') => ExceptT.bindCont f a s') = _
  rcases x s with ⟨_ | a, s'⟩ <;> rfl

/-- The rest runs on from where a first part that succeeded left off. -/
theorem run_bind_ok {x : ExceptT ε (StateM σ) α} {f : α → ExceptT ε (StateM σ) β} {s s' : σ} {a : α}
    (h : x.run s = (.ok a, s')) : (x >>= f).run s = (f a).run s' := by
  rw [run_bind, h]

/-- A first part that fails is all that runs, and what it did is kept. -/
theorem run_bind_error {x : ExceptT ε (StateM σ) α} {f : α → ExceptT ε (StateM σ) β} {s s' : σ}
    {e : ε} (h : x.run s = (.error e, s')) : (x >>= f).run s = (.error e, s') := by
  rw [run_bind, h]

theorem run_pure (a : α) (s : σ) : (pure a : ExceptT ε (StateM σ) α).run s = (.ok a, s) := rfl

theorem run_get (s : σ) : (getThe σ : ExceptT ε (StateM σ) σ).run s = (.ok s, s) := rfl

theorem run_set (s s' : σ) : (set s' : ExceptT ε (StateM σ) PUnit).run s = (.ok ⟨⟩, s') := rfl

/-- A change of the state gives no result and cannot fail. -/
theorem run_modify (f : σ → σ) (s : σ) :
    (modifyThe σ f : ExceptT ε (StateM σ) PUnit).run s = (.ok ⟨⟩, f s) := rfl

/-- Changing the result of a program changes nothing of what it does. -/
theorem run_map (f : α → β) (x : ExceptT ε (StateM σ) α) (s : σ) :
    (f <$> x).run s = ((x.run s).1.map f, (x.run s).2) := by
  rw [map_eq_pure_bind, run_bind]
  rcases x.run s with ⟨_ | a, s'⟩ <;> rfl

/-- Only a program that succeeds has its result changed. -/
theorem of_run_map {f : α → β} {x : ExceptT ε (StateM σ) α} {s s' : σ} {b : β}
    (h : (f <$> x).run s = (.ok b, s')) : ∃ a, x.run s = (.ok a, s') ∧ f a = b := by
  rw [run_map] at h
  rcases hrun : x.run s with ⟨_ | a, s''⟩
  · rw [hrun] at h
    cases h
  · rw [hrun] at h
    cases h
    exact ⟨a, rfl, rfl⟩

end Program

end SecondaryIndex
