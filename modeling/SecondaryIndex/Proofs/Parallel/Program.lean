import SecondaryIndex.Proofs.Program

/-!
# Two programs side by side

Two runs are compared by running their programs side by side, from states that are related.
`Program.Tracks R A x y` says that the states stay related by `R`, whatever comes of the programs, and
that `y` fails when `x` does and with the same error, or that both give results, which are related
by `A`. The states may be of different types, and so may the results.

There is one rule for each way of building programs, as in `Proofs/Program.lean`.

Some failures break a run off. What comes of two programs of which one fails in that way need not be compared:
`Program.TracksUnless stops R A x y` says the same of `x` and `y` as long as neither of them does.
-/

namespace SecondaryIndex

namespace Program

variable {ε σ τ α α' β β' : Type} {R : σ → τ → Prop}

/-- What is caught is handled in the state in which it was thrown. -/
theorem run_tryCatch (x : ExceptT ε (StateM σ) α) (f : ε → ExceptT ε (StateM σ) α) (s : σ) :
    (tryCatch x f).run s =
      match x.run s with
      | (.ok a, s') => (.ok a, s')
      | (.error err, s') => (f err).run s' := by
  have hcatch : (tryCatch x f).run s =
      (match x.run s with
      | (r, s') => (match r with | .ok a => pure (.ok a) | .error err => f err : StateM σ _) s') := rfl
  rw [hcatch]
  rcases x.run s with ⟨_ | a, s'⟩ <;> rfl

/-- Two outcomes are the same failure, or results that are related. -/
inductive Agree (A : α → α' → Prop) : Except ε α → Except ε α' → Prop
  | ok {a : α} {a' : α'} (related : A a a') : Agree A (.ok a) (.ok a')
  | error (err : ε) : Agree A (.error err) (.error err)

namespace Agree

variable {A : α → α' → Prop} {B : β → β' → Prop} {r : Except ε α} {r' : Except ε α'}

/-- The same outcome agrees with itself. -/
theorem of_eq {r r' : Except ε α} (h : r' = r) : Agree Eq r r' := by
  subst h
  cases r' with
  | ok a => exact .ok rfl
  | error err => exact .error err

theorem eq {r r' : Except ε α} (h : Agree Eq r r') : r' = r := by
  cases h with
  | ok related => rw [related]
  | error err => rfl

/-- Results may be mapped on both sides. -/
theorem map {f : α → β} {g : α' → β'} (h : Agree A r r') (himp : ∀ a a', A a a' → B (f a) (g a')) :
    Agree B (r.map f) (r'.map g) := by
  cases h with
  | ok related => exact .ok (himp _ _ related)
  | error err => exact .error err

theorem mono {B : α → α' → Prop} (h : Agree A r r') (himp : ∀ a a', A a a' → B a a') :
    Agree B r r' := by
  cases h with
  | ok related => exact .ok (himp _ _ related)
  | error err => exact .error err

/-- Errors may be translated on both sides by the same function. -/
theorem mapError {δ : Type} (f : ε → δ) (h : Agree A r r') : Agree A (r.mapError f) (r'.mapError f) := by
  cases h with
  | ok related => exact .ok related
  | error err => exact .error (f err)

end Agree

/-- Two programs that are run from related states stay in step. -/
def Tracks (R : σ → τ → Prop) (A : α → α' → Prop) (x : ExceptT ε (StateM σ) α)
    (y : ExceptT ε (StateM τ) α') : Prop :=
  ∀ s t, R s t → Agree A (x.run s).1 (y.run t).1 ∧ R (x.run s).2 (y.run t).2

namespace Tracks

variable {A : α → α' → Prop} {B : β → β' → Prop} {x : ExceptT ε (StateM σ) α}
  {y : ExceptT ε (StateM τ) α'}

/-- Results that stay related are related in any weaker way. -/
theorem mono {A' : α → α' → Prop} (h : Tracks R A x y) (himp : ∀ a a', A a a' → A' a a') :
    Tracks R A' x y := fun s t hst => ⟨(h s t hst).1.mono himp, (h s t hst).2⟩

/-- Two results are in step if they are related. -/
theorem pure {a : α} {a' : α'} (h : A a a') :
    Tracks R A (Pure.pure a : ExceptT ε (StateM σ) α) (Pure.pure a' : ExceptT ε (StateM τ) α') :=
  fun _ _ hst => ⟨.ok h, hst⟩

/-- To fail with the same error is to be in step. -/
theorem throw (err : ε) :
    Tracks R A (throw err : ExceptT ε (StateM σ) α) (throw err : ExceptT ε (StateM τ) α') :=
  fun _ _ hst => ⟨.error err, hst⟩

/-- The states are the results. -/
theorem get : Tracks R R (getThe σ : ExceptT ε (StateM σ) σ) (getThe τ : ExceptT ε (StateM τ) τ) :=
  fun _ _ hst => ⟨.ok hst, hst⟩

/-- A change that keeps states related gives nothing else. -/
theorem modify {f : σ → σ} {g : τ → τ} (h : ∀ s t, R s t → R (f s) (g t)) :
    Tracks R (fun _ _ => True) (modifyThe σ f : ExceptT ε (StateM σ) PUnit)
      (modifyThe τ g : ExceptT ε (StateM τ) PUnit) :=
  fun s t hst => ⟨.ok trivial, h s t hst⟩

/-- The rest is in step, for results that are related. -/
theorem bind {f : α → ExceptT ε (StateM σ) β} {g : α' → ExceptT ε (StateM τ) β'}
    (h : Tracks R A x y) (hrest : ∀ a a', A a a' → Tracks R B (f a) (g a')) :
    Tracks R B (x >>= f) (y >>= g) := by
  intro s t hst
  obtain ⟨hagree, hstate⟩ := h s t hst
  rw [run_bind, run_bind]
  rcases hx : x.run s with ⟨outcome, s'⟩
  rcases hy : y.run t with ⟨outcome', t'⟩
  rw [hx, hy] at hagree hstate
  cases hagree with
  | ok related => exact hrest _ _ related s' t' hstate
  | error err => exact ⟨.error err, hstate⟩

/-- The results are mapped by functions that keep them related. -/
theorem map {f : α → β} {g : α' → β'} (h : Tracks R A x y)
    (himp : ∀ a a', A a a' → B (f a) (g a')) : Tracks R B (f <$> x) (g <$> y) := by
  intro s t hst
  obtain ⟨hagree, hstate⟩ := h s t hst
  rw [run_map, run_map]
  exact ⟨hagree.map himp, hstate⟩

theorem congr {z : ExceptT ε (StateM τ) α} (f : α → β) (h : Tracks R Eq x z) :
    Tracks R Eq (f <$> x) (f <$> z) := h.map fun _ _ heq => congrArg f heq

/-- Loops over one list are in step if their rounds are. -/
theorem forM {γ : Type} {l : List γ} {f : γ → ExceptT ε (StateM σ) PUnit}
    {g : γ → ExceptT ε (StateM τ) PUnit} (h : ∀ c, Tracks R (fun _ _ => True) (f c) (g c)) :
    Tracks R (fun _ _ => True) (l.forM f) (l.forM g) := by
  induction l with
  | nil => exact .pure trivial
  | cons c l ih =>
    rw [List.forM_eq_forM, List.forM_eq_forM, List.forM_cons, List.forM_cons, ← List.forM_eq_forM,
      ← List.forM_eq_forM]
    exact (h c).bind fun _ _ _ => ih

/-- A program for each member of a list is in step as a whole. -/
theorem mapM {γ δ : Type} {l : List γ} {f : γ → ExceptT ε (StateM σ) δ}
    {g : γ → ExceptT ε (StateM τ) δ} (h : ∀ c, Tracks R Eq (f c) (g c)) :
    Tracks R Eq (l.mapM f) (l.mapM g) := by
  induction l with
  | nil => exact .pure rfl
  | cons c l ih =>
    rw [List.mapM_cons, List.mapM_cons]
    refine (h c).bind ?_
    rintro d _ rfl
    exact ih.bind fun _ _ hds => .pure (congrArg (d :: ·) hds)

/-- What is caught is handled alike. -/
theorem tryCatch {y : ExceptT ε (StateM τ) α'} {f : ε → ExceptT ε (StateM σ) α}
    {g : ε → ExceptT ε (StateM τ) α'} (h : Tracks R A x y) (hf : ∀ err, Tracks R A (f err) (g err)) :
    Tracks R A (tryCatch x f) (tryCatch y g) := by
  intro s t hst
  obtain ⟨hagree, hstate⟩ := h s t hst
  rw [run_tryCatch, run_tryCatch]
  rcases hx : x.run s with ⟨outcome, s'⟩
  rcases hy : y.run t with ⟨outcome', t'⟩
  rw [hx, hy] at hagree hstate
  cases hagree with
  | ok related => exact ⟨.ok related, hstate⟩
  | error err => exact hf err s' t' hstate

end Tracks

/-! ### Runs that are broken off -/

/-- Whether an outcome is a failure of a certain kind. -/
def FailsWith (stops : ε → Prop) : Except ε α → Prop
  | .ok _ => False
  | .error err => stops err

theorem FailsWith.mapError {δ : Type} {stops : ε → Prop} {stops' : δ → Prop} {f : ε → δ}
    (hstops : ∀ err, stops err → stops' (f err)) {r : Except ε α} (h : FailsWith stops r) :
    FailsWith stops' (r.mapError f) := by
  cases r with
  | ok a => exact h
  | error err => exact hstops err h

/-- Two programs that stay in step when they are run from related states, unless one of them breaks off. -/
def TracksUnless (stops : ε → Prop) (R : σ → τ → Prop) (A : α → α' → Prop) (x : ExceptT ε (StateM σ) α)
    (y : ExceptT ε (StateM τ) α') : Prop :=
  ∀ s t, R s t → ¬ FailsWith stops (x.run s).1 → ¬ FailsWith stops (y.run t).1 →
    Agree A (x.run s).1 (y.run t).1 ∧ R (x.run s).2 (y.run t).2

namespace TracksUnless

variable {stops : ε → Prop} {A : α → α' → Prop} {B : β → β' → Prop} {x : ExceptT ε (StateM σ) α}
  {y : ExceptT ε (StateM τ) α'}

/-- Programs that are in step are so unless one of them is broken off. -/
theorem of_tracks (h : Tracks R A x y) : TracksUnless stops R A x y := fun s t hst _ _ => h s t hst

theorem mono {A' : α → α' → Prop} (h : TracksUnless stops R A x y) (himp : ∀ a a', A a a' → A' a a') :
    TracksUnless stops R A' x y := fun s t hst hgo hgo' =>
  ⟨(h s t hst hgo hgo').1.mono himp, (h s t hst hgo hgo').2⟩

/-- A program that is broken off at its beginning is broken off as a whole. -/
theorem not_failsWith_of_bind {f : α → ExceptT ε (StateM σ) β} {s : σ}
    (h : ¬ FailsWith stops ((x >>= f).run s).1) : ¬ FailsWith stops (x.run s).1 := by
  rw [run_bind] at h
  rcases hx : x.run s with ⟨outcome, s'⟩
  rw [hx] at h
  cases outcome with
  | ok a => exact id
  | error err => exact h

/-- If the whole is not broken off, its first part is not. -/
theorem bind {f : α → ExceptT ε (StateM σ) β} {g : α' → ExceptT ε (StateM τ) β'}
    (h : TracksUnless stops R A x y) (hrest : ∀ a a', A a a' → TracksUnless stops R B (f a) (g a')) :
    TracksUnless stops R B (x >>= f) (y >>= g) := by
  intro s t hst hgo hgo'
  obtain ⟨hagree, hstate⟩ := h s t hst (not_failsWith_of_bind hgo) (not_failsWith_of_bind hgo')
  rw [run_bind] at hgo hgo' ⊢
  rw [run_bind]
  rcases hx : x.run s with ⟨outcome, s'⟩
  rcases hy : y.run t with ⟨outcome', t'⟩
  rw [hx] at hagree hstate hgo
  rw [hy] at hagree hstate hgo'
  cases hagree with
  | ok related => exact hrest _ _ related s' t' hstate hgo hgo'
  | error err => exact ⟨.error err, hstate⟩

end TracksUnless

end Program

end SecondaryIndex
