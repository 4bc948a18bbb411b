import SecondaryIndex.Proofs.Ledger.Basic

/-!
# One ledger presenting another

The entries of an index lie in namespaces of an engine, so a map of pairs is presented by a map of
physical keys, and writes to pairs by writes to physical keys. A `Presentation` is such a pair of
relations, one for what is seen and one for what is written. Three laws make it useful: writing
nothing presents writing nothing, making two writes one after the other is presented by the same, and
writes that are made to a view present the writes made to the presented view.

`Presentation.Holds` relates two ledgers by it: the committed bindings, and the writes of every
transaction that is trusted. Distrust is for transactions in which an operation failed half way; such
a transaction is open on both sides, and nothing is said of its writes. The lemmas say that each
change of a ledger keeps the relation. The one that needs trust is the commit, since only there the
writes of a transaction reach the committed bindings.
-/

namespace SecondaryIndex

/-- How a map, and writes to it, are presented by another map and writes to that one. -/
structure Presentation (κ α κ' α' : Type) where
  views : (κ → Option α) → (κ' → Option α') → Prop
  changes : Changes κ α → Changes κ' α' → Prop
  nothing : changes .nothing .nothing
  after : ∀ {c c' d d'}, changes c d → changes c' d' → changes (c'.after c) (d'.after d)
  applyTo : ∀ {c d f g}, changes c d → views f g → views (c.applyTo f) (d.applyTo g)

namespace Presentation

variable {κ α κ' α' : Type} (P : Presentation κ α κ' α') {trusted trusted' : TransactionId → Prop}
  {l : Ledger κ α} {m : Ledger κ' α'} {c : Changes κ α} {d : Changes κ' α'} {id : TransactionId}
  {ctx : Context}

/-- A ledger presents another, as far as the trusted transactions go. -/
structure Holds (trusted : TransactionId → Prop) (l : Ledger κ α) (m : Ledger κ' α') : Prop where
  committed : P.views l.committed m.committed
  isSome : ∀ id, (l.pending id).isSome = (m.pending id).isSome
  pending : ∀ {id c d}, trusted id → l.pending id = some c → m.pending id = some d → P.changes c d

variable {P}

/-- A ledger and the one it presents have the same contexts to use. -/
theorem Holds.usable_iff (h : P.Holds trusted l m) : l.Usable ctx ↔ m.Usable ctx := by
  cases ctx with
  | none => exact Iff.rfl
  | some id =>
    show (l.pending id).isSome = true ↔ (m.pending id).isSome = true
    rw [h.isSome id]

/-- Fewer transactions may be trusted. -/
theorem Holds.mono (h : P.Holds trusted l m) (hsub : ∀ id, trusted' id → trusted id) :
    P.Holds trusted' l m :=
  ⟨h.committed, h.isSome, fun ht => h.pending (hsub _ ht)⟩

/-- A trusted transaction sees what it should. -/
theorem Holds.view (h : P.Holds trusted l m) (ht : ∀ id, ctx = some id → trusted id) :
    P.views (l.view ctx) (m.view ctx) := by
  cases ctx with
  | none => exact h.committed
  | some id =>
    have hsome := h.isSome id
    -- a transaction that is not open sees what is committed, on both sides
    have hwrites : P.changes ((l.pending id).getD .nothing) ((m.pending id).getD .nothing) := by
      cases hl : l.pending id with
      | none =>
        rw [hl, Option.isSome_none] at hsome
        rw [Option.isNone_iff_eq_none.1 (Option.isSome_eq_false_iff.1 hsome.symm)]
        exact P.nothing
      | some c =>
        rw [hl, Option.isSome_some] at hsome
        obtain ⟨d, hd⟩ := Option.isSome_iff_exists.1 hsome.symm
        rw [hd]
        exact h.pending (ht id rfl) hl hd
    exact P.applyTo hwrites h.committed

/-- What is begun is trusted, whether or not an earlier transaction of the number was. -/
theorem Holds.begin (h : P.Holds trusted l m) (id : TransactionId)
    (hsub : ∀ j, j ≠ id → trusted' j → trusted j) :
    P.Holds trusted' (l.begin id) (m.begin id) where
  committed := h.committed
  isSome j := by
    rw [Ledger.begin_pending, Ledger.begin_pending]
    split
    · rfl
    · exact h.isSome j
  pending {j c d} ht hc hd := by
    rw [Ledger.begin_pending] at hc hd
    -- a transaction that has just begun has written nothing, so trusting it is free
    by_cases hj : j = id
    · rw [if_pos hj] at hc hd
      cases hc
      cases hd
      exact P.nothing
    · rw [if_neg hj] at hc hd
      exact h.pending (hsub j hj ht) hc hd

/-- Changes that present one another can be written in both ledgers. -/
theorem Holds.write (h : P.Holds trusted l m) (hc : P.changes c d) (ctx : Context) :
    P.Holds trusted (l.write c ctx) (m.write d ctx) := by
  cases ctx with
  | none => exact ⟨P.applyTo hc h.committed, h.isSome, h.pending⟩
  | some id =>
    refine ⟨h.committed, fun j => ?_, fun {j c' d'} ht hc' hd' => ?_⟩
    · rw [Ledger.write_some_pending, Ledger.write_some_pending]
      split
      · rw [Option.isSome_map, Option.isSome_map, h.isSome id]
      · exact h.isSome j
    · rw [Ledger.write_some_pending] at hc' hd'
      by_cases hj : j = id
      · rw [if_pos hj] at hc' hd'
        obtain ⟨c₀, hc₀, rfl⟩ := Option.map_eq_some_iff.1 hc'
        obtain ⟨d₀, hd₀, rfl⟩ := Option.map_eq_some_iff.1 hd'
        exact P.after (h.pending (hj ▸ ht) hc₀ hd₀) hc
      · rw [if_neg hj] at hc' hd'
        exact h.pending ht hc' hd'

/-- A transaction may write anything, once it is not trusted any more. -/
theorem Holds.distrust (h : P.Holds trusted l m) (c : Changes κ α) (d : Changes κ' α')
    (id : TransactionId) (hsub : ∀ j, trusted' j → j ≠ id ∧ trusted j) :
    P.Holds trusted' (l.write c (some id)) (m.write d (some id)) where
  committed := h.committed
  isSome j := by
    rw [Ledger.write_some_pending, Ledger.write_some_pending]
    split
    · rw [Option.isSome_map, Option.isSome_map, h.isSome id]
    · exact h.isSome j
  pending {j c' d'} ht hc' hd' := by
    obtain ⟨hj, ht⟩ := hsub j ht
    rw [Ledger.write_some_pending, if_neg hj] at hc' hd'
    exact h.pending ht hc' hd'

/-- A transaction closed in both ledgers need not be presented any more. -/
theorem Holds.close (h : P.Holds trusted l m) (id : TransactionId)
    (hsub : ∀ j, j ≠ id → trusted' j → trusted j) :
    P.Holds trusted' (l.close id) (m.close id) where
  committed := h.committed
  isSome j := by
    rw [Ledger.close_pending, Ledger.close_pending]
    split
    · rfl
    · exact h.isSome j
  pending {j c d} ht hc hd := by
    rw [Ledger.close_pending] at hc hd
    by_cases hj : j = id
    · rw [if_pos hj] at hc
      cases hc
    · rw [if_neg hj] at hc hd
      exact h.pending (hsub j hj ht) hc hd

/-- A transaction that is trusted is committed in both ledgers. -/
theorem Holds.commit (h : P.Holds trusted l m) (ht : trusted id)
    (hsub : ∀ j, j ≠ id → trusted' j → trusted j) :
    P.Holds trusted' (l.commit id) (m.commit id) := by
  have hclose := h.close id hsub
  -- the committed bindings become what the transaction saw, which is why it must be trusted
  have hview : P.views (l.view (some id)) (m.view (some id)) :=
    h.view fun j hj => Option.some.inj hj ▸ ht
  exact ⟨hview, hclose.isSome, hclose.pending⟩

end Presentation

end SecondaryIndex
