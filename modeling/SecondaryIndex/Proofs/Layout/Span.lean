import Mathlib.Algebra.Group.Nat.Defs
import SecondaryIndex.Proofs.Layout.Order

/-!
# The range of a key

`Layout.span_exact` is the main result: the range between the two bounds of a key holds exactly the
byte strings that split into this key and some value, among all byte strings there are. The bounds of
the group of a physical key are those of its key, so they hold the physical key.

The upper bound is found by a carry from the last byte of the stem towards the first. It may pass the
key and reach the length bytes, and so lie beyond all keys of this length; it is absent exactly if the
carry finds no byte that can grow (`Bytes.successor?_eq_none_iff`).
-/

namespace SecondaryIndex

/-- Only byte strings of the greatest byte have no successor. -/
theorem Bytes.successor?_eq_none_iff (a : Bytes) : successor? a = none ↔ ∀ b ∈ a, b = 0xff := by
  induction a with
  | nil => simp [successor?]
  | cons b rest ih =>
    rw [List.forall_mem_cons, ← ih]
    cases hrest : successor? rest with
    | some rest' => simp [successor?, hrest]
    | none =>
      have hmax : ¬ b < 0xff ↔ b = 0xff := by
        rw [← UInt8.toNat_inj, UInt8.lt_iff_toNat_lt]
        have hb : b.toNat < 256 := b.toNat_lt
        have hff : (0xff : UInt8).toNat = 255 := rfl
        omega
      simp [successor?, hrest, hmax]

namespace Layout

variable {layout : Layout} {key value physical lower : Bytes} {upper : Bound}

/-- A byte counts the bytes of the longest compact key, and four bytes those of the longest wide
one. -/
theorem keyLimit_eq (layout : Layout) :
    layout.keyLimit = match layout with
      | .compact => 255
      | .wide => 2 ^ 32 - 1 := by
  cases layout <;> rfl

/-- A span is the stem of the key and its ceiling. -/
theorem span_eq_ok_iff :
    layout.span key = .ok (lower, upper) ↔
      layout.stem key = .ok lower ∧ layout.ceiling key = .ok upper := by
  unfold span
  cases layout.stem key <;> cases layout.ceiling key <;>
    simp [bind, Except.bind, pure, Except.pure]

/-- The range of a key has no upper end exactly if its lower end is all of the greatest byte. -/
theorem upper_of_span (h : layout.span key = .ok (lower, upper)) :
    (∀ b ∈ lower, b = 0xff) ∧ upper = .unbounded ∨
      (∃ b ∈ lower, b ≠ 0xff) ∧ ∃ bound, upper = .excluded bound := by
  obtain ⟨-, ⟨hnone, hupper⟩ | ⟨bound, hbound, hupper⟩⟩ := stem_of_span h
  · exact .inl ⟨(Bytes.successor?_eq_none_iff lower).1 hnone, hupper⟩
  · have hgrows : ¬ ∀ b ∈ lower, b = 0xff := by
      rw [← Bytes.successor?_eq_none_iff, hbound]
      exact Option.some_ne_none bound
    exact .inr ⟨by simpa using hgrows, bound, hupper⟩

/-- A stored key holds a key that fits. -/
theorem fits_of_split (h : layout.split physical = .ok (key, value)) :
    key.length ≤ layout.keyLimit := (join_eq_ok_iff.1 (join_of_split h)).1

theorem spanOf_of_split (h : layout.split physical = .ok (key, value)) :
    layout.spanOf physical = layout.span key := by
  unfold spanOf
  rw [h]
  rfl

/-- The bounds of a key select its physical keys, and those of a group select its members. -/
theorem span_exact (layout : Layout) :
    (∀ key : Bytes, (key.length ≤ match layout with
        | .compact => 255
        | .wide => 2 ^ 32 - 1) →
      ∃ lower upper, layout.stem key = .ok lower ∧ layout.ceiling key = .ok upper ∧
        ((∀ b ∈ lower, b = 0xff) ∧ upper = .unbounded ∨
          (∃ b ∈ lower, b ≠ 0xff) ∧ ∃ bound, upper = .excluded bound) ∧
        ∀ physical, Range.contains ⟨.included lower, upper⟩ physical = true ↔
          ∃ value, layout.split physical = .ok (key, value)) ∧
    ∀ physical key value, layout.split physical = .ok (key, value) →
      ∃ lower upper, layout.stem key = .ok lower ∧ layout.ceiling key = .ok upper ∧
        layout.spanOf physical = .ok (lower, upper) ∧
        Range.contains ⟨.included lower, upper⟩ physical = true := by
  rw [← keyLimit_eq]
  constructor
  · intro key hfits
    obtain ⟨lower, upper, hspan⟩ := span_eq_ok_of_le hfits
    obtain ⟨hstem, hceiling⟩ := span_eq_ok_iff.1 hspan
    exact ⟨lower, upper, hstem, hceiling, upper_of_span hspan, fun _ => contains_iff_split hspan⟩
  · intro physical key value hsplit
    obtain ⟨lower, upper, hspan⟩ := span_eq_ok_of_le (fits_of_split hsplit)
    obtain ⟨hstem, hceiling⟩ := span_eq_ok_iff.1 hspan
    refine ⟨lower, upper, hstem, hceiling, ?_, ?_⟩
    · rw [spanOf_of_split hsplit, hspan]
    · exact (contains_iff_split hspan).2 ⟨value, hsplit⟩

/-- A compact key of which the carry passes both bytes and ends in the length byte, and a physical key
of it. -/
theorem span_exact_of_carry :
    (∃ upper, compact.ceiling [0xff, 0xff] = .ok upper ∧
      ∀ physical, Range.contains ⟨.included [2, 0xff, 0xff], upper⟩ physical = true ↔
        ∃ value, compact.split physical = .ok ([0xff, 0xff], value)) ∧
    ∃ lower upper, compact.spanOf [2, 0xff, 0xff, 7] = .ok (lower, upper) ∧
      Range.contains ⟨.included lower, upper⟩ [2, 0xff, 0xff, 7] = true := by
  obtain ⟨hkeys, hgroups⟩ := span_exact compact
  constructor
  · obtain ⟨lower, upper, hstem, hceiling, -, hcontains⟩ := hkeys [0xff, 0xff] (by decide)
    have hlower : lower = [2, 0xff, 0xff] := (Except.ok.inj hstem).symm
    subst hlower
    exact ⟨upper, hceiling, hcontains⟩
  · obtain ⟨lower, upper, -, -, hspan, hcontains⟩ :=
      hgroups [2, 0xff, 0xff, 7] [0xff, 0xff] [7] rfl
    exact ⟨lower, upper, hspan, hcontains⟩

end Layout

end SecondaryIndex
