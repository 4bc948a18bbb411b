import SecondaryIndex.Layout.Lemmas

/-!
# The order of physical keys

Two facts carry everything that is read from a namespace of entries.

* Which physical keys belong to a key: those that begin with its stem, which are those between the
  stem and the ceiling (`Layout.contains_iff_split`). Below it lies `Bytes.prefix_iff`: the byte
  strings that begin with `a` are those from `a` up to `successor? a`, or all from `a` on if there is
  no successor.
* In which order they come: by the length of the key, then by the key, then by the value
  (`Layout.join_lt_join_iff`). The length is written with a fixed number of bytes, so it is compared
  as a number, and keys of one length are compared before the values behind them are seen.
-/

namespace SecondaryIndex

namespace Bytes

/-! ### Beginnings -/

theorem lt_succ_iff {b c : UInt8} (h : b < 0xff) : c < b + 1 ↔ c ≤ b := by
  have hb : b.toNat < 255 := h
  have hsucc : (b + 1).toNat = b.toNat + 1 := by
    rw [UInt8.toNat_add, UInt8.toNat_one]
    exact Nat.mod_eq_of_lt (by omega)
  rw [UInt8.lt_iff_toNat_lt, hsucc, UInt8.le_iff_toNat_le, Nat.lt_succ_iff]

/-- What begins with `a` lies from `a` on and below its successor. -/
theorem prefix_iff (a p : Bytes) :
    a <+: p ↔ a ≤ p ∧ ∀ bound, successor? a = some bound → p < bound := by
  -- by induction along the two byte strings, which must agree up to the end of `a`
  induction a generalizing p with
  | nil => simp [successor?]
  | cons b rest ih =>
    cases p with
    | nil => simp
    | cons c q =>
      rw [List.cons_prefix_cons, List.cons_le_cons_iff, ih]
      cases hrest : successor? rest with
      | some rest' =>
        simp only [successor?, hrest, Option.some.injEq, forall_eq', List.cons_lt_cons_iff]
        constructor
        · rintro ⟨rfl, hle, hlt⟩
          exact ⟨.inr ⟨rfl, hle⟩, .inr ⟨rfl, hlt⟩⟩
        · rintro ⟨hbc | ⟨rfl, hle⟩, hcb | ⟨hcb, hlt⟩⟩
          · exact absurd (Std.lt_trans hbc hcb) Std.lt_irrefl
          · exact absurd (hcb ▸ hbc) Std.lt_irrefl
          · exact absurd hcb Std.lt_irrefl
          · exact ⟨rfl, hle, hlt⟩
      | none =>
        -- the rest cannot grow, so its first byte has to
        by_cases hmax : b < 0xff
        · simp only [successor?, hrest, if_pos hmax, Option.some.injEq, forall_eq',
            List.cons_lt_cons_iff, reduceCtorEq, false_implies, implies_true, and_true,
            List.not_lt_nil, and_false, or_false, lt_succ_iff hmax]
          constructor
          · rintro ⟨rfl, hle⟩
            exact ⟨.inr ⟨rfl, hle⟩, Std.le_refl _⟩
          · rintro ⟨hbc | ⟨rfl, hle⟩, hcb⟩
            · exact absurd (Std.lt_of_lt_of_le hbc hcb) Std.lt_irrefl
            · exact ⟨rfl, hle⟩
        · have hnot : ¬ b < c := by
            rw [UInt8.lt_iff_toNat_lt] at hmax ⊢
            have hc : c.toNat < 256 := c.toNat_lt
            have hff : (0xff : UInt8).toNat = 255 := rfl
            omega
          simp [successor?, hrest, if_neg hmax, hnot]

/-! ### Comparing joined byte strings -/

/-- Of two joined byte strings whose first parts have one length, those are compared first. -/
theorem append_lt_append_iff {a b x y : Bytes} (h : a.length = b.length) :
    a ++ x < b ++ y ↔ a < b ∨ a = b ∧ x < y := by
  induction a generalizing b with
  | nil =>
    have hb : b = [] := List.eq_nil_of_length_eq_zero h.symm
    simp [hb]
  | cons c a ih =>
    cases b with
    | nil => cases h
    | cons d b =>
      have hlen : a.length = b.length := Nat.succ.inj h
      simp only [List.cons_append, List.cons_lt_cons_iff, ih hlen, List.cons.injEq]
      rw [and_or_left, or_assoc, and_assoc]

end Bytes

namespace Layout

variable {layout : Layout} {key key' value value' stem physical physical' : Bytes}

/-! ### The physical keys of a key -/

/-- The physical keys of a key are the byte strings that begin with its stem. -/
theorem prefix_iff_split (h : layout.stem key = .ok stem) :
    stem <+: physical ↔ ∃ value, layout.split physical = .ok (key, value) := by
  obtain ⟨hfits, hstem⟩ := stem_eq_ok_iff.1 h
  constructor
  · rintro ⟨value, rfl⟩
    refine ⟨value, split_join (join_eq_ok_iff.2 ⟨hfits, ?_⟩)⟩
    rw [hstem]
  · rintro ⟨value, hsplit⟩
    obtain ⟨-, rfl⟩ := join_eq_ok_iff.1 (join_of_split hsplit)
    exact ⟨value, by rw [hstem]⟩

/-- The lower bound of a key is its stem, and the upper one the successor of the stem if there is
one. -/
theorem stem_of_span {upper : Bound} (h : layout.span key = .ok (stem, upper)) :
    layout.stem key = .ok stem ∧
      (Bytes.successor? stem = none ∧ upper = .unbounded ∨
        ∃ bound, Bytes.successor? stem = some bound ∧ upper = .excluded bound) := by
  unfold span ceiling at h
  cases hstem : layout.stem key with
  | error e =>
    rw [hstem] at h
    cases h
  | ok stem' =>
    simp only [hstem, bind, Except.bind, pure, Except.pure] at h
    cases hsucc : Bytes.successor? stem' with
    | none =>
      rw [hsucc] at h
      cases h
      exact ⟨rfl, .inl ⟨hsucc, rfl⟩⟩
    | some bound =>
      rw [hsucc] at h
      cases h
      exact ⟨rfl, .inr ⟨bound, hsucc, rfl⟩⟩

/-- The range of a key holds its physical keys, and no others. -/
theorem contains_iff_split {upper : Bound} (h : layout.span key = .ok (stem, upper)) :
    (Range.contains ⟨.included stem, upper⟩ physical) = true ↔
      ∃ value, layout.split physical = .ok (key, value) := by
  obtain ⟨hstem, hupper⟩ := stem_of_span h
  rw [← prefix_iff_split hstem, Bytes.prefix_iff]
  rcases hupper with ⟨hnone, rfl⟩ | ⟨bound, hbound, rfl⟩
  · simp [Range.contains, Bound.below, Bound.above, hnone]
  · simp [Range.contains, Bound.below, Bound.above, hbound]

theorem span_eq_ok_of_le (h : key.length ≤ layout.keyLimit) :
    ∃ stem upper, layout.span key = .ok (stem, upper) := by
  have hstem := stem_eq_ok_iff.2 ⟨h, rfl⟩
  unfold span ceiling
  simp only [hstem, bind, Except.bind, pure, Except.pure]
  cases Bytes.successor? (BigEndian.ofNat layout.width key.length ++ key) <;> exact ⟨_, _, rfl⟩

/-! ### Their order -/

/-- Physical keys are ordered by the length of the key, then by the key, then by the value. -/
theorem join_lt_join_iff (h : layout.join key value = .ok physical)
    (h' : layout.join key' value' = .ok physical') :
    physical < physical' ↔
      key.length < key'.length ∨ key.length = key'.length ∧
        (key < key' ∨ key = key' ∧ value < value') := by
  obtain ⟨hfits, rfl⟩ := join_eq_ok_iff.1 h
  obtain ⟨hfits', rfl⟩ := join_eq_ok_iff.1 h'
  have hlength := BigEndian.ofNat_lt_ofNat_iff (lt_capacity_of_le_keyLimit hfits)
    (lt_capacity_of_le_keyLimit hfits')
  -- the length bytes are compared first; they are equally many, whatever they say
  rw [List.append_assoc, List.append_assoc, Bytes.append_lt_append_iff (by simp), hlength]
  refine or_congr_right ?_
  constructor
  · rintro ⟨heq, hrest⟩
    -- equal length bytes are equal lengths
    have hlen : key.length = key'.length := by
      have hnat := congrArg BigEndian.toNat heq
      rwa [BigEndian.toNat_ofNat, BigEndian.toNat_ofNat,
        Nat.mod_eq_of_lt (lt_capacity_of_le_keyLimit hfits),
        Nat.mod_eq_of_lt (lt_capacity_of_le_keyLimit hfits')] at hnat
    exact ⟨hlen, (Bytes.append_lt_append_iff hlen).1 hrest⟩
  · rintro ⟨hlen, hrest⟩
    exact ⟨by rw [hlen], (Bytes.append_lt_append_iff hlen).2 hrest⟩

end Layout

end SecondaryIndex
