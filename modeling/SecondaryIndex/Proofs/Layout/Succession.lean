import SecondaryIndex.Proofs.Layout.Span

/-!
# Keys one after the other

`Layout.order_exact` is the main result: physical keys come in the order of the length of the key, of
the key and of the value, and the ranges of two keys follow one another without overlapping.

The second half is about the upper bound. It is found by a carry that may pass into the length bytes,
and still does not reach beyond the stem of any later key: a successor is the *least* byte string above
all that begin with its origin, so whatever lies above and does not begin with it is not below the
successor (`Bytes.exists_successor_le`).
-/

namespace SecondaryIndex

/-- What lies above a byte string without beginning with it is not below its successor, which is
therefore there. -/
theorem Bytes.exists_successor_le {a b : Bytes} (hlt : a < b) (hnot : ¬ a <+: b) :
    ∃ bound, successor? a = some bound ∧ bound ≤ b := by
  rw [Bytes.prefix_iff] at hnot
  have habove : ¬ ∀ bound, successor? a = some bound → b < bound :=
    fun hall => hnot ⟨Std.le_of_lt hlt, hall⟩
  cases hsucc : successor? a with
  | none =>
    refine absurd (fun bound hbound => ?_) habove
    rw [hsucc] at hbound
    cases hbound
  | some bound =>
    refine ⟨bound, rfl, Std.not_lt.1 fun hb => habove fun bound' hbound' => ?_⟩
    rw [hsucc] at hbound'
    rwa [← Option.some.inj hbound']

namespace Layout

variable {layout : Layout} {key key' lower lower' : Bytes} {upper upper' : Bound}

/-- A key that fits has a physical key for every value. -/
theorem exists_join (hfits : key.length ≤ layout.keyLimit) (value : Bytes) :
    ∃ physical, layout.join key value = .ok physical :=
  ⟨_, join_eq_ok_iff.2 ⟨hfits, rfl⟩⟩

/-- The stem of a key is the physical key of its empty value. -/
theorem join_nil (h : layout.stem key = .ok lower) : layout.join key [] = .ok lower := by
  obtain ⟨hfits, hlower⟩ := stem_eq_ok_iff.1 h
  exact join_eq_ok_iff.2 ⟨hfits, by rw [hlower, List.append_nil]⟩

/-- The stems of keys come in the order of their keys. -/
theorem stem_lt_stem_iff (h : layout.stem key = .ok lower) (h' : layout.stem key' = .ok lower') :
    lower < lower' ↔ key.length < key'.length ∨ key.length = key'.length ∧ key < key' := by
  rw [join_lt_join_iff (join_nil h) (join_nil h')]
  simp [Std.lt_irrefl]

/-- The stem of no key is continued by the stem of another one. -/
theorem not_prefix_stem (h : layout.stem key = .ok lower) (h' : layout.stem key' = .ok lower')
    (hne : key ≠ key') : ¬ lower <+: lower' := by
  rw [prefix_iff_split h]
  rintro ⟨value, hsplit⟩
  rw [split_join (join_nil h')] at hsplit
  exact hne (Prod.mk.inj (Except.ok.inj hsplit)).1.symm

/-- The range of a key ends before that of any later key begins. -/
theorem upper_le_of_before (hspan : layout.span key = .ok (lower, upper))
    (hstem' : layout.stem key' = .ok lower')
    (hbefore : key.length < key'.length ∨ key.length = key'.length ∧ key < key') :
    ∃ bound, upper = .excluded bound ∧ bound ≤ lower' := by
  obtain ⟨hstem, hupper⟩ := stem_of_span hspan
  have hlt : lower < lower' := (stem_lt_stem_iff hstem hstem').2 hbefore
  have hne : key ≠ key' := by
    rintro rfl
    rcases hbefore with hlen | ⟨-, hkey⟩
    · exact Nat.lt_irrefl _ hlen
    · exact Std.lt_irrefl hkey
  obtain ⟨bound, hbound, hle⟩ := Bytes.exists_successor_le hlt (not_prefix_stem hstem hstem' hne)
  rcases hupper with ⟨hnone, -⟩ | ⟨bound', hbound', rfl⟩
  · rw [hnone] at hbound
    cases hbound
  · rw [hbound] at hbound'
    exact ⟨bound, congrArg Bound.excluded (Option.some.inj hbound').symm, hle⟩

/-- What lies in the earlier of two ranges that follow one another lies below what is in the later
one. -/
theorem lt_of_contains {bound p p' : Bytes} (hle : bound ≤ lower')
    (hp : Range.contains ⟨.included lower, .excluded bound⟩ p = true)
    (hp' : Range.contains ⟨.included lower', upper'⟩ p' = true) : p < p' := by
  simp only [Range.contains, Bound.below, Bound.above, Bool.and_eq_true, decide_eq_true_eq] at hp hp'
  exact Std.lt_of_lt_of_le hp.2 (Std.le_trans hle hp'.1)

/-- Byte order is the order by length of the key, key and value; and of two keys, the first has a
finite upper bound that is not above the lower bound of the second, so that their ranges share nothing
and the entries of the first come before those of the second. -/
theorem order_exact (layout : Layout) :
    (∀ key value key' value' : Bytes, key.length ≤ layout.keyLimit → key'.length ≤ layout.keyLimit →
      ∃ physical physical', layout.join key value = .ok physical ∧
        layout.join key' value' = .ok physical' ∧
        (physical < physical' ↔ key.length < key'.length ∨ key.length = key'.length ∧
          (key < key' ∨ key = key' ∧ value < value'))) ∧
    ∀ key key' : Bytes, key.length ≤ layout.keyLimit → key'.length ≤ layout.keyLimit →
      (key.length < key'.length ∨ key.length = key'.length ∧ key < key') →
      ∃ lower bound lower' upper', layout.stem key = .ok lower ∧
        layout.ceiling key = .ok (.excluded bound) ∧ layout.stem key' = .ok lower' ∧
        layout.ceiling key' = .ok upper' ∧ bound ≤ lower' ∧
        (∀ p, ¬ (Range.contains ⟨.included lower, .excluded bound⟩ p = true ∧
          Range.contains ⟨.included lower', upper'⟩ p = true)) ∧
        ∀ p p' value value', layout.split p = .ok (key, value) →
          layout.split p' = .ok (key', value') → p < p' := by
  constructor
  · intro key value key' value' hfits hfits'
    obtain ⟨physical, hjoin⟩ := exists_join hfits value
    obtain ⟨physical', hjoin'⟩ := exists_join hfits' value'
    exact ⟨physical, physical', hjoin, hjoin', join_lt_join_iff hjoin hjoin'⟩
  · intro key key' hfits hfits' hbefore
    obtain ⟨lower, upper, hspan⟩ := span_eq_ok_of_le hfits
    obtain ⟨lower', upper', hspan'⟩ := span_eq_ok_of_le hfits'
    obtain ⟨hstem, hceiling⟩ := span_eq_ok_iff.1 hspan
    obtain ⟨hstem', hceiling'⟩ := span_eq_ok_iff.1 hspan'
    -- a key that has a later one is not the last of its length, so its ceiling is a bound
    obtain ⟨bound, rfl, hle⟩ := upper_le_of_before hspan hstem' hbefore
    refine ⟨lower, bound, lower', upper', hstem, hceiling, hstem', hceiling', hle, ?_, ?_⟩
    · rintro p ⟨hp, hp'⟩
      exact Std.lt_irrefl (lt_of_contains hle hp hp')
    · intro p p' value value' hsplit hsplit'
      exact lt_of_contains hle ((contains_iff_split hspan).2 ⟨value, hsplit⟩)
        ((contains_iff_split hspan').2 ⟨value', hsplit'⟩)

/-- A key whose value goes on like the bytes of a longer key, and a key whose upper bound has carried
into its length byte up to the stem of the next one. -/
theorem order_exact_of_carry :
    (∃ physical physical', compact.join [7] [0xff, 9] = .ok physical ∧
      compact.join [7, 0] [] = .ok physical' ∧ physical < physical') ∧
    ∃ bound lower', compact.ceiling [0xff] = .ok (.excluded bound) ∧
      compact.stem [0, 0] = .ok lower' ∧ bound ≤ lower' := by
  obtain ⟨hpairs, hkeys⟩ := order_exact compact
  constructor
  · obtain ⟨physical, physical', hjoin, hjoin', horder⟩ :=
      hpairs [7] [0xff, 9] [7, 0] [] (by decide) (by decide)
    exact ⟨physical, physical', hjoin, hjoin', horder.2 (.inl (by decide))⟩
  · obtain ⟨lower, bound, lower', upper', -, hceiling, hstem', -, hle, -⟩ :=
      hkeys [0xff] [0, 0] (by decide) (by decide) (.inl (by decide))
    exact ⟨bound, lower', hceiling, hstem', hle⟩

end Layout

end SecondaryIndex
