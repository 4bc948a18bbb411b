import SecondaryIndex.Layout.Basic

/-!
# The physical keys of a key

Splitting and joining are inverse to each other (`Layout.split_join`,
`Layout.join_of_split`), so a byte string is the physical key of at most one pair, and it is one
exactly if it can be split.
-/

namespace SecondaryIndex

namespace Layout

variable {layout : Layout} {key value physical : Bytes}

/-- A key that fits begins with its length and its bytes. -/
theorem stem_eq_ok_iff {bound : Bytes} :
    layout.stem key = .ok bound ↔
      key.length ≤ layout.keyLimit ∧ bound = BigEndian.ofNat layout.width key.length ++ key := by
  unfold stem
  by_cases h : key.length ≤ layout.keyLimit <;> simp [h, eq_comm]

/-- The physical key of a pair is the lower bound of its key with the value behind it. -/
theorem join_eq_ok_iff :
    layout.join key value = .ok physical ↔
      key.length ≤ layout.keyLimit ∧
        physical = BigEndian.ofNat layout.width key.length ++ key ++ value := by
  unfold join stem
  by_cases h : key.length ≤ layout.keyLimit
  · simp [h, bind, Except.bind, pure, Except.pure, eq_comm]
  · simp [h, bind, Except.bind]

/-- A byte string is split if it has its length bytes and as many bytes behind them as they declare.
-/
theorem split_eq_ok_iff {parts : Bytes × Bytes} :
    layout.split physical = .ok parts ↔
      layout.width ≤ physical.length ∧
        BigEndian.toNat (physical.take layout.width) ≤ (physical.drop layout.width).length ∧
        parts = ((physical.drop layout.width).take (BigEndian.toNat (physical.take layout.width)),
          (physical.drop layout.width).drop (BigEndian.toNat (physical.take layout.width))) := by
  unfold split
  by_cases hw : physical.length < layout.width
  · simp only [if_pos hw, reduceCtorEq, false_iff, not_and]
    intro h
    omega
  · by_cases hd : (physical.drop layout.width).length <
        BigEndian.toNat (physical.take layout.width)
    · simp only [if_neg hw, if_pos hd, reduceCtorEq, false_iff, not_and]
      intro _ h
      omega
    · simp only [if_neg hw, if_neg hd, Except.ok.injEq]
      constructor
      · rintro rfl
        exact ⟨by omega, by omega, rfl⟩
      · rintro ⟨-, -, rfl⟩
        rfl

/-- A key that fits a layout has a length that its length bytes can write. -/
theorem lt_capacity_of_le_keyLimit {n : Nat} (h : n ≤ layout.keyLimit) :
    n < BigEndian.capacity layout.width := by
  have hpos := BigEndian.capacity_pos layout.width
  unfold keyLimit at h
  omega

/-- Splitting gives back what was joined. -/
theorem split_join (h : layout.join key value = .ok physical) :
    layout.split physical = .ok (key, value) := by
  obtain ⟨hlen, rfl⟩ := join_eq_ok_iff.1 h
  have htake : (BigEndian.ofNat layout.width key.length ++ key ++ value).take layout.width
      = BigEndian.ofNat layout.width key.length := by
    simp [List.append_assoc]
  have hdrop : (BigEndian.ofNat layout.width key.length ++ key ++ value).drop layout.width
      = key ++ value := by
    simp [List.append_assoc]
  -- the length was not cut off, since the key fits
  have hnum : BigEndian.toNat (BigEndian.ofNat layout.width key.length) = key.length := by
    rw [BigEndian.toNat_ofNat, Nat.mod_eq_of_lt (lt_capacity_of_le_keyLimit hlen)]
  rw [split_eq_ok_iff, htake, hdrop, hnum]
  simp

/-- Joining gives back what was split. -/
theorem join_of_split (h : layout.split physical = .ok (key, value)) :
    layout.join key value = .ok physical := by
  obtain ⟨hw, hd, hparts⟩ := split_eq_ok_iff.1 h
  obtain ⟨rfl, rfl⟩ := Prod.mk.inj hparts
  -- the length bytes are there, so they write the length of a key that fits
  have htake : (physical.take layout.width).length = layout.width := by
    rw [List.length_take]
    omega
  have hlt : BigEndian.toNat (physical.take layout.width) < BigEndian.capacity layout.width := by
    simpa only [htake] using BigEndian.toNat_lt (physical.take layout.width)
  have hkey : ((physical.drop layout.width).take
      (BigEndian.toNat (physical.take layout.width))).length
        = BigEndian.toNat (physical.take layout.width) := by
    rw [List.length_take]
    omega
  rw [join_eq_ok_iff]
  refine ⟨?_, ?_⟩
  · unfold keyLimit
    omega
  · have hhead : BigEndian.ofNat layout.width (BigEndian.toNat (physical.take layout.width))
        = physical.take layout.width := by
      simpa only [htake] using BigEndian.ofNat_toNat (physical.take layout.width)
    rw [hkey, hhead, List.append_assoc, List.take_append_drop, List.take_append_drop]

end Layout

end SecondaryIndex
