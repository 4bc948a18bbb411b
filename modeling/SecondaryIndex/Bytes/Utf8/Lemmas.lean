import SecondaryIndex.Bytes.Utf8.Basic

/-!
# Reading text that was written

Main statement: reading gives back every text that was written (`Utf8.decode_encode`). It is one
induction over the characters, whose step is that the form of a single character is read off the
front of any bytes (`Utf8.readChar_append`).
-/

namespace SecondaryIndex

namespace Utf8

/-! ### First bytes -/

theorem ofByte?_one {n : Nat} (h : n < 0x80) : Lead.ofByte? (UInt8.ofNat n) = some ⟨n, []⟩ := by
  have hb : (UInt8.ofNat n).toNat = n := by
    rw [UInt8.toNat_ofNat']
    omega
  simp [Lead.ofByte?, hb, h]

theorem ofByte?_two {n : Nat} (h₁ : 2 ≤ n) (h₂ : n < 32) :
    Lead.ofByte? (UInt8.ofNat (n + 192)) = some ⟨n, [.tail]⟩ := by
  have hb : (UInt8.ofNat (n + 192)).toNat = n + 192 := by
    rw [UInt8.toNat_ofNat']
    omega
  simp only [Lead.ofByte?, hb]
  rw [if_neg (by omega), if_neg (by omega), if_pos (by omega), Nat.add_sub_cancel]

theorem ofByte?_three {n : Nat} (h : n < 16) :
    Lead.ofByte? (UInt8.ofNat (n + 224)) = some ⟨n, [.secondOfThree n, .tail]⟩ := by
  have hb : (UInt8.ofNat (n + 224)).toNat = n + 224 := by
    rw [UInt8.toNat_ofNat']
    omega
  simp only [Lead.ofByte?, hb]
  rw [if_neg (by omega), if_neg (by omega), if_neg (by omega), if_pos (by omega), Nat.add_sub_cancel]

theorem ofByte?_four {n : Nat} (h : n < 5) :
    Lead.ofByte? (UInt8.ofNat (n + 240)) = some ⟨n, [.secondOfFour n, .tail, .tail]⟩ := by
  have hb : (UInt8.ofNat (n + 240)).toNat = n + 240 := by
    rw [UInt8.toNat_ofNat']
    omega
  simp only [Lead.ofByte?, hb]
  rw [if_neg (by omega), if_neg (by omega), if_neg (by omega), if_neg (by omega), if_pos (by omega),
    Nat.add_sub_cancel]

/-! ### Followers -/

/-- A follower that lies in its range adds its six bits. -/
theorem readFollowers_cons {code length d : Nat} {range : Range} {ranges : List Range} {rest : Bytes}
    (hd : d < 64) (hlo : range.lo ≤ d + 128) (hhi : d + 128 ≤ range.hi) :
    readFollowers code length (range :: ranges) (UInt8.ofNat (d + 128) :: rest)
      = readFollowers (code * 64 + d) (length + 1) ranges rest := by
  have hb : (UInt8.ofNat (d + 128)).toNat = d + 128 := by
    rw [UInt8.toNat_ofNat']
    omega
  rw [readFollowers, hb, if_pos ⟨hlo, hhi⟩]
  congr 2
  omega

theorem readFollowers_tail {code length d : Nat} {ranges : List Range} {rest : Bytes} (hd : d < 64) :
    readFollowers code length (.tail :: ranges) (UInt8.ofNat (d + 128) :: rest)
      = readFollowers (code * 64 + d) (length + 1) ranges rest :=
  readFollowers_cons hd (Nat.le_add_left _ _) (show d + 128 ≤ 0xbf by omega)

/-- The second byte of three is in range if the character is neither short of three bytes nor a
surrogate. -/
theorem readFollowers_secondOfThree {code length bits d : Nat} {ranges : List Range} {rest : Bytes}
    (hd : d < 64) (hshort : bits = 0 → 32 ≤ d) (hsurrogate : bits = 13 → d < 32) :
    readFollowers code length (.secondOfThree bits :: ranges) (UInt8.ofNat (d + 128) :: rest)
      = readFollowers (code * 64 + d) (length + 1) ranges rest := by
  unfold Range.secondOfThree
  split
  · rename_i h
    exact readFollowers_cons hd (show 0xa0 ≤ d + 128 by have := hshort h; omega)
      (show d + 128 ≤ 0xbf by omega)
  · split
    · rename_i h
      exact readFollowers_cons hd (Nat.le_add_left _ _)
        (show d + 128 ≤ 0x9f by have := hsurrogate h; omega)
    · exact readFollowers_tail hd

/-- The second byte of four is in range if the character is neither short of four bytes nor beyond
the last character. -/
theorem readFollowers_secondOfFour {code length bits d : Nat} {ranges : List Range} {rest : Bytes}
    (hd : d < 64) (hshort : bits = 0 → 16 ≤ d) (hlast : bits = 4 → d < 16) :
    readFollowers code length (.secondOfFour bits :: ranges) (UInt8.ofNat (d + 128) :: rest)
      = readFollowers (code * 64 + d) (length + 1) ranges rest := by
  unfold Range.secondOfFour
  split
  · rename_i h
    exact readFollowers_cons hd (show 0x90 ≤ d + 128 by have := hshort h; omega)
      (show d + 128 ≤ 0xbf by omega)
  · split
    · rename_i h
      exact readFollowers_cons hd (Nat.le_add_left _ _)
        (show d + 128 ≤ 0x8f by have := hlast h; omega)
    · exact readFollowers_tail hd

/-! ### Characters and texts -/

/-- A written character is read off the front of any bytes. -/
theorem readChar_append (c : Char) (rest : Bytes) :
    ∃ b tail, String.utf8EncodeChar c = b :: tail ∧ readChar b (tail ++ rest) = .ok (c, rest) := by
  have hc : Char.ofNat c.val.toNat = c := Char.ofNat_toNat c
  have hv := c.valid
  rw [UInt32.isValidChar, Nat.isValidChar] at hv
  rw [String.utf8EncodeChar.eq_1]
  -- by the number of bytes; what is left is that the digits in base 64 add up to the code
  generalize c.val.toNat = n at *
  by_cases h₁ : n ≤ 127
  · refine ⟨_, _, if_pos h₁, ?_⟩
    simp [readChar, ofByte?_one (Nat.lt_succ_of_le h₁), readFollowers, Except.map, hc]
  rw [if_neg h₁]
  by_cases h₂ : n ≤ 2047
  · refine ⟨_, _, if_pos h₂, ?_⟩
    have hbits : n / 64 % 32 = n / 64 := by omega
    have hcode : n / 64 * 64 + n % 64 = n := by omega
    rw [hbits]
    simp only [readChar, ofByte?_two (show 2 ≤ n / 64 by omega) (by omega), List.cons_append,
      List.nil_append]
    rw [readFollowers_tail (by omega), readFollowers, hcode]
    simp only [Except.map, hc]
  rw [if_neg h₂]
  by_cases h₃ : n ≤ 65535
  · refine ⟨_, _, if_pos h₃, ?_⟩
    have hbits : n / 4096 % 16 = n / 4096 := by omega
    have hcode : (n / 4096 * 64 + n / 64 % 64) * 64 + n % 64 = n := by omega
    rw [hbits]
    simp only [readChar, ofByte?_three (show n / 4096 < 16 by omega), List.cons_append,
      List.nil_append]
    -- a character is no surrogate, as the second of three bytes must know
    rw [readFollowers_secondOfThree (by omega) (by omega) (by omega), readFollowers_tail (by omega),
      readFollowers, hcode]
    simp only [Except.map, hc]
  · refine ⟨_, _, if_neg h₃, ?_⟩
    have hbits : n / 262144 % 8 = n / 262144 := by omega
    have hcode : ((n / 262144 * 64 + n / 4096 % 64) * 64 + n / 64 % 64) * 64 + n % 64 = n := by omega
    rw [hbits]
    simp only [readChar, ofByte?_four (show n / 262144 < 5 by omega), List.cons_append,
      List.nil_append]
    -- nor is it beyond the last one, as the second of four must
    rw [readFollowers_secondOfFour (by omega) (by omega) (by omega), readFollowers_tail (by omega),
      readFollowers_tail (by omega), readFollowers, hcode]
    simp only [Except.map, hc]

/-- Reading gives back the text that was written. -/
theorem decode_encode (chars : List Char) : decode (encode chars) = .ok chars := by
  induction chars with
  | nil => simp [encode, decode]
  | cons c chars ih =>
    obtain ⟨b, tail, hb, hr⟩ := readChar_append c (encode chars)
    have hcons : encode (c :: chars) = b :: (tail ++ encode chars) := by simp [encode, hb]
    rw [hcons, decode]
    split
    · rename_i h
      rw [hr] at h
      cases h
    · rename_i h
      rw [hr] at h
      cases h
      simp [ih]

end Utf8

end SecondaryIndex
