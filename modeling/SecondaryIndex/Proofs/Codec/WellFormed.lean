import Mathlib.Order.Bounds.Defs
import SecondaryIndex.Bytes.Utf8.Lemmas

/-!
# Well-formed text

A byte string is well-formed if it is the form of some characters (`Utf8.WellFormed`). Characters are
the scalar values, and each has one form, so this leaves no room for surrogates, for overlong forms
and for continuation bytes that stand alone or are missing.

Reading accepts exactly the well-formed byte strings (`decode_eq_ok_iff`), and where it fails, the
fault lies behind the longest beginning that is well-formed (`isGreatest_index`). A fault tells
whether bytes are missing or wrong: it is `incomplete` exactly if the bytes can be continued to a
well-formed string (`incomplete_iff`).
-/

namespace SecondaryIndex

namespace Utf8

/-- The bytes are the form of some characters. -/
def WellFormed (bytes : Bytes) : Prop := ∃ chars, encode chars = bytes

@[simp] theorem encode_nil : encode [] = [] := rfl

@[simp] theorem encode_cons (c : Char) (chars : List Char) :
    encode (c :: chars) = String.utf8EncodeChar c ++ encode chars := rfl

/-! ### The form of a character -/

/-- No code point is beyond the last plane. -/
theorem toNat_lt (c : Char) : c.toNat < 0x110000 := by
  have h : c.toNat < 0xd800 ∨ 0xdfff < c.toNat ∧ c.toNat < 0x110000 := c.valid
  omega

section Form

variable {c : Char}

/-- The four forms of the encoding of a character, by the size of its code point. -/
theorem form_one (h : c.toNat < 0x80) : String.utf8EncodeChar c = [UInt8.ofNat c.toNat] :=
  if_pos (Nat.le_of_lt_succ h)

theorem form_two (h : 0x80 ≤ c.toNat) (h' : c.toNat < 0x800) :
    String.utf8EncodeChar c = [UInt8.ofNat (c.toNat / 64 + 192), UInt8.ofNat (c.toNat % 64 + 128)] := by
  have hbits : c.toNat / 64 % 32 = c.toNat / 64 := by omega
  rw [← hbits]
  exact (if_neg (show ¬c.toNat ≤ 127 by omega)).trans (if_pos (show c.toNat ≤ 2047 by omega))

theorem form_three (h : 0x800 ≤ c.toNat) (h' : c.toNat < 0x10000) :
    String.utf8EncodeChar c = [UInt8.ofNat (c.toNat / 4096 + 224),
      UInt8.ofNat (c.toNat / 64 % 64 + 128), UInt8.ofNat (c.toNat % 64 + 128)] := by
  have hbits : c.toNat / 4096 % 16 = c.toNat / 4096 := by omega
  rw [← hbits]
  exact (if_neg (show ¬c.toNat ≤ 127 by omega)).trans
    ((if_neg (show ¬c.toNat ≤ 2047 by omega)).trans (if_pos (show c.toNat ≤ 65535 by omega)))

theorem form_four (h : 0x10000 ≤ c.toNat) :
    String.utf8EncodeChar c = [UInt8.ofNat (c.toNat / 262144 + 240),
      UInt8.ofNat (c.toNat / 4096 % 64 + 128), UInt8.ofNat (c.toNat / 64 % 64 + 128),
      UInt8.ofNat (c.toNat % 64 + 128)] := by
  have hlt := toNat_lt c
  have hbits : c.toNat / 262144 % 8 = c.toNat / 262144 := by omega
  rw [← hbits]
  exact (if_neg (show ¬c.toNat ≤ 127 by omega)).trans
    ((if_neg (show ¬c.toNat ≤ 2047 by omega)).trans (if_neg (show ¬c.toNat ≤ 65535 by omega)))

end Form

/-- The number of a character that was made from a scalar value. -/
theorem toNat_ofNat {n : Nat} (h : n.isValidChar) : (Char.ofNat n).toNat = n := by
  unfold Char.ofNat
  rw [dif_pos h]
  rfl

/-! ### Reading a character -/

/-- The four kinds of first bytes, by how many bytes follow them. -/
theorem ofByte?_eq_some {b : UInt8} {lead : Lead} (h : Lead.ofByte? b = some lead) :
    (b.toNat < 0x80 ∧ lead = ⟨b.toNat, []⟩) ∨
      (0xc2 ≤ b.toNat ∧ b.toNat < 0xe0 ∧ lead = ⟨b.toNat - 0xc0, [.tail]⟩) ∨
      (0xe0 ≤ b.toNat ∧ b.toNat < 0xf0 ∧
        lead = ⟨b.toNat - 0xe0, [.secondOfThree (b.toNat - 0xe0), .tail]⟩) ∨
      (0xf0 ≤ b.toNat ∧ b.toNat < 0xf5 ∧
        lead = ⟨b.toNat - 0xf0, [.secondOfFour (b.toNat - 0xf0), .tail, .tail]⟩) := by
  simp only [Lead.ofByte?] at h
  split at h
  · exact .inl ⟨‹_›, (Option.some.inj h).symm⟩
  split at h
  · cases h
  split at h
  · exact .inr (.inl ⟨by omega, ‹_›, (Option.some.inj h).symm⟩)
  split at h
  · exact .inr (.inr (.inl ⟨by omega, ‹_›, (Option.some.inj h).symm⟩))
  split at h
  · exact .inr (.inr (.inr ⟨by omega, ‹_›, (Option.some.inj h).symm⟩))
  · cases h

namespace Range

/-- A byte that may stand at a place. -/
def Admits (range : Range) (b : UInt8) : Prop := range.lo ≤ b.toNat ∧ b.toNat ≤ range.hi

/-- What each range of followers admits, in numbers. -/
theorem admits_tail {b : UInt8} : tail.Admits b ↔ 0x80 ≤ b.toNat ∧ b.toNat ≤ 0xbf := Iff.rfl

theorem admits_secondOfThree {bits : Nat} {b : UInt8} :
    (secondOfThree bits).Admits b ↔ (0x80 ≤ b.toNat ∧ b.toNat ≤ 0xbf) ∧
      (bits = 0 → 0xa0 ≤ b.toNat) ∧ (bits = 13 → b.toNat ≤ 0x9f) := by
  unfold secondOfThree
  split
  · simp only [Admits]
    omega
  · split <;> simp only [Admits, tail] <;> omega

theorem admits_secondOfFour {bits : Nat} {b : UInt8} :
    (secondOfFour bits).Admits b ↔ (0x80 ≤ b.toNat ∧ b.toNat ≤ 0xbf) ∧
      (bits = 0 → 0x90 ≤ b.toNat) ∧ (bits = 4 → b.toNat ≤ 0x8f) := by
  unfold secondOfFour
  split
  · simp only [Admits]
    omega
  · split <;> simp only [Admits, tail] <;> omega

end Range

/-- Followers that were read begin with one that its place admits. -/
theorem exists_of_readFollowers {code length : Nat} {range : Range} {ranges : List Range}
    {bytes : Bytes} {r : Nat × Bytes}
    (h : readFollowers code length (range :: ranges) bytes = .ok r) :
    ∃ b rest, bytes = b :: rest ∧ range.Admits b ∧
      readFollowers (code * 64 + b.toNat % 64) (length + 1) ranges rest = .ok r := by
  cases bytes with
  | nil => cases h
  | cons b rest =>
    rw [readFollowers] at h
    split at h
    · exact ⟨b, rest, rfl, ‹_›, h⟩
    · cases h

/-- A byte is known by its number. -/
theorem ofNat_eq_of_toNat {b : UInt8} {n : Nat} (h : b.toNat = n) : UInt8.ofNat n = b := by
  rw [← h, UInt8.ofNat_toNat]

/-- A character is read from a leading byte and its followers. -/
theorem exists_of_readChar {b : UInt8} {rest : Bytes} {c : Char} {rest' : Bytes}
    (h : readChar b rest = .ok (c, rest')) :
    ∃ lead code, Lead.ofByte? b = some lead ∧ Char.ofNat code = c ∧
      readFollowers lead.bits 1 lead.followers rest = .ok (code, rest') := by
  unfold readChar at h
  split at h
  · cases h
  · rename_i lead hlead
    cases hf : readFollowers lead.bits 1 lead.followers rest with
    | error fault =>
      rw [hf] at h
      cases h
    | ok r =>
      rw [hf] at h
      cases h
      exact ⟨lead, r.1, hlead, rfl, hf⟩

/-- What is read as a character is its form. -/
theorem form_of_readChar {b : UInt8} {rest : Bytes} {c : Char} {rest' : Bytes}
    (h : readChar b rest = .ok (c, rest')) : b :: rest = String.utf8EncodeChar c ++ rest' := by
  obtain ⟨lead, code, hlead, rfl, hf⟩ := exists_of_readChar h
  -- by the number of followers; the ranges of the second byte keep the code a scalar value
  rcases ofByte?_eq_some hlead with ⟨hb, rfl⟩ | ⟨hb, hb', rfl⟩ | ⟨hb, hb', rfl⟩ | ⟨hb, hb', rfl⟩
  · obtain ⟨rfl, rfl⟩ : b.toNat = code ∧ rest = rest' := by simpa [readFollowers] using hf
    have hc := toNat_ofNat (n := b.toNat) (.inl (by omega))
    rw [form_one (by omega), hc, UInt8.ofNat_toNat]
    rfl
  · obtain ⟨b₂, rest₂, rfl, h₂, hf⟩ := exists_of_readFollowers hf
    obtain ⟨hcode, rfl⟩ : _ = code ∧ rest₂ = rest' := by simpa [readFollowers] using hf
    rw [Range.admits_tail] at h₂
    have hc : (Char.ofNat code).toNat = code := toNat_ofNat (.inl (by omega))
    rw [form_two (by omega) (by omega), hc, ofNat_eq_of_toNat (b := b) (by omega),
      ofNat_eq_of_toNat (b := b₂) (by omega)]
    rfl
  · obtain ⟨b₂, rest₂, rfl, h₂, hf⟩ := exists_of_readFollowers hf
    obtain ⟨b₃, rest₃, rfl, h₃, hf⟩ := exists_of_readFollowers hf
    obtain ⟨hcode, rfl⟩ : _ = code ∧ rest₃ = rest' := by simpa [readFollowers] using hf
    rw [Range.admits_secondOfThree] at h₂
    rw [Range.admits_tail] at h₃
    obtain ⟨h₂, hshort, hsurrogate⟩ := h₂
    have hvalid : code.isValidChar := by
      rw [Nat.isValidChar]
      omega
    have hc : (Char.ofNat code).toNat = code := toNat_ofNat hvalid
    rw [form_three (by omega) (by omega), hc, ofNat_eq_of_toNat (b := b) (by omega),
      ofNat_eq_of_toNat (b := b₂) (by omega), ofNat_eq_of_toNat (b := b₃) (by omega)]
    rfl
  · obtain ⟨b₂, rest₂, rfl, h₂, hf⟩ := exists_of_readFollowers hf
    obtain ⟨b₃, rest₃, rfl, h₃, hf⟩ := exists_of_readFollowers hf
    obtain ⟨b₄, rest₄, rfl, h₄, hf⟩ := exists_of_readFollowers hf
    obtain ⟨hcode, rfl⟩ : _ = code ∧ rest₄ = rest' := by simpa [readFollowers] using hf
    rw [Range.admits_secondOfFour] at h₂
    rw [Range.admits_tail] at h₃ h₄
    obtain ⟨h₂, hshort, hlast⟩ := h₂
    have hc : (Char.ofNat code).toNat = code := toNat_ofNat (.inr ⟨by omega, by omega⟩)
    rw [form_four (by omega), hc, ofNat_eq_of_toNat (b := b) (by omega),
      ofNat_eq_of_toNat (b := b₂) (by omega), ofNat_eq_of_toNat (b := b₃) (by omega),
      ofNat_eq_of_toNat (b := b₄) (by omega)]
    rfl

/-! ### Reading a text -/

/-- A form in front of the bytes is read as its character. -/
theorem decode_form_append (c : Char) (rest : Bytes) :
    decode (String.utf8EncodeChar c ++ rest) =
      match decode rest with
      | .ok chars => .ok (c :: chars)
      | .error fault => .error (fault.shift (String.utf8EncodeChar c).length) := by
  obtain ⟨b, tail, hb, hr⟩ := readChar_append c rest
  rw [hb, List.cons_append, decode]
  split
  · rename_i h
    rw [hr] at h
    cases h
  · rename_i h
    rw [hr] at h
    cases h
    have hlen : (tail ++ rest).length + 1 - rest.length = (b :: tail).length := by
      simp only [List.length_append, List.length_cons]
      omega
    cases decode rest with
    | ok chars => rfl
    | error fault => exact congrArg (fun n => Except.error (fault.shift n)) hlen

theorem Fault.shift_shift (m n : Nat) (fault : Fault) :
    (fault.shift n).shift m = fault.shift (m + n) := by
  cases fault <;> simp [Fault.shift, Nat.add_assoc]

@[simp] theorem Fault.shift_zero (fault : Fault) : fault.shift 0 = fault := by
  cases fault <;> simp [Fault.shift]

/-- Well-formed bytes in front are read as their characters, and move a fault behind them. -/
theorem decode_append (chars : List Char) (rest : Bytes) :
    decode (encode chars ++ rest) =
      match decode rest with
      | .ok more => .ok (chars ++ more)
      | .error fault => .error (fault.shift (encode chars).length) := by
  induction chars with
  | nil => cases h : decode rest <;> simp [h]
  | cons c chars ih =>
    rw [encode_cons, List.append_assoc, decode_form_append, ih]
    cases decode rest with
    | ok more => rfl
    | error fault => simp [Fault.shift_shift]

/-- What was decoded is encoded to the same bytes. -/
theorem encode_of_decode {bytes : Bytes} {chars : List Char} (h : decode bytes = .ok chars) :
    encode chars = bytes := by
  fun_induction decode bytes generalizing chars with
  | case1 =>
    cases h
    rfl
  | case2 b rest fault hr => cases h
  | case3 b rest c rest' hr _ more hd ih =>
    cases h
    rw [encode_cons, ih hd, ← form_of_readChar hr]
  | case4 b rest c rest' hr _ fault hd ih => cases h

/-- Reading succeeds on well-formed bytes, with the characters they are the form of. -/
theorem decode_eq_ok_iff {bytes : Bytes} {chars : List Char} :
    decode bytes = .ok chars ↔ encode chars = bytes :=
  ⟨encode_of_decode, fun h => h ▸ decode_encode chars⟩

/-- The bytes that can be decoded are the well-formed ones. -/
theorem wellFormed_iff {bytes : Bytes} : WellFormed bytes ↔ ∃ chars, decode bytes = .ok chars := by
  simp only [WellFormed, decode_eq_ok_iff]

/-! ### Where reading fails -/

/-- How many bytes stand in front of a fault. -/
def Fault.index : Fault → Nat
  | .invalid _ index => index
  | .incomplete index => index

@[simp] theorem Fault.index_shift (n : Nat) (fault : Fault) :
    (fault.shift n).index = n + fault.index := by
  cases fault <;> rfl

/-- A fault in the followers is told of the character that they belong to. -/
theorem index_of_readFollowers {code length : Nat} {ranges : List Range} {bytes : Bytes}
    {fault : Fault} (h : readFollowers code length ranges bytes = .error fault) :
    fault.index = 0 := by
  fun_induction readFollowers code length ranges bytes with
  | case1 => cases h
  | case2 =>
    cases h
    rfl
  | case3 code length range ranges b rest _ ih => exact ih h
  | case4 =>
    cases h
    rfl

/-- So a character at the beginning is faulty from the beginning. -/
theorem index_of_readChar {b : UInt8} {rest : Bytes} {fault : Fault}
    (h : readChar b rest = .error fault) : fault.index = 0 := by
  unfold readChar at h
  split at h
  · cases h
    rfl
  · rename_i lead _
    cases hf : readFollowers lead.bits 1 lead.followers rest with
    | ok r =>
      rw [hf] at h
      cases h
    | error fault' =>
      rw [hf] at h
      cases h
      exact index_of_readFollowers hf

/-- Bytes with a faulty beginning are not decoded any further. -/
theorem decode_cons_of_error {b : UInt8} {rest : Bytes} {fault : Fault}
    (h : readChar b rest = .error fault) : decode (b :: rest) = .error fault := by
  rw [decode]
  split
  · rename_i h'
    rw [h] at h'
    cases h'
    rfl
  · rename_i h'
    rw [h] at h'
    cases h'

/-- Reading fails behind well-formed bytes, where no character can be read. -/
theorem exists_of_decode_error {bytes : Bytes} {fault : Fault} (h : decode bytes = .error fault) :
    ∃ chars b rest fault', encode chars ++ b :: rest = bytes ∧ readChar b rest = .error fault' ∧
      fault'.shift (encode chars).length = fault := by
  fun_induction decode bytes generalizing fault with
  | case1 => cases h
  | case2 b rest fault' hr =>
    cases h
    exact ⟨[], b, rest, fault', rfl, hr, Fault.shift_zero fault'⟩
  | case3 b rest c rest' hr _ chars hd ih => cases h
  | case4 b rest c rest' hr _ fault' hd ih =>
    cases h
    obtain ⟨chars, b', tail, fault₀, rfl, hr', rfl⟩ := ih hd
    have hform := form_of_readChar hr
    refine ⟨c :: chars, b', tail, fault₀, ?_, hr', ?_⟩
    · rw [encode_cons, List.append_assoc, hform]
    · have hlen := congrArg List.length hform
      simp only [List.length_cons, List.length_append] at hlen
      rw [Fault.shift_shift, encode_cons, List.length_append]
      congr 1
      simp only [List.length_append, List.length_cons]
      omega

/-- No well-formed beginning reaches beyond a fault. -/
theorem length_le_index {bytes rest : Bytes} {chars : List Char} {fault : Fault}
    (h : decode bytes = .error fault) (hbytes : encode chars ++ rest = bytes) :
    (encode chars).length ≤ fault.index := by
  rw [← hbytes, decode_append] at h
  cases hd : decode rest with
  | ok more =>
    rw [hd] at h
    cases h
  | error fault' =>
    rw [hd] at h
    cases h
    rw [Fault.index_shift]
    exact Nat.le_add_right _ _

/-- A fault is reported behind the longest beginning that is well-formed. -/
theorem isGreatest_index {bytes : Bytes} {fault : Fault} (h : decode bytes = .error fault) :
    IsGreatest {n | n ≤ bytes.length ∧ WellFormed (bytes.take n)} fault.index := by
  constructor
  · obtain ⟨chars, b, rest, fault', rfl, hr, rfl⟩ := exists_of_decode_error h
    rw [Fault.index_shift, index_of_readChar hr, Nat.add_zero]
    exact ⟨by simp, chars, by simp⟩
  · rintro n ⟨hn, chars, hchars⟩
    have hle := length_le_index h (hchars ▸ List.take_append_drop n bytes)
    rwa [hchars, List.length_take, Nat.min_eq_left hn] at hle

/-! ### Missing bytes and wrong ones -/

/-- Followers are read alike if more bytes come after them, unless there were too few of them. -/
theorem readFollowers_append {code length : Nat} {ranges : List Range} {bytes : Bytes} (more : Bytes)
    (h : readFollowers code length ranges bytes ≠ .error (.incomplete 0)) :
    readFollowers code length ranges (bytes ++ more) =
      (readFollowers code length ranges bytes).map fun r => (r.1, r.2 ++ more) := by
  fun_induction readFollowers code length ranges bytes with
  | case1 code length rest => rfl
  | case2 => exact absurd rfl h
  | case3 code length range ranges b rest hb ih =>
    rw [List.cons_append, readFollowers, if_pos hb]
    exact ih h
  | case4 code length range ranges b rest hb =>
    rw [List.cons_append, readFollowers, if_neg hb]
    rfl

/-- Bytes that follow do not change how a character is read, unless it waits for them. -/
theorem readChar_append_of_ne {b : UInt8} {rest : Bytes} (more : Bytes)
    (h : readChar b rest ≠ .error (.incomplete 0)) :
    readChar b (rest ++ more) = (readChar b rest).map fun r => (r.1, r.2 ++ more) := by
  unfold readChar at h ⊢
  split
  · rfl
  · rename_i lead hlead
    have hf : readFollowers lead.bits 1 lead.followers rest ≠ .error (.incomplete 0) := by
      intro hf
      rw [hlead] at h
      simp only [hf] at h
      exact h rfl
    rw [readFollowers_append more hf]
    cases readFollowers lead.bits 1 lead.followers rest <;> rfl

/-- A wrong byte stays wrong whatever follows. -/
theorem decode_append_of_invalid {bytes : Bytes} {length index : Nat} (more : Bytes)
    (h : decode bytes = .error (.invalid length index)) :
    decode (bytes ++ more) = .error (.invalid length index) := by
  obtain ⟨chars, b, rest, fault, rfl, hr, hfault⟩ := exists_of_decode_error h
  have hne : readChar b rest ≠ .error (.incomplete 0) := by
    rintro hr'
    rw [hr] at hr'
    cases hr'
    cases hfault
  have hmore : readChar b (rest ++ more) = .error fault := by
    rw [readChar_append_of_ne more hne, hr]
    rfl
  rw [List.append_assoc, decode_append, List.cons_append, decode_cons_of_error hmore]
  exact congrArg Except.error hfault

/-- There is a follower for every range. -/
theorem exists_admits_tail : ∃ b, Range.tail.Admits b := ⟨0x80, by decide, by decide⟩

theorem exists_admits_secondOfThree (bits : Nat) : ∃ b, (Range.secondOfThree bits).Admits b := by
  by_cases h : bits = 0
  · exact ⟨0xa0, Range.admits_secondOfThree.2 ⟨by decide, fun _ => by decide, by omega⟩⟩
  · exact ⟨0x80, Range.admits_secondOfThree.2 ⟨by decide, fun h' => absurd h' h, fun _ => by decide⟩⟩

theorem exists_admits_secondOfFour (bits : Nat) : ∃ b, (Range.secondOfFour bits).Admits b := by
  by_cases h : bits = 0
  · exact ⟨0x90, Range.admits_secondOfFour.2 ⟨by decide, fun _ => by decide, by omega⟩⟩
  · exact ⟨0x80, Range.admits_secondOfFour.2 ⟨by decide, fun h' => absurd h' h, fun _ => by decide⟩⟩

/-- Every place behind a first byte can be filled. -/
theorem exists_admits {b : UInt8} {lead : Lead} (h : Lead.ofByte? b = some lead) :
    ∀ range ∈ lead.followers, ∃ b', range.Admits b' := by
  have htail := exists_admits_tail
  rcases ofByte?_eq_some h with ⟨_, rfl⟩ | ⟨_, _, rfl⟩ | ⟨_, _, rfl⟩ | ⟨_, _, rfl⟩
  · simp
  · simpa using htail
  · simpa using ⟨exists_admits_secondOfThree _, htail⟩
  · simpa using ⟨exists_admits_secondOfFour _, htail⟩

/-- So a character that was left incomplete can be completed. -/
theorem exists_readFollowers {ranges : List Range} (code length : Nat)
    (h : ∀ range ∈ ranges, ∃ b, range.Admits b) :
    ∃ bytes code', readFollowers code length ranges bytes = .ok (code', []) := by
  induction ranges generalizing code length with
  | nil => exact ⟨[], code, rfl⟩
  | cons range ranges ih =>
    obtain ⟨b, hb⟩ := h range (.head _)
    obtain ⟨bytes, code', hbytes⟩ :=
      ih (code * 64 + b.toNat % 64) (length + 1) fun range hmem => h range (.tail _ hmem)
    exact ⟨b :: bytes, code', (if_pos hb).trans hbytes⟩

/-- Followers of which some are missing can be completed. -/
theorem exists_completion {code length : Nat} {ranges : List Range} {bytes : Bytes}
    (hranges : ∀ range ∈ ranges, ∃ b, range.Admits b)
    (h : readFollowers code length ranges bytes = .error (.incomplete 0)) :
    ∃ more code', readFollowers code length ranges (bytes ++ more) = .ok (code', []) := by
  fun_induction readFollowers code length ranges bytes with
  | case1 => cases h
  | case2 code length range ranges => exact exists_readFollowers code length hranges
  | case3 code length range ranges b rest hb ih =>
    obtain ⟨more, code', hmore⟩ := ih (fun range hmem => hranges range (.tail _ hmem)) h
    exact ⟨more, code', (if_pos hb).trans hmore⟩
  | case4 => cases h

/-- A character of which bytes are missing can be completed. -/
theorem exists_completion_of_readChar {b : UInt8} {rest : Bytes}
    (h : readChar b rest = .error (.incomplete 0)) :
    ∃ more c, b :: rest ++ more = String.utf8EncodeChar c := by
  unfold readChar at h
  split at h
  · cases h
  · rename_i lead hlead
    cases hf : readFollowers lead.bits 1 lead.followers rest with
    | ok r =>
      rw [hf] at h
      cases h
    | error fault =>
      rw [hf] at h
      cases h
      obtain ⟨more, code, hmore⟩ := exists_completion (exists_admits hlead) hf
      have hr : readChar b (rest ++ more) = .ok (Char.ofNat code, []) := by
        simp only [readChar, hlead, hmore, Except.map]
      have hform := form_of_readChar hr
      exact ⟨more, Char.ofNat code, by rwa [List.append_nil] at hform⟩

/-- Bytes are missing, and none is wrong, exactly if what was read can be continued. -/
theorem incomplete_iff {bytes : Bytes} {fault : Fault} (h : decode bytes = .error fault) :
    (∃ index, fault = .incomplete index) ↔ ∃ more, WellFormed (bytes ++ more) := by
  constructor
  · rintro ⟨index, rfl⟩
    obtain ⟨chars, b, rest, fault, rfl, hr, hfault⟩ := exists_of_decode_error h
    cases fault with
    | invalid length index' => cases hfault
    | incomplete index' =>
      obtain rfl : index' = 0 := index_of_readChar hr
      obtain ⟨more, c, hc⟩ := exists_completion_of_readChar hr
      refine ⟨more, chars ++ [c], ?_⟩
      rw [List.append_assoc, hc]
      simp [encode]
  · rintro ⟨more, chars, hchars⟩
    cases fault with
    | incomplete index => exact ⟨index, rfl⟩
    | invalid length index =>
      have hinvalid := decode_append_of_invalid more h
      rw [← hchars, decode_encode] at hinvalid
      cases hinvalid

end Utf8

end SecondaryIndex
