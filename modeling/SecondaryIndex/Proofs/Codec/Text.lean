import SecondaryIndex.Codec.Lemmas
import SecondaryIndex.Proofs.Codec.WellFormed

/-!
# The text codec

The codec of texts reads a window exactly if it lies in the buffer and is the form of some
characters; what it reads is written as the window again, and what it refuses it refuses behind the
longest beginning that is text. Stored texts sort by the numbers of their characters
(`Utf8.encode_lt_encode_iff`): the first bytes of two forms tell the shorter from the longer, and
forms of one length compare digit by digit.
-/

namespace SecondaryIndex

namespace Utf8

/-! ### Order -/

theorem toNat_first {n : Nat} (h : n < 256) : (UInt8.ofNat n).toNat = n :=
  UInt8.toNat_ofNat_of_lt h

theorem toNat_follower (n : Nat) : (UInt8.ofNat (n % 64 + 128)).toNat = n % 64 + 128 :=
  toNat_first (by omega)

/-- The first byte of a form tells how many there are. -/
theorem exists_first (c : Char) :
    ∃ b tail, String.utf8EncodeChar c = b :: tail ∧ (b.toNat < 0x80 ↔ c.toNat < 0x80) ∧
      (b.toNat < 0xe0 ↔ c.toNat < 0x800) ∧ (b.toNat < 0xf0 ↔ c.toNat < 0x10000) := by
  by_cases h₁ : c.toNat < 0x80
  · refine ⟨_, _, form_one h₁, ?_⟩
    rw [UInt8.toNat_ofNat']
    omega
  by_cases h₂ : c.toNat < 0x800
  · refine ⟨_, _, form_two (by omega) h₂, ?_⟩
    rw [UInt8.toNat_ofNat']
    omega
  by_cases h₃ : c.toNat < 0x10000
  · refine ⟨_, _, form_three (by omega) h₃, ?_⟩
    rw [UInt8.toNat_ofNat']
    omega
  · have hlt := toNat_lt c
    refine ⟨_, _, form_four (by omega), ?_⟩
    rw [UInt8.toNat_ofNat']
    omega

/-- The form of a smaller character is the smaller one, whatever follows the two. -/
theorem form_append_lt {c d : Char} (h : c < d) (x y : Bytes) :
    String.utf8EncodeChar c ++ x < String.utf8EncodeChar d ++ y := by
  have hlt : c.toNat < d.toNat := h
  have hd := toNat_lt d
  obtain ⟨b, tail, hb, hb₁, hb₂, hb₃⟩ := exists_first c
  obtain ⟨b', tail', hb', hb₁', hb₂', hb₃'⟩ := exists_first d
  by_cases hfirst : b.toNat < b'.toNat
  · rw [hb, hb']
    exact List.cons_lt_cons_iff.2 (.inl hfirst)
  -- if the first bytes do not decide, the forms are as long as each other
  by_cases h₁ : d.toNat < 0x80
  · rw [form_one (c := c) (by omega), form_one h₁]
    simp only [List.cons_append, List.cons_lt_cons_iff, UInt8.lt_iff_toNat_lt,
      toNat_first (show d.toNat < 256 by omega), toNat_first (show c.toNat < 256 by omega)]
    omega
  by_cases h₂ : d.toNat < 0x800
  · rw [form_two (c := c) (by omega) (by omega), form_two (by omega) h₂]
    simp only [List.cons_append, List.cons_lt_cons_iff, UInt8.lt_iff_toNat_lt, ← UInt8.toNat_inj,
      toNat_first (show d.toNat / 64 + 192 < 256 by omega),
      toNat_first (show c.toNat / 64 + 192 < 256 by omega), toNat_follower]
    omega
  by_cases h₃ : d.toNat < 0x10000
  · rw [form_three (c := c) (by omega) (by omega), form_three (by omega) h₃]
    simp only [List.cons_append, List.cons_lt_cons_iff, UInt8.lt_iff_toNat_lt, ← UInt8.toNat_inj,
      toNat_first (show d.toNat / 4096 + 224 < 256 by omega),
      toNat_first (show c.toNat / 4096 + 224 < 256 by omega), toNat_follower]
    omega
  · rw [form_four (c := c) (by omega), form_four (c := d) (by omega)]
    simp only [List.cons_append, List.cons_lt_cons_iff, UInt8.lt_iff_toNat_lt, ← UInt8.toNat_inj,
      toNat_first (show d.toNat / 262144 + 240 < 256 by omega),
      toNat_first (show c.toNat / 262144 + 240 < 256 by omega), toNat_follower]
    omega

/-- Text is encoded in the order of its code points. -/
theorem encode_lt_encode {s t : List Char} (h : s < t) : encode s < encode t := by
  induction s generalizing t with
  | nil =>
    cases t with
    | nil => exact absurd h Std.lt_irrefl
    | cons d t =>
      obtain ⟨b, tail, hb, -⟩ := exists_first d
      rw [encode_cons, hb]
      exact List.nil_lt_cons b _
  | cons c s ih =>
    cases t with
    | nil => exact absurd h (List.not_lt_nil _)
    | cons d t =>
      rw [encode_cons, encode_cons]
      rcases List.cons_lt_cons_iff.1 h with hlt | ⟨rfl, hlt⟩
      · exact form_append_lt hlt _ _
      · exact List.append_left_lt (ih hlt)

/-- Stored texts compare as the texts. -/
theorem encode_lt_encode_iff {s t : List Char} : encode s < encode t ↔ s < t := by
  refine ⟨fun h => ?_, encode_lt_encode⟩
  rcases Std.lt_trichotomy s t with hlt | rfl | hgt
  · exact hlt
  · exact absurd h Std.lt_irrefl
  · exact absurd (Std.lt_trans h (encode_lt_encode hgt)) Std.lt_irrefl

end Utf8

namespace Codec

/-- A text is decoded from the bytes of its window, and a fault in them is told. -/
theorem text_decode_of_window {buffer window : Bytes} {offset length : Nat}
    (h : buffer.window offset length = .ok window) :
    text.decode buffer offset length =
      match Utf8.decode window with
      | .ok chars => .ok (String.ofList chars)
      | .error fault => .error (.malformedText fault) := by
  simp only [text, ofWhole, h]
  rfl

/-- A window decodes to a text only if it holds the encoding of that text. -/
theorem text_decode_eq_ok_iff {buffer : Bytes} {offset length : Nat} {s : String} :
    text.decode buffer offset length = .ok s ↔
      buffer.window offset length = .ok (text.encode s) := by
  unfold text
  rw [decode_ofWhole_eq_ok_iff]
  constructor
  · rintro ⟨window, hwindow, hread⟩
    split at hread
    · rename_i chars hd
      cases hread
      rw [hwindow, ← Utf8.encode_of_decode hd]
      simp [ofWhole]
    · cases hread
  · intro h
    exact ⟨_, h, by simp [ofWhole, Utf8.decode_encode]⟩

/-- Texts are stored exactly: a window is read if and only if it lies in the buffer and is the form
of some characters, and what is read from it is written as the window. A window that is not is
refused, and the fault is reported behind its longest beginning that is. Every text is read back,
wherever it stands, and stored texts compare by the numbers of their characters. -/
theorem text_exact :
    (∀ (buffer : Bytes) (offset length : Nat),
      ((∃ s, text.decode buffer offset length = .ok s) ↔
        offset + length ≤ buffer.length ∧
          Utf8.WellFormed ((buffer.drop offset).take length)) ∧
      (∀ s, text.decode buffer offset length = .ok s →
        text.encode s = (buffer.drop offset).take length) ∧
      (offset + length ≤ buffer.length → ¬Utf8.WellFormed ((buffer.drop offset).take length) →
        ∃ fault, text.decode buffer offset length = .error (.malformedText fault) ∧
          IsGreatest {n | n ≤ length ∧
            Utf8.WellFormed (((buffer.drop offset).take length).take n)} fault.index)) ∧
    (∀ (before after : Bytes) (s : String),
      text.decode (before ++ text.encode s ++ after) before.length (text.encode s).length = .ok s) ∧
    (∀ s t : String, text.encode s < text.encode t ↔ s < t) := by
  refine ⟨fun buffer offset length => ⟨⟨?_, ?_⟩, ?_, ?_⟩, ?_, ?_⟩
  · rintro ⟨s, hs⟩
    obtain ⟨hle, hw⟩ := Bytes.window_eq_ok_iff.1 (text_decode_eq_ok_iff.1 hs)
    exact ⟨hle, s.toList, hw.symm⟩
  · rintro ⟨hle, chars, hchars⟩
    refine ⟨String.ofList chars, text_decode_eq_ok_iff.2 (Bytes.window_eq_ok_iff.2 ⟨hle, ?_⟩)⟩
    simp [← hchars, text, ofWhole]
  · intro s hs
    exact (Bytes.window_eq_ok_iff.1 (text_decode_eq_ok_iff.1 hs)).2.symm
  · intro hle hmalformed
    -- a window that is not well formed is decoded with a fault, at the end of its longest good part
    cases hd : Utf8.decode ((buffer.drop offset).take length) with
    | ok chars => exact absurd (Utf8.wellFormed_iff.2 ⟨chars, hd⟩) hmalformed
    | error fault =>
      have hgreatest := Utf8.isGreatest_index hd
      rw [Bytes.length_window hle] at hgreatest
      refine ⟨fault, ?_, hgreatest⟩
      rw [text_decode_of_window (Bytes.window_eq_ok_iff.2 ⟨hle, rfl⟩), hd]
  · intro before after s
    exact text_inverts _ _ s (Bytes.window_append before (text.encode s) after)
  · intro s t
    exact Utf8.encode_lt_encode_iff

/-- The character with number zero is text; a surrogate is not, and its fault follows what is. -/
example : text.decode [0x61, 0x00] 0 2 = .ok "a\x00" ∧
    text.decode [0x61, 0xed, 0xa0, 0x80] 0 4 = .error (.malformedText (.invalid 1 1)) := by
  constructor <;> cbv

end Codec

end SecondaryIndex
