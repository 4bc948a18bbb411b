import Mathlib.Algebra.Group.Nat.Defs
import Mathlib.Algebra.Ring.Int.Defs
import SecondaryIndex.Codec.Lemmas

/-!
# Word codecs

The codecs of words are order isomorphisms onto the eight-byte strings (`Codec.StoresWords`): words
compare as their bytes do, every string of eight bytes is stored for some word, and a window is read
exactly if it lies in the buffer and has eight bytes.

For unsigned words this is what big-endian numerals are made for. Signed words are stored as the
unsigned ones that differ from them in the sign bit, and to flip that bit is to add half of the
capacity: it puts the negative words into the lower half, in their order, and the others above them
(`BigEndian.toNat_flip`).
-/

namespace SecondaryIndex

namespace BigEndian

/-! ### Numerals of eight bytes -/

/-- Big-endian bytes are in the order of the words. -/
theorem ofUInt64_lt_iff (a b : UInt64) : ofUInt64 a < ofUInt64 b ↔ a < b := by
  rw [UInt64.lt_iff_toNat_lt]
  exact ofNat_lt_ofNat_iff a.toNat_lt b.toNat_lt

/-- Bytes are read as a word only if they are its bytes. -/
theorem toUInt64?_eq_some_iff {bytes : Bytes} {w : UInt64} :
    toUInt64? bytes = some w ↔ ofUInt64 w = bytes := by
  constructor
  · intro h
    unfold toUInt64? at h
    split at h
    · rename_i hlen
      cases h
      have hlt : toNat bytes < capacity 8 := hlen ▸ toNat_lt bytes
      have hnat : (UInt64.ofNat (toNat bytes)).toNat = toNat bytes :=
        UInt64.toNat_ofNat'.trans (Nat.mod_eq_of_lt hlt)
      rw [ofUInt64, hnat, ← hlen]
      exact ofNat_toNat bytes
    · cases h
  · rintro rfl
    exact toUInt64?_ofUInt64 w

/-- Eight bytes are a word, and no others are. -/
theorem exists_toUInt64?_iff {bytes : Bytes} :
    (∃ w, toUInt64? bytes = some w) ↔ bytes.length = 8 := by
  simp [toUInt64?]

/-! ### The sign bit -/

/-- To flip the highest of some bits is to add half of what they can count to, or to take it away. -/
theorem xor_two_pow {n k : Nat} (h : n < 2 * 2 ^ k) :
    n ^^^ 2 ^ k = if n < 2 ^ k then n + 2 ^ k else n - 2 ^ k := by
  have hpos : 0 < 2 ^ k := Nat.two_pow_pos k
  have hlow : (n ^^^ 2 ^ k) % 2 ^ k = n % 2 ^ k := by
    rw [Nat.xor_mod_two_pow, Nat.mod_self, Nat.xor_zero]
  have hhigh : (n ^^^ 2 ^ k) / 2 ^ k = n / 2 ^ k ^^^ 1 := by
    rw [Nat.xor_div_two_pow, Nat.div_self hpos]
  rw [← Nat.div_add_mod (n ^^^ 2 ^ k) (2 ^ k), hlow, hhigh]
  split
  · rename_i hlt
    rw [Nat.div_eq_of_lt hlt, Nat.mod_eq_of_lt hlt, Nat.zero_xor, Nat.mul_one, Nat.add_comm]
  · rename_i hge
    have hone : n / 2 ^ k = 1 := Nat.div_eq_of_lt_le (by omega) (by omega)
    have hmod : n % 2 ^ k = n - 2 ^ k := by
      rw [Nat.mod_eq_sub_mod (by omega), Nat.mod_eq_of_lt (by omega)]
    rw [hone, hmod, Nat.xor_self, Nat.mul_zero, Nat.zero_add]

/-- To flip the sign bit of a word is to add half of the capacity to its signed number. -/
theorem toNat_flip (v : Int64) : ((v.toUInt64 ^^^ signBit).toNat : Int) = v.toInt + 2 ^ 63 := by
  have hlt : v.toUInt64.toNat < 2 * 2 ^ 63 := v.toUInt64.toNat_lt
  have hxor : (v.toUInt64 ^^^ signBit).toNat = v.toUInt64.toNat ^^^ 2 ^ 63 := UInt64.toNat_xor _ _
  have hint : v.toInt = if 2 * v.toUInt64.toNat < 2 ^ 64 then (v.toUInt64.toNat : Int)
      else (v.toUInt64.toNat : Int) - (2 ^ 64 : Nat) := BitVec.toInt_eq_toNat_cond _
  rw [hint, hxor, xor_two_pow hlt]
  split <;> split <;> omega

/-- With the sign bit flipped, the bytes are in the order of the signed words. -/
theorem ofInt64_lt_iff (a b : Int64) : ofInt64 a < ofInt64 b ↔ a < b := by
  rw [ofInt64, ofInt64, ofUInt64_lt_iff, UInt64.lt_iff_toNat_lt, Int64.lt_iff_toInt_lt]
  have ha := toNat_flip a
  have hb := toNat_flip b
  omega

/-- Bytes are read as a signed word only if they are its bytes. -/
theorem toInt64?_eq_some_iff {bytes : Bytes} {v : Int64} :
    toInt64? bytes = some v ↔ ofInt64 v = bytes := by
  constructor
  · intro h
    obtain ⟨w, hw, rfl⟩ := Option.map_eq_some_iff.1 h
    rw [ofInt64, UInt64.toUInt64_toInt64, UInt64.xor_assoc, UInt64.xor_self, UInt64.xor_zero]
    exact toUInt64?_eq_some_iff.1 hw
  · rintro rfl
    exact toInt64?_ofInt64 v

/-- Eight bytes are a signed word, and no others are. -/
theorem exists_toInt64?_iff {bytes : Bytes} :
    (∃ v, toInt64? bytes = some v) ↔ bytes.length = 8 := by
  simp [toInt64?, toUInt64?]

end BigEndian

namespace Codec

variable {α : Type}

/-- A codec stores the items of a type as the words of eight bytes, in their order. -/
structure StoresWords [LT α] (codec : Codec α) : Prop where
  /-- Bytes compare as the items. -/
  lt_iff : ∀ x y, codec.encode x < codec.encode y ↔ x < y
  /-- The bytes of the items are the strings of length eight. -/
  onto : ∀ bytes, (∃ x, codec.encode x = bytes) ↔ bytes.length = 8
  /-- A window is read if it lies in the buffer and has length eight. -/
  reads : ∀ (buffer : Bytes) (offset length : Nat),
    (∃ x, codec.decode buffer offset length = .ok x) ↔
      offset + length ≤ buffer.length ∧ length = 8
  /-- An item is read back wherever its bytes stand. -/
  inverts : ∀ (before after : Bytes) (x : α),
    codec.decode (before ++ codec.encode x ++ after) before.length (codec.encode x).length = .ok x
  /-- What is read is written as the window it was read from. -/
  rewrites : ∀ (buffer : Bytes) (offset length : Nat) (x : α),
    codec.decode buffer offset length = .ok x → codec.encode x = (buffer.drop offset).take length

namespace StoresWords

/-- A codec that stores words takes eight bytes for each. -/
theorem length_encode [LT α] {codec : Codec α} (h : codec.StoresWords) (x : α) :
    (codec.encode x).length = 8 :=
  (h.onto _).1 ⟨x, rfl⟩

/-- A codec that reads windows as a whole stores words if its reader tells which word is written as a
string, and there is one for every string of eight bytes. -/
theorem ofWhole [LT α] {encode : α → Bytes} {read : Bytes → Except EncodingError α}
    (hlt : ∀ x y, encode x < encode y ↔ x < y)
    (hread : ∀ bytes x, read bytes = .ok x ↔ encode x = bytes)
    (hword : ∀ bytes, (∃ x, encode x = bytes) ↔ bytes.length = 8) :
    (Codec.ofWhole encode read).StoresWords where
  lt_iff := hlt
  onto := hword
  reads buffer offset length := by
    simp only [decode_ofWhole_eq_ok_iff, hread, Bytes.window_eq_ok_iff]
    constructor
    · rintro ⟨x, window, ⟨hle, hwindow⟩, hx⟩
      have height := (hword window).1 ⟨x, hx⟩
      rw [← hwindow, Bytes.length_window hle] at height
      exact ⟨hle, height⟩
    · rintro ⟨hle, height⟩
      obtain ⟨x, hx⟩ := (hword _).2 ((Bytes.length_window hle).trans height)
      exact ⟨x, _, ⟨hle, rfl⟩, hx⟩
  inverts before after x :=
    decode_ofWhole_eq_ok_iff.2 ⟨_, Bytes.window_append before _ after, (hread _ x).2 rfl⟩
  rewrites buffer offset length x h := by
    obtain ⟨window, hwindow, hx⟩ := decode_ofWhole_eq_ok_iff.1 h
    rw [(Bytes.window_eq_ok_iff.1 hwindow).2]
    exact (hread window x).1 hx

end StoresWords

theorem unsigned_storesWords : unsigned.StoresWords := by
  refine .ofWhole BigEndian.ofUInt64_lt_iff (fun bytes w => ?_) fun bytes => ?_
  · rw [← BigEndian.toUInt64?_eq_some_iff]
    cases BigEndian.toUInt64? bytes <;> simp
  · simp only [← BigEndian.toUInt64?_eq_some_iff, BigEndian.exists_toUInt64?_iff]

theorem signed_storesWords : signed.StoresWords := by
  refine .ofWhole BigEndian.ofInt64_lt_iff (fun bytes v => ?_) fun bytes => ?_
  · rw [← BigEndian.toInt64?_eq_some_iff]
    cases BigEndian.toInt64? bytes <;> simp
  · simp only [← BigEndian.toInt64?_eq_some_iff, BigEndian.exists_toInt64?_iff]

end Codec

end SecondaryIndex
