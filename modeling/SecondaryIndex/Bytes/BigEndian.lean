import SecondaryIndex.Bytes.Basic

/-!
# Big-endian numbers

A number that `width` bytes can hold is written most significant byte first, so that byte order is
numeric order. Signed words are first moved onto the unsigned ones by flipping the sign bit, which
puts the negative numbers below the others.

Main statements: writing and reading are inverse to each other (`BigEndian.toNat_ofNat`,
`BigEndian.ofNat_toNat`), and the byte order of two written numbers is their own order
(`BigEndian.ofNat_lt_ofNat_iff`).
-/

namespace SecondaryIndex

namespace BigEndian

/-- How many numbers can be written with `width` bytes. -/
def capacity : (width : Nat) → Nat
  | 0 => 1
  | width + 1 => capacity width * 256

/-- The last `width` digits of `n` in base 256, most significant first. -/
def ofNat : (width n : Nat) → Bytes
  | 0, _ => []
  | width + 1, n => UInt8.ofNat (n / capacity width) :: ofNat width n

/-- The number that the bytes write in base 256. -/
def toNat : Bytes → Nat
  | [] => 0
  | b :: rest => b.toNat * capacity rest.length + toNat rest

theorem capacity_pos (width : Nat) : 0 < capacity width := by
  induction width with
  | zero => decide
  | succ width ih => exact Nat.mul_pos ih (by decide)

@[simp] theorem length_ofNat (width n : Nat) : (ofNat width n).length = width := by
  induction width with
  | zero => rfl
  | succ width ih => simp [ofNat, ih]

theorem toNat_lt (bytes : Bytes) : toNat bytes < capacity bytes.length := by
  induction bytes with
  | nil => exact capacity_pos 0
  | cons b rest ih =>
    have hb : b.toNat ≤ 255 := Nat.le_of_lt_succ b.toNat_lt
    have hm : b.toNat * capacity rest.length ≤ 255 * capacity rest.length := Nat.mul_le_mul_right _ hb
    simp only [toNat, List.length_cons, capacity]
    omega

/-- Reading what was written gives back the number, less the digits that were cut off. -/
theorem toNat_ofNat (width n : Nat) : toNat (ofNat width n) = n % capacity width := by
  induction width with
  | zero => simp [ofNat, toNat, capacity, Nat.mod_one]
  | succ width ih =>
    have hb : (UInt8.ofNat (n / capacity width)).toNat = n / capacity width % 256 := UInt8.toNat_ofNat'
    simp only [ofNat, toNat, length_ofNat, ih, hb, capacity]
    rw [Nat.mod_mul, Nat.mul_comm, Nat.add_comm]

theorem ofNat_add_mul (width n m : Nat) : ofNat width (n + m * capacity width) = ofNat width n := by
  induction width generalizing m with
  | zero => rfl
  | succ width ih =>
    -- a multiple of the larger capacity is one of the smaller, so the lower digits agree;
    -- it adds a multiple of 256 to the number of the first digit, which is cut off
    have hr : n + m * capacity (width + 1) = n + m * 256 * capacity width := by
      rw [capacity, Nat.mul_comm (capacity width), ← Nat.mul_assoc]
    have hd : (n + m * 256 * capacity width) / capacity width = n / capacity width + m * 256 :=
      Nat.add_mul_div_right _ _ (capacity_pos width)
    rw [hr]
    simp only [ofNat, hd]
    rw [ih]
    congr 1
    apply UInt8.toNat_inj.1
    simp only [UInt8.toNat_ofNat']
    omega

/-- Writing what was read gives back the bytes. -/
theorem ofNat_toNat (bytes : Bytes) : ofNat bytes.length (toNat bytes) = bytes := by
  induction bytes with
  | nil => rfl
  | cons b rest ih =>
    -- the rest is below its capacity, so that division leaves the first byte
    have hd : (b.toNat * capacity rest.length + toNat rest) / capacity rest.length = b.toNat := by
      rw [Nat.mul_comm, Nat.mul_add_div (capacity_pos _), Nat.div_eq_of_lt (toNat_lt rest),
        Nat.add_zero]
    simp only [List.length_cons, ofNat, toNat, hd, UInt8.ofNat_toNat]
    rw [Nat.add_comm, ofNat_add_mul, ih]

/-- Two byte strings of one length compare as the numbers they write. -/
theorem lt_iff_toNat_lt {a b : Bytes} (h : a.length = b.length) : a < b ↔ toNat a < toNat b := by
  induction a generalizing b with
  | nil => cases b <;> simp_all [toNat]
  | cons x a ih =>
    cases b with
    | nil => simp at h
    | cons y b =>
      have hlen : a.length = b.length := by simpa using h
      have ha : toNat a < capacity b.length := hlen ▸ toNat_lt a
      have hb := toNat_lt b
      rw [List.cons_lt_cons_iff, ih hlen, UInt8.lt_iff_toNat_lt]
      simp only [toNat, hlen]
      constructor
      · rintro (hlt | ⟨rfl, hlt⟩)
        · have hle : (x.toNat + 1) * capacity b.length ≤ y.toNat * capacity b.length :=
            Nat.mul_le_mul_right _ hlt
          rw [Nat.add_mul] at hle
          omega
        · omega
      · intro hlt
        rcases Nat.lt_trichotomy x.toNat y.toNat with hxy | hxy | hxy
        · exact .inl hxy
        · refine .inr ⟨UInt8.toNat_inj.1 hxy, ?_⟩
          rw [hxy] at hlt
          omega
        -- a greater first byte outweighs whatever follows
        · have hle : (y.toNat + 1) * capacity b.length ≤ x.toNat * capacity b.length :=
            Nat.mul_le_mul_right _ hxy
          rw [Nat.add_mul] at hle
          omega

/-- Numbers that fit their width compare as they are written. -/
theorem ofNat_lt_ofNat_iff {width m n : Nat} (hm : m < capacity width) (hn : n < capacity width) :
    ofNat width m < ofNat width n ↔ m < n := by
  rw [lt_iff_toNat_lt (by simp), toNat_ofNat, toNat_ofNat, Nat.mod_eq_of_lt hm, Nat.mod_eq_of_lt hn]

/-! ### Machine words -/

/-- The four bytes of an unsigned 32-bit word. -/
def ofUInt32 (w : UInt32) : Bytes := ofNat 4 w.toNat

/-- Reads exactly four bytes as an unsigned 32-bit word. -/
def toUInt32? (bytes : Bytes) : Option UInt32 :=
  if bytes.length = 4 then some (UInt32.ofNat (toNat bytes)) else none

/-- The eight bytes of an unsigned 64-bit word. -/
def ofUInt64 (w : UInt64) : Bytes := ofNat 8 w.toNat

/-- Reads exactly eight bytes as an unsigned 64-bit word. -/
def toUInt64? (bytes : Bytes) : Option UInt64 :=
  if bytes.length = 8 then some (UInt64.ofNat (toNat bytes)) else none

/-- The sign bit of a 64-bit word. -/
def signBit : UInt64 := 0x8000000000000000

/-- The eight bytes of a signed 64-bit word; flipping the sign bit sorts the negatives first. -/
def ofInt64 (v : Int64) : Bytes := ofUInt64 (v.toUInt64 ^^^ signBit)

/-- Reads exactly eight bytes as a signed 64-bit word. -/
def toInt64? (bytes : Bytes) : Option Int64 :=
  (toUInt64? bytes).map fun w => (w ^^^ signBit).toInt64

@[simp] theorem toUInt32?_ofUInt32 (w : UInt32) : toUInt32? (ofUInt32 w) = some w := by
  have hw : w.toNat % capacity 4 = w.toNat := Nat.mod_eq_of_lt w.toNat_lt
  simp [toUInt32?, ofUInt32, toNat_ofNat, hw]

@[simp] theorem toUInt64?_ofUInt64 (w : UInt64) : toUInt64? (ofUInt64 w) = some w := by
  have hw : w.toNat % capacity 8 = w.toNat := Nat.mod_eq_of_lt w.toNat_lt
  simp [toUInt64?, ofUInt64, toNat_ofNat, hw]

@[simp] theorem toInt64?_ofInt64 (v : Int64) : toInt64? (ofInt64 v) = some v := by
  rw [toInt64?, ofInt64, toUInt64?_ofUInt64, Option.map_some, UInt64.xor_assoc, UInt64.xor_self,
    UInt64.xor_zero, Int64.toInt64_toUInt64]

end BigEndian

end SecondaryIndex
