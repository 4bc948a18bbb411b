import SecondaryIndex.Bytes.Basic

/-!
# Text in UTF-8

A text is stored as the UTF-8 form of its characters. Reading accepts exactly the well-formed byte
sequences: `Lead.ofByte?` says what a first byte contributes and which ranges its followers must lie
in, which rules out overlong forms, surrogates and values above U+10FFFF at the second byte already.

A failed reading says where it went wrong: the index counts the bytes of the whole characters before
it, and the length counts the bytes that begin a sequence before the first one that cannot follow.
-/

namespace SecondaryIndex

namespace Utf8

/-- Why bytes are not text. -/
inductive Fault
  /-- The `length` bytes at `index` begin no well-formed sequence with the byte after them. -/
  | invalid (length index : Nat)
  /-- The bytes end inside the sequence that starts at `index`. -/
  | incomplete (index : Nat)
  deriving DecidableEq, Repr

namespace Fault

def message : Fault → String
  | invalid length index =>
    "invalid utf-8 sequence of " ++ toString length ++ " bytes from index " ++ toString index
  | incomplete index => "incomplete utf-8 byte sequence from index " ++ toString index

/-- The same fault, seen from `n` bytes further to the left. -/
def shift (n : Nat) : Fault → Fault
  | invalid length index => invalid length (n + index)
  | incomplete index => incomplete (n + index)

end Fault

/-! ### Writing -/

/-- The UTF-8 form of a sequence of characters. -/
def encode (chars : List Char) : Bytes := chars.flatMap String.utf8EncodeChar

/-! ### Reading -/

/-- The byte values that may stand at one place behind a first byte. -/
structure Range where
  lo : Nat
  hi : Nat

/-- The range of an ordinary continuation byte. -/
def Range.tail : Range := ⟨0x80, 0xbf⟩

/-- The range of the second byte of three, behind a first byte with the given leading bits. Below it
the form would be overlong, above it a surrogate. -/
def Range.secondOfThree (bits : Nat) : Range :=
  if bits = 0 then ⟨0xa0, 0xbf⟩ else if bits = 13 then ⟨0x80, 0x9f⟩ else .tail

/-- The range of the second byte of four, behind a first byte with the given leading bits. Below it
the form would be overlong, above it beyond the last character. -/
def Range.secondOfFour (bits : Nat) : Range :=
  if bits = 0 then ⟨0x90, 0xbf⟩ else if bits = 4 then ⟨0x80, 0x8f⟩ else .tail

/-- What the first byte of a sequence fixes. -/
structure Lead where
  /-- The leading bits of the character. -/
  bits : Nat
  /-- The ranges of the bytes that follow. -/
  followers : List Range

/-- Reads a byte as the first of a sequence. The bytes `c0` and `c1` would begin overlong forms. -/
def Lead.ofByte? (b : UInt8) : Option Lead :=
  let n := b.toNat
  if n < 0x80 then some ⟨n, []⟩
  else if n < 0xc2 then none
  else if n < 0xe0 then some ⟨n - 0xc0, [.tail]⟩
  else if n < 0xf0 then some ⟨n - 0xe0, [.secondOfThree (n - 0xe0), .tail]⟩
  else if n < 0xf5 then some ⟨n - 0xf0, [.secondOfFour (n - 0xf0), .tail, .tail]⟩
  else none

/-- Reads the followers of a first byte. `code` holds the bits read so far and `length` the bytes.
On success there are the code of the character and the bytes behind it. -/
def readFollowers (code length : Nat) : List Range → Bytes → Except Fault (Nat × Bytes)
  | [], rest => .ok (code, rest)
  | _ :: _, [] => .error (.incomplete 0)
  | range :: ranges, b :: rest =>
    if range.lo ≤ b.toNat ∧ b.toNat ≤ range.hi then
      readFollowers (code * 64 + b.toNat % 64) (length + 1) ranges rest
    else .error (.invalid length 0)

theorem length_le_of_readFollowers {code length : Nat} {ranges : List Range} {bytes : Bytes}
    {r : Nat × Bytes} (h : readFollowers code length ranges bytes = .ok r) :
    r.2.length ≤ bytes.length := by
  fun_induction readFollowers code length ranges bytes with
  | case1 => cases h; exact Nat.le_refl _
  | case2 => cases h
  | case3 code length range ranges b rest _ ih =>
    exact Nat.le_succ_of_le (ih h)
  | case4 => cases h

/-- Reads one character off the front of a byte string that is not empty. -/
def readChar (b : UInt8) (rest : Bytes) : Except Fault (Char × Bytes) :=
  match Lead.ofByte? b with
  | none => .error (.invalid 1 0)
  | some lead => (readFollowers lead.bits 1 lead.followers rest).map fun r => (Char.ofNat r.1, r.2)

theorem length_le_of_readChar {b : UInt8} {rest : Bytes} {r : Char × Bytes}
    (h : readChar b rest = .ok r) : r.2.length ≤ rest.length := by
  unfold readChar at h
  split at h
  · cases h
  · rename_i lead _
    cases hf : readFollowers lead.bits 1 lead.followers rest with
    | error e => rw [hf] at h; cases h
    | ok q =>
      rw [hf] at h
      cases h
      exact length_le_of_readFollowers hf

/-- Reads a byte string as a sequence of characters. -/
def decode : Bytes → Except Fault (List Char)
  | [] => .ok []
  | b :: rest =>
    match h : readChar b rest with
    | .error fault => .error fault
    | .ok (c, rest') =>
      have : rest'.length ≤ rest.length := length_le_of_readChar h
      match decode rest' with
      | .ok chars => .ok (c :: chars)
      | .error fault => .error (fault.shift (rest.length + 1 - rest'.length))
termination_by bytes => bytes.length

end Utf8

end SecondaryIndex
