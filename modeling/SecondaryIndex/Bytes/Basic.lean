/-!
# Byte strings

Everything a store holds is a byte string, and every order it shows is the order of byte strings:
byte by byte, a proper beginning first. That is core's lexicographic order on `List UInt8`, so the
order lemmas of core apply as they stand. Bytes are written as lowercase hexadecimal digits, two to
a byte.
-/

namespace SecondaryIndex

/-- A byte string, ordered lexicographically. -/
abbrev Bytes := List UInt8

namespace Bytes

/-- Byte strings are linearly ordered. -/
instance isLinearOrder : Std.IsLinearOrder Bytes := inferInstance

/-- The strict order of byte strings belongs to their order. -/
instance lawfulOrderLT : Std.LawfulOrderLT Bytes := inferInstance

/-! ### Hexadecimal text -/

/-- The lowercase hexadecimal digit of a value below sixteen. -/
def hexDigit (n : Nat) : Char :=
  if n < 10 then Char.ofNat ('0'.toNat + n) else Char.ofNat ('a'.toNat + (n - 10))

/-- The value of a hexadecimal digit in either case. -/
def hexDigit? (c : Char) : Option Nat :=
  if '0' ≤ c ∧ c ≤ '9' then some (c.toNat - '0'.toNat)
  else if 'a' ≤ c ∧ c ≤ 'f' then some (c.toNat - 'a'.toNat + 10)
  else if 'A' ≤ c ∧ c ≤ 'F' then some (c.toNat - 'A'.toNat + 10)
  else none

/-- Writes each byte as two digits, high half first. -/
def toHex (bytes : Bytes) : String :=
  String.ofList (bytes.flatMap fun b => [hexDigit (b.toNat / 16), hexDigit (b.toNat % 16)])

/-- Reads pairs of digits as bytes. -/
def ofHexDigits? : List Char → Option Bytes
  | [] => some []
  | [_] => none
  | high :: low :: rest => do
    let h ← hexDigit? high
    let l ← hexDigit? low
    let bytes ← ofHexDigits? rest
    pure (UInt8.ofNat (16 * h + l) :: bytes)

/-- Reads a text of hexadecimal digits. -/
def ofHex? (text : String) : Option Bytes := ofHexDigits? text.toList

end Bytes

end SecondaryIndex
