/-!
# Decimal numerals

Numerals are read strictly: digits alone, with at most a sign in front, and nothing around them.
-/

namespace SecondaryIndex

namespace Decimal

/-- The number of a text of decimal digits. -/
def ofDigits? (digits : List Char) : Option Nat :=
  if digits.isEmpty || !digits.all Char.isDigit then none
  else some (digits.foldl (fun n c => n * 10 + (c.toNat - '0'.toNat)) 0)

/-- Reads digits with an optional plus in front. -/
def unsigned? : List Char → Option Nat
  | '+' :: digits => ofDigits? digits
  | digits => ofDigits? digits

/-- Reads digits with an optional sign in front. -/
def signed? : List Char → Option Int
  | '-' :: digits => (ofDigits? digits).map fun n => -(n : Int)
  | chars => (unsigned? chars).map Int.ofNat

/-- Reads a natural number. -/
def toNat? (text : String) : Option Nat := unsigned? text.toList

/-- Reads an unsigned 64-bit word; numbers out of range are refused. -/
def toUInt64? (text : String) : Option UInt64 := do
  let n ← toNat? text
  if n < UInt64.size then some (UInt64.ofNat n) else none

/-- Reads a signed 64-bit word; numbers out of range are refused. -/
def toInt64? (text : String) : Option Int64 := do
  let v ← signed? text.toList
  if Int64.minValue.toInt ≤ v ∧ v ≤ Int64.maxValue.toInt then some (Int64.ofInt v) else none

end Decimal

end SecondaryIndex
