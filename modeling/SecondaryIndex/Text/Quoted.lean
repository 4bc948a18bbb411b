/-!
# Quoted names

Names are shown between double quotes. Quotes and backslashes inside them are marked by a backslash,
and so are line breaks and tabs; the remaining control characters are shown by their code.
-/

namespace SecondaryIndex

namespace Quoted

/-- The lowercase hexadecimal numeral of a number. -/
def hexNumeral (n : Nat) : List Char := Nat.toDigits 16 n

/-- How one character is shown. -/
def escape (c : Char) : List Char :=
  if c = '"' then ['\\', '"']
  else if c = '\\' then ['\\', '\\']
  else if c = '\n' then ['\\', 'n']
  else if c = '\t' then ['\\', 't']
  else if c = '\r' then ['\\', 'r']
  else if c.toNat = 0 then ['\\', '0']
  else if c.toNat < 0x20 ∨ (0x7f ≤ c.toNat ∧ c.toNat < 0xa0) then
    ['\\', 'u', Char.ofNat 0x7b] ++ hexNumeral c.toNat ++ [Char.ofNat 0x7d]
  else [c]

/-- A name between quotes. -/
def encode (name : String) : String :=
  String.ofList ('"' :: name.toList.flatMap escape ++ ['"'])

end Quoted

end SecondaryIndex
