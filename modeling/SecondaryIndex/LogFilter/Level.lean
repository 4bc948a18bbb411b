import SecondaryIndex.Text.Decimal

/-!
# Levels

A level of a log filter is a name in any case, or a number up to five. No text at all is a level
too.
-/

namespace SecondaryIndex

namespace LogFilter

def levelNames : List String := ["error", "warn", "info", "debug", "trace", "off"]

def isLevel (chars : List Char) : Bool :=
  chars.isEmpty || levelNames.contains (String.ofList (chars.map Char.toLower)) ||
    match Decimal.unsigned? chars with
    | some n => n ≤ 5
    | none => false

end LogFilter

end SecondaryIndex
