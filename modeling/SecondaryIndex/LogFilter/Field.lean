import SecondaryIndex.Pattern.Reader

/-!
# Fields

A field of a span in a log filter is a name, and possibly a value behind an equals sign; what stands
behind a second one is passed over. A value is a number, or else a pattern. The texts `true` and
`false` are patterns as well, and so are most numbers, but not those with a plus in front.
-/

namespace SecondaryIndex

namespace LogFilter

/-- Whether a text is an exponent, or nothing. -/
def isExponent (chars : List Char) : Bool :=
  match chars with
  | [] => true
  | e :: rest =>
    let digits := if rest.head? = some '+' ∨ rest.head? = some '-' then rest.tail else rest
    (e == 'e' || e == 'E') && !digits.isEmpty && digits.all Char.isDigit

/-- Whether a text is a decimal number without a sign: digits, with a point before, among or behind
them, and possibly an exponent. -/
def isDecimal (chars : List Char) : Bool :=
  let whole := chars.takeWhile Char.isDigit
  let rest := chars.dropWhile Char.isDigit
  let behindPoint := if rest.head? = some '.' then rest.tail else []
  let fraction := behindPoint.takeWhile Char.isDigit
  let exponent := if rest.head? = some '.' then behindPoint.dropWhile Char.isDigit else rest
  !(whole.isEmpty && fraction.isEmpty) && isExponent exponent

/-- The names of the numbers that have no digits. -/
def numberNames : List String := ["inf", "infinity", "nan"]

/-- Whether a text is a number, with an optional sign in front. -/
def isNumber (chars : List Char) : Bool :=
  let body := if chars.head? = some '+' ∨ chars.head? = some '-' then chars.tail else chars
  isDecimal body || numberNames.contains (String.ofList (body.map Char.toLower))

/-- The value of a field, if it has one. -/
def fieldValue? (field : List Char) : Option (List Char) :=
  match field.dropWhile (· ≠ '=') with
  | [] => none
  | _ :: rest => some (rest.takeWhile (· ≠ '='))

/-- Checks a field. -/
def checkField (field : List Char) : Except Pattern.Fault Unit :=
  match fieldValue? field with
  | none => .ok ()
  | some value => if isNumber value then .ok () else Pattern.check value

end LogFilter

end SecondaryIndex
