import SecondaryIndex.Error
import SecondaryIndex.LogFilter.Field
import SecondaryIndex.LogFilter.Level

/-!
# Directives

A directive of a log filter is a level, a target, or a target with a span in square brackets, and
possibly a level behind an equals sign. The span may have fields in braces.

Reading a directive follows its blank-trimmed characters one by one through the parts of a directive
(`Part`). The places of fields and levels are counted in bytes there, but their texts are cut from
the directive as it was given, blanks included.
-/

namespace SecondaryIndex

namespace LogFilter

/-- Removes the blanks at both ends. -/
def trim (chars : List Char) : List Char :=
  ((chars.dropWhile isBlank).reverse.dropWhile isBlank).reverse

/-- The characters behind the first `n` bytes. -/
def dropBytes (n : Nat) : List Char → List Char
  | [] => []
  | c :: rest => if n = 0 then c :: rest else dropBytes (n - c.utf8Size) rest

/-- The characters of the first `n` bytes. -/
def takeBytes (n : Nat) : List Char → List Char
  | [] => []
  | c :: rest => if n = 0 then [] else c :: takeBytes (n - c.utf8Size) rest

/-- Cutting a text anywhere loses nothing. -/
theorem takeBytes_append_dropBytes (n : Nat) (chars : List Char) :
    takeBytes n chars ++ dropBytes n chars = chars := by
  induction chars generalizing n with
  | nil => rfl
  | cons c rest ih =>
    by_cases h : n = 0
    · simp [takeBytes, dropBytes, h]
    · simp [takeBytes, dropBytes, h, ih]

/-- Whether a directive may start with a character other than a bracket. -/
def startsName (c : Char) : Bool := isAlphanumeric c || c == '-' || c == ':' || c == '_'

/-- The part of a directive that is being read. -/
inductive Part
  /-- Nothing was read yet. -/
  | start
  /-- A level or a target. -/
  | name
  /-- The name of a span, inside the brackets. -/
  | span
  /-- A field of a span, which starts at a byte of the directive. -/
  | field (position : Nat)
  /-- Behind the fields. -/
  | fields
  /-- Behind the brackets. -/
  | target
  /-- The level, which starts at a byte of the directive. -/
  | level (position : Nat)
  deriving DecidableEq, Repr

/-- Checks the field of a directive that takes the bytes from `first` on, up to `last`. -/
def checkFieldAt (directive : List Char) (first last : Nat) : Except SettingError Unit :=
  if first = last then .error .malformedDirective
  else (checkField (takeBytes (last - first) (dropBytes first directive))).mapError .malformedField

/-- The part that a character of a directive leads to; `position` is its own. -/
def Part.step (directive : List Char) (part : Part) (position : Nat) (c : Char) :
    Except SettingError Part :=
  match part with
  | start =>
    if c = '[' then .ok span else if startsName c then .ok name else .error .malformedDirective
  | name => .ok (if c = '=' then level (position + 1) else if c = '[' then span else name)
  | span => .ok (if c = ']' then target else if c = '\x7b' then field (position + 1) else span)
  | field first => do
    if c = '\x7d' then
      checkFieldAt directive first position
      pure fields
    else pure (field first)
  | fields => if c = ']' then .ok target else .error .malformedDirective
  | target => if c = '=' then .ok (level (position + 1)) else .error .malformedDirective
  | level _ => .ok part

/-- Follows the characters of a directive from a part on. -/
def follow (directive : List Char) (part : Part) (position : Nat) :
    List Char → Except SettingError Part
  | [] => .ok part
  | c :: rest => do
    follow directive (← part.step directive position c) (position + c.utf8Size) rest

/-- Checks one directive. -/
def checkDirective (directive : List Char) : Except SettingError Unit := do
  match ← follow directive .start 0 (trim directive) with
  | .name | .target => pure ()
  | .level position =>
    if isLevel (dropBytes position directive) then pure () else throw .unknownLevel
  | _ => throw .malformedDirective

end LogFilter

end SecondaryIndex
