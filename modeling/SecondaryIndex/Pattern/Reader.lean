import SecondaryIndex.Bytes.Basic
import SecondaryIndex.Pattern.Basic
import SecondaryIndex.Text.Blank

/-!
# Reading patterns

A pattern is read character by character. A character means what the place says that it stands in
(`Place`), which it may also change; groups and classes that are open lie on stacks. All that is
kept of the parts already read is how deeply they are nested, since the depth of a pattern is
limited.

Patterns stand between braces and hold no closing brace themselves. A repetition with a count needs
one, so an opening brace is never accepted outside a class unless it is escaped.
-/

namespace SecondaryIndex

namespace Pattern

/-! ### Depth -/

/-- The depth of parts that stand together: a part alone adds nothing, several of them add one. -/
def joined : List Nat → Nat
  | [] => 0
  | [depth] => depth
  | depths => depths.foldl max 0 + 1

/-- The depth of the deepest pattern that is accepted. -/
def depthLimit : Nat := 250

/-! ### What is open -/

/-- A group under way, or the whole pattern. -/
structure Body where
  /-- The depths of the alternatives before the present one. -/
  alternatives : List Nat := []
  /-- The depths of the terms of the present alternative, the last one first. -/
  terms : List Nat := []
  /-- Whether the last term can be repeated. -/
  repeatable : Bool := false

namespace Body

/-- The depth of what was read of a body. -/
def depth (body : Body) : Nat := joined (joined body.terms :: body.alternatives)

/-- Adds a term. -/
def push (body : Body) (depth : Nat) (repeatable : Bool) : Body :=
  { body with terms := depth :: body.terms, repeatable }

/-- Begins another alternative. -/
def alternate (body : Body) : Body := { alternatives := joined body.terms :: body.alternatives }

/-- Repeats the last term. -/
def repeatLast (body : Body) : Except Fault Body :=
  match body.terms with
  | depth :: rest =>
    if body.repeatable then .ok { body with terms := (depth + 1) :: rest }
    else .error .malformed
  | [] => .error .malformed

end Body

/-- A class of characters under way. -/
structure ClassBody where
  /-- The depth of the left side of a set operation, if there is one. -/
  left : Option Nat := none
  /-- The depths of the items since. -/
  items : List Nat := []

namespace ClassBody

/-- The depth of what was read of a class. -/
def depth (body : ClassBody) : Nat :=
  match body.left with
  | none => joined body.items
  | some depth => max depth (joined body.items) + 1

/-- Adds an item. -/
def push (body : ClassBody) (depth : Nat) : ClassBody := { body with items := depth :: body.items }

/-- Makes what was read the left side of a set operation. -/
def operate (body : ClassBody) : ClassBody := { left := some body.depth }

end ClassBody

/-- Flags as far as they were read. -/
structure Switches where
  /-- The mode that they lead to. -/
  mode : Mode
  /-- The flags that were named. -/
  named : List Flag := []
  /-- Whether further flags are switched off. -/
  off : Bool := false
  /-- Whether the last character was the minus in front of those. -/
  dangling : Bool := false

/-! ### Places -/

/-- What an atom will be once it was read. -/
inductive Role
  /-- A term of the pattern. -/
  | term
  /-- An item of a class. -/
  | item
  /-- The upper end of a range of characters in a class. -/
  | rangeEnd (low : Atom)

/-- Where the next character stands. -/
inductive Place
  /-- Between terms. -/
  | text
  /-- Behind a mark of repetition, where a question mark makes it lazy. -/
  | repetition
  /-- Behind a backslash. -/
  | escape (role : Role)
  /-- In the code of a character, with so many digits to come. -/
  | code (role : Role) (digits value : Nat) (byte : Bool)
  /-- Behind an opening parenthesis. -/
  | groupStart
  /-- Behind an opening parenthesis and a question mark. -/
  | groupMark
  /-- Where the name of a group must begin, behind the letter for it. -/
  | nameMark
  /-- In the name of a group; its characters so far, the last one first. -/
  | groupName (name : List Char)
  /-- Among flags. -/
  | flags (switches : Switches)
  /-- Behind an opening bracket. -/
  | classStart
  /-- At the beginning of a class, where signs of operations stand for themselves. -/
  | classLead
  /-- Between the items of a class. -/
  | classItem
  /-- Behind an item of a class, which may begin a range. -/
  | itemEnd (item : Atom)
  /-- At the upper end of a range. -/
  | rangeEnd (low : Atom)
  /-- At the second sign of a set operation. -/
  | operation
  /-- In a named class of characters, up to its closing bracket. -/
  | namedClass

/-- Whether blanks and comments may stand in a place if the pattern is verbose. -/
def Place.isSpaced : Place → Bool
  | .text | .code .. | .groupStart | .classStart | .classLead | .classItem | .itemEnd _
  | .rangeEnd _ => true
  | _ => false

/-- A pattern under way. -/
structure State where
  /-- Where the next character stands. -/
  place : Place := .text
  /-- Whether it stands in a comment. -/
  inComment : Bool := false
  /-- The present flags. -/
  mode : Mode := {}
  /-- The innermost group, or the whole pattern. -/
  body : Body := {}
  /-- The groups around it, and the flags outside of it, innermost first. -/
  groups : List (Body × Mode) := []
  /-- The open classes, innermost first. -/
  classes : List ClassBody := []
  /-- The names of groups. -/
  names : List (List Char) := []
  /-- Whether the pattern asks for the edges of words of any script. -/
  wordEdge : Bool := false

namespace State

/-- Goes to a place. -/
def goto (s : State) (place : Place) : State := { s with place }

/-- Adds a term, and goes on behind it. -/
def pushTerm (s : State) (depth : Nat) (repeatable : Bool) : State :=
  { s with place := .text, body := s.body.push depth repeatable }

/-- Adds an item to the innermost class, and goes on behind it. -/
def pushItem (s : State) (depth : Nat) : State :=
  match s.classes with
  | body :: outer => { s with place := .classItem, classes := body.push depth :: outer }
  | [] => s

/-! ### Atoms -/

/-- Adds an atom as a term. -/
def putTerm (s : State) (atom : Atom) : Except Fault State :=
  match atom with
  | .literal c byte =>
    if s.mode.allowsLiteral false c byte then .ok (s.pushTerm 0 true) else .error .malformed
  | .charClass complement =>
    if s.mode.allowsCharClass complement then .ok (s.pushTerm 0 true) else .error .malformed
  | .edge => .ok (s.pushTerm 0 true)
  | .wordEdge => .ok { s.pushTerm 0 true with wordEdge := s.wordEdge || s.mode.unicode }

/-- Adds an atom to the innermost class. Places of a text are not in any class. -/
def putItem (s : State) (atom : Atom) : Except Fault State :=
  match atom with
  | .literal c byte =>
    if s.mode.allowsLiteral true c byte then .ok (s.pushItem 0) else .error .malformed
  | .charClass complement =>
    if s.mode.allowsCharClass complement then .ok (s.pushItem 0) else .error .malformed
  | .edge | .wordEdge => .error .malformed

/-- Adds a range to the innermost class. Its ends are characters, and not in descending order. -/
def putRange (s : State) (low high : Atom) : Except Fault State :=
  match low, high with
  | .literal a aByte, .literal b bByte =>
    if a ≤ b && s.mode.allowsLiteral true a aByte && s.mode.allowsLiteral true b bByte then
      .ok (s.pushItem 0)
    else .error .malformed
  | _, _ => .error .malformed

/-- Gives an atom its role. -/
def put (s : State) (role : Role) (atom : Atom) : Except Fault State :=
  match role with
  | .term => s.putTerm atom
  | .item => .ok (s.goto (.itemEnd atom))
  | .rangeEnd low => s.putRange low atom

/-- Reads the character behind a backslash. -/
def readEscape (s : State) (role : Role) (c : Char) : Except Fault State :=
  match Escape.ofChar? c with
  | some (.atom atom) => s.put role atom
  | some (.code digits) => .ok (s.goto (.code role digits 0 (digits == 2)))
  | none => .error .malformed

/-- Reads a digit of the code of a character. -/
def readDigit (s : State) (role : Role) (digits value : Nat) (byte : Bool) (c : Char) :
    Except Fault State :=
  match Bytes.hexDigit? c with
  | none => .error .malformed
  | some digit =>
    let value := 16 * value + digit
    if 1 < digits then .ok (s.goto (.code role (digits - 1) value byte))
    else
      match charOfCode? value with
      | some c => s.put role (.literal c byte)
      | none => .error .malformed

/-! ### Classes -/

/-- Opens a class. -/
def openClass (s : State) : State := { s with place := .classStart, classes := {} :: s.classes }

/-- Closes the innermost class. -/
def closeClass (s : State) : State :=
  match s.classes with
  | body :: [] => { s.pushTerm (body.depth + 1) true with classes := [] }
  | body :: outer => { s with classes := outer }.pushItem (body.depth + 1)
  | [] => s

/-- Makes the innermost class the left side of a set operation, whose sign is read up to its second
half. -/
def operate (s : State) : State :=
  match s.classes with
  | body :: outer => { s with place := .operation, classes := body.operate :: outer }
  | [] => s

/-- The named class of characters that begins behind a bracket: whether it is a complement. -/
def namedClass? (ahead : List Char) : Option Bool :=
  match ahead with
  | ':' :: rest =>
    let complement := rest.head? == some '^'
    let rest := if complement then rest.tail else rest
    let name := rest.takeWhile (· ≠ ':')
    if (rest.dropWhile (· ≠ ':')).take 2 = [':', ']'] ∧ String.ofList name ∈ classNames then
      some complement
    else none
  | _ => none

/-- Reads a character between the items of a class. -/
def readItem (s : State) (c : Char) (ahead : List Char) : Except Fault State :=
  match c with
  | '[' =>
    match namedClass? ahead with
    | some complement =>
      if s.mode.allowsNamedClass complement then .ok ((s.pushItem 0).goto .namedClass)
      else .error .malformed
    | none => .ok s.openClass
  | ']' => .ok s.closeClass
  | '\\' => .ok (s.goto (.escape .item))
  | _ =>
    if (c == '&' || c == '-' || c == '~') && ahead.head? == some c then .ok s.operate
    else s.put .item (.literal c false)

/-- Reads the first character of a class, or the first behind the sign of a complement. Signs of
operations stand for themselves there, and so does a closing bracket. -/
def readLead (s : State) (c : Char) (ahead : List Char) : Except Fault State := do
  let isEmpty := s.classes.head?.all fun body => body.items.isEmpty
  if c = '-' then pure ((← s.putItem (.literal c false)).goto .classLead)
  else if c = ']' ∧ isEmpty then s.putItem (.literal c false)
  else s.readItem c ahead

/-- The next character that is read. In a verbose pattern it stands behind blanks, and a comment
shows by its first visible character. -/
def nextVisible (s : State) (ahead : List Char) : Option Char :=
  if s.mode.verbose then
    match ahead.dropWhile isBlank with
    | '#' :: rest => (rest.dropWhile isBlank).head?
    | rest => rest.head?
  else ahead.head?

/-- Reads the character behind an item of a class: a hyphen makes it the lower end of a range,
unless the class ends or a set operation begins there. -/
def readItemEnd (s : State) (item : Atom) (c : Char) (ahead : List Char) : Except Fault State := do
  let next? := s.nextVisible ahead
  if c = '-' ∧ next? ≠ some ']' ∧ next? ≠ some '-' then pure (s.goto (.rangeEnd item))
  else (← s.putItem item).readItem c ahead

/-! ### Groups -/

/-- Opens a group, in which the flags are those of `mode`. -/
def openGroup (s : State) (mode : Mode) : State :=
  { s with place := .text, mode, body := {}, groups := (s.body, s.mode) :: s.groups }

/-- Closes the innermost group. The flags are those outside of it again. -/
def closeGroup (s : State) : Except Fault State :=
  match s.groups with
  | (outer, mode) :: groups =>
    .ok { s with mode, groups, body := outer.push (s.body.depth + 1) true }
  | [] => .error .malformed

/-- Reads a character of the name of a group. No two groups have one name. -/
def readName (s : State) (name : List Char) (c : Char) : Except Fault State :=
  if c = '>' then
    if name.isEmpty || s.names.contains name then .error .malformed
    else .ok { s.openGroup s.mode with names := name :: s.names }
  else if isNameChar name.isEmpty c then .ok (s.goto (.groupName (c :: name)))
  else .error .malformed

/-- Reads a character among flags. They hold for a group of their own, or for the rest of the
present one. -/
def readFlag (s : State) (switches : Switches) (c : Char) : Except Fault State :=
  match c with
  | '-' =>
    if switches.off then .error .malformed
    else .ok (s.goto (.flags { switches with off := true, dangling := true }))
  | ':' => if switches.dangling then .error .malformed else .ok (s.openGroup switches.mode)
  | ')' =>
    if switches.dangling || switches.named.isEmpty then .error .malformed
    else .ok { s.pushTerm 0 false with mode := switches.mode }
  | _ =>
    match Flag.ofChar? c with
    | none => .error .malformed
    | some flag =>
      if switches.named.contains flag then .error .malformed
      else .ok (s.goto (.flags
        { switches with
          mode := switches.mode.switch flag !switches.off
          named := flag :: switches.named
          dangling := false }))

/-! ### The pattern -/

/-- Reads a character between terms. -/
def readText (s : State) (c : Char) : Except Fault State :=
  match c with
  | '(' => .ok (s.goto .groupStart)
  | ')' => s.closeGroup
  | '|' => .ok { s with body := s.body.alternate }
  | '[' => .ok s.openClass
  | '?' | '*' | '+' => do pure { s with place := .repetition, body := ← s.body.repeatLast }
  | '\x7b' => .error .malformed
  | '\\' => .ok (s.goto (.escape .term))
  | '.' => if s.mode.unicode then .ok (s.pushTerm 0 true) else .error .malformed
  | '^' | '$' => s.putTerm .edge
  | _ => s.putTerm (.literal c false)

/-- Reads a character that is not passed over; `ahead` is what follows it. -/
def readVisible (s : State) (c : Char) (ahead : List Char) : Except Fault State :=
  match s.place with
  | .text | .repetition => s.readText c
  | .escape role => s.readEscape role c
  | .code role digits value byte => s.readDigit role digits value byte c
  | .groupStart => if c = '?' then .ok (s.goto .groupMark) else (s.openGroup s.mode).readText c
  | .groupMark =>
    if c = 'P' then .ok (s.goto .nameMark)
    else if c = '<' then .ok (s.goto (.groupName []))
    else s.readFlag { mode := s.mode } c
  | .nameMark => if c = '<' then .ok (s.goto (.groupName [])) else .error .malformed
  | .groupName name => s.readName name c
  | .flags switches => s.readFlag switches c
  | .classStart =>
    if c = '^' then
      -- the complement of a class of ASCII characters would match bytes that are no text
      if s.mode.unicode then .ok (s.goto .classLead) else .error .malformed
    else s.readLead c ahead
  | .classLead => s.readLead c ahead
  | .classItem => s.readItem c ahead
  | .itemEnd item => s.readItemEnd item c ahead
  | .rangeEnd low =>
    if c = '\\' then .ok (s.goto (.escape (.rangeEnd low))) else s.putRange low (.literal c false)
  | .operation => .ok (s.goto .classItem)
  | .namedClass => .ok (if c = ']' then s.goto .classItem else s)

/-- Reads a character. -/
def read (s : State) (c : Char) (ahead : List Char) : Except Fault State :=
  match s.place, c with
  | .repetition, '?' => .ok (s.goto .text)
  | _, _ =>
    let s := match s.place with
      | .repetition => s.goto .text
      | _ => s
    if s.inComment then .ok { s with inComment := c ≠ '\n' }
    else if s.mode.verbose && s.place.isSpaced && isBlank c then .ok s
    else if s.mode.verbose && s.place.isSpaced && c == '#' then .ok { s with inComment := true }
    else s.readVisible c ahead

/-- Reads characters one after the other. -/
def readAll (s : State) : List Char → Except Fault State
  | [] => .ok s
  | c :: ahead => do (← s.read c ahead).readAll ahead

/-- Whether a pattern may end. -/
def atEnd (s : State) : Bool :=
  match s.place with
  | .text | .repetition => s.groups.isEmpty
  | _ => false

end State

/-- Checks a pattern. That it is well formed decides before anything else. -/
def check (pattern : List Char) : Except Fault Unit := do
  let s ← ({} : State).readAll pattern
  if !s.atEnd || depthLimit < s.body.depth then throw .malformed
  if s.wordEdge then throw .wordEdge

end Pattern

end SecondaryIndex
