import SecondaryIndex.Text.Numeric

/-!
# Patterns

A pattern is a regular expression that texts are matched with. Here patterns are only told from
texts that are none. This module holds what a pattern is refused for, the modes that flags switch,
and what the single characters of a pattern may be in each mode; `Pattern.check` reads a whole one.

What a pattern matches is told without tables of Unicode properties. In the mode `unicode`, which is
on unless a flag switches it off, all that needs such tables is therefore refused: classes of
digits, of blanks and of word characters, classes by property, and letters in either case. Without
that mode these are properties of ASCII characters, and instead nothing may match a byte that is not
text on its own.
-/

namespace SecondaryIndex

namespace Pattern

/-- Why a pattern is refused. -/
inductive Fault
  /-- The pattern is not well formed, or asks for what is not at hand. -/
  | malformed
  /-- The pattern asks for the edges of words of any script. -/
  | wordEdge
  deriving DecidableEq, Repr

def Fault.message : Fault → String
  | malformed => "error building NFA"
  | wordEdge =>
    "unsupported regex feature for DFAs: cannot build DFAs for regexes with Unicode word " ++
      "boundaries; switch to ASCII word boundaries, or heuristically enable Unicode word " ++
      "boundaries or use a different regex engine"

/-! ### Flags -/

/-- What a flag switches. -/
inductive Flag
  /-- Letters match in either case. -/
  | ignoreCase
  /-- Texts begin and end with each line. -/
  | multiLine
  /-- The dot matches line ends. -/
  | dotMatchesLineEnd
  /-- Repetitions are lazy unless they are marked. -/
  | swapGreed
  /-- Characters are those of Unicode, not of ASCII. -/
  | unicode
  /-- Lines may end with a carriage return. -/
  | carriageReturn
  /-- Blanks and comments between the parts of the pattern are passed over. -/
  | verbose
  deriving DecidableEq, Repr

/-- The flag of a letter. -/
def Flag.ofChar? : Char → Option Flag
  | 'i' => some ignoreCase
  | 'm' => some multiLine
  | 's' => some dotMatchesLineEnd
  | 'U' => some swapGreed
  | 'u' => some unicode
  | 'R' => some carriageReturn
  | 'x' => some verbose
  | _ => none

/-- The flags that matter for whether a pattern is accepted. -/
structure Mode where
  ignoreCase : Bool := false
  unicode : Bool := true
  verbose : Bool := false
  deriving DecidableEq, Repr

/-- Switches a flag on or off. -/
def Mode.switch (mode : Mode) (flag : Flag) (on : Bool) : Mode :=
  match flag with
  | .ignoreCase => { mode with ignoreCase := on }
  | .unicode => { mode with unicode := on }
  | .verbose => { mode with verbose := on }
  | _ => mode

/-! ### What stands for characters -/

/-- The smallest parts of a pattern. -/
inductive Atom
  /-- A character; `byte` if it is written as the code of a byte. -/
  | literal (c : Char) (byte : Bool)
  /-- A class of characters with a letter of its own, or the complement of one. -/
  | charClass (complement : Bool)
  /-- A place in the text: its beginning or its end. -/
  | edge
  /-- The beginning or the end of a word, or a place that is neither. -/
  | wordEdge
  deriving DecidableEq, Repr

/-- Whether a character may stand in a pattern for itself. Without Unicode, the code of a byte that
is not ASCII is no text; within a class, neither is a character that takes several bytes. -/
def Mode.allowsLiteral (mode : Mode) (inClass : Bool) (c : Char) (byte : Bool) : Bool :=
  if mode.unicode then !mode.ignoreCase else c.toNat < 0x80 || !(byte || inClass)

/-- Whether a class with a letter of its own may stand in a pattern. -/
def Mode.allowsCharClass (mode : Mode) (complement : Bool) : Bool := !mode.unicode && !complement

/-- Whether a class of ASCII characters with a name may stand in a pattern. -/
def Mode.allowsNamedClass (mode : Mode) (complement : Bool) : Bool :=
  if mode.unicode then !mode.ignoreCase else !complement

/-- The names of classes of ASCII characters. -/
def classNames : List String :=
  ["alnum", "alpha", "ascii", "blank", "cntrl", "digit", "graph", "lower", "print", "punct",
    "space", "upper", "word", "xdigit"]

/-! ### Escapes -/

/-- What a character behind a backslash begins. -/
inductive Escape
  /-- Nothing else. -/
  | atom (atom : Atom)
  /-- The code of a character, in so many hexadecimal digits. -/
  | code (digits : Nat)
  deriving DecidableEq, Repr

/-- Whether a character may be escaped without need: any of ASCII that is no letter or digit, apart
from the brackets that have a meaning behind a backslash. -/
def isEscapable (c : Char) : Bool :=
  c.toNat < 0x80 && !c.isAlphanum && c != '<' && c != '>'

/-- Reads the character behind a backslash. There are no references to groups and no properties. -/
def Escape.ofChar? (c : Char) : Option Escape :=
  match c with
  | 'x' => some (.code 2)
  | 'u' => some (.code 4)
  | 'U' => some (.code 8)
  | 'd' | 's' | 'w' => some (.atom (.charClass false))
  | 'D' | 'S' | 'W' => some (.atom (.charClass true))
  | 'A' | 'z' => some (.atom .edge)
  | 'b' | 'B' | '<' | '>' => some (.atom .wordEdge)
  | 'a' | 'f' | 't' | 'n' | 'r' | 'v' => some (.atom (.literal (controlOf c) false))
  | _ => if isEscapable c then some (.atom (.literal c false)) else none
where
  /-- The control character that a letter stands for. -/
  controlOf : Char → Char
    | 'a' => '\x07'
    | 'f' => '\x0c'
    | 't' => '\t'
    | 'n' => '\n'
    | 'r' => '\r'
    | _ => '\x0b'

/-- The character of a code, if it is one. -/
def charOfCode? (code : Nat) : Option Char :=
  if code.isValidChar then some (Char.ofNat code) else none

/-- Whether a character may stand in the name of a group. -/
def isNameChar (first : Bool) (c : Char) : Bool :=
  if first then c == '_' || isAlphabetic c
  else c == '_' || c == '.' || c == '[' || c == ']' || isAlphanumeric c

end Pattern

end SecondaryIndex
