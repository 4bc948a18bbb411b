import SecondaryIndex.Codec.Basic
import SecondaryIndex.Text.Decimal

/-!
# Items

The items of the stock codecs, with the texts they are written as outside of a store: words in
decimal, text as itself, byte strings in hexadecimal. An `ItemKind` names one of the four types, so
that keys and values of different indexes can be handled together.
-/

namespace SecondaryIndex

/-- The item types that have a stock codec. -/
inductive ItemKind
  | unsigned
  | signed
  | text
  | verbatim
  deriving DecidableEq, Repr

namespace ItemKind

/-- The type of the items of a kind. -/
abbrev Carrier : ItemKind → Type
  | unsigned => UInt64
  | signed => Int64
  | text => String
  | verbatim => Bytes

/-- The kind of a short name. -/
def ofName? : String → Option ItemKind
  | "u64" => some unsigned
  | "i64" => some signed
  | "utf8" => some text
  | "raw" => some verbatim
  | _ => none

/-- The stock codec of a kind. -/
def codec : (kind : ItemKind) → Codec kind.Carrier
  | unsigned => Codec.unsigned
  | signed => Codec.signed
  | text => Codec.text
  | verbatim => Codec.verbatim

/-! ### Items as text -/

/-- Reads the text of an item of a kind. -/
def ofText? : (kind : ItemKind) → String → Option kind.Carrier
  | unsigned, s => Decimal.toUInt64? s
  | signed, s => Decimal.toInt64? s
  | text, s => some s
  | verbatim, s => Bytes.ofHex? s

/-- Writes an item of a kind as text. -/
def toText : (kind : ItemKind) → kind.Carrier → String
  | unsigned, w => toString w.toNat
  | signed, v => toString v.toInt
  | text, s => s
  | verbatim, bytes => bytes.toHex

/-- Sorts items by their stored bytes. -/
def sortStored (kind : ItemKind) (items : List kind.Carrier) : List kind.Carrier :=
  items.mergeSort fun a b => decide (kind.codec.encode a ≤ kind.codec.encode b)

end ItemKind

end SecondaryIndex
