import SecondaryIndex.Bytes.BigEndian
import SecondaryIndex.Error
import SecondaryIndex.Range

/-!
# The layout of physical keys

A pair of a key and a value is stored as one physical key with an empty engine value: the length of
the key as a big-endian number, the key, the value. Byte order therefore groups the entries by key
length, then by key, then by value, and the entries of one key are exactly the physical keys that
begin with its *stem*, its length and its bytes. The range of a key starts at the stem and ends just
below its *ceiling*, the least byte string above all that begin with the stem.

The compact layout spends one byte on the length, the wide one four.
-/

namespace SecondaryIndex

namespace Bytes

/-- The least byte string above every byte string that begins with `beginning`: the last byte that
can still grow is incremented and what follows it is dropped. Without such a byte there is none. -/
def successor? : (beginning : Bytes) → Option Bytes
  | [] => none
  | b :: rest =>
    match successor? rest with
    | some rest' => some (b :: rest')
    | none => if b < 0xff then some [b + 1] else none

end Bytes

/-- How many bytes stand in front of a key for its length. -/
inductive Layout
  | compact
  | wide
  deriving DecidableEq, Repr

namespace Layout

/-- The number of length bytes. -/
def width : Layout → Nat
  | compact => 1
  | wide => 4

/-- The length of the longest key that the length bytes can describe. -/
def keyLimit (layout : Layout) : Nat := BigEndian.capacity layout.width - 1

def name : Layout → String
  | compact => "Compact"
  | wide => "Wide"

/-- What every physical key of `key` begins with: its length and its bytes. This is also the least
of those physical keys, the one of the empty value. -/
def stem (layout : Layout) (key : Bytes) : Except EncodingError Bytes :=
  if key.length ≤ layout.keyLimit then .ok (BigEndian.ofNat layout.width key.length ++ key)
  else .error (.keyTooLong key.length layout.keyLimit)

/-- The physical key of a pair. -/
def join (layout : Layout) (key value : Bytes) : Except EncodingError Bytes := do
  pure ((← layout.stem key) ++ value)

/-- The exclusive bound above the physical keys of `key`; it is absent if no byte string lies above
them all. -/
def ceiling (layout : Layout) (key : Bytes) : Except EncodingError Bound := do
  match Bytes.successor? (← layout.stem key) with
  | some bound => pure (.excluded bound)
  | none => pure .unbounded

/-- The two bounds of the physical keys of `key`. -/
def span (layout : Layout) (key : Bytes) : Except EncodingError (Bytes × Bound) := do
  pure (← layout.stem key, ← layout.ceiling key)

/-- The key and the value of a physical key. -/
def split (layout : Layout) (physical : Bytes) : Except EncodingError (Bytes × Bytes) :=
  if physical.length < layout.width then
    .error (.missingLength physical.length layout.width)
  else
    let declared := BigEndian.toNat (physical.take layout.width)
    let rest := physical.drop layout.width
    if rest.length < declared then .error (.truncatedKey declared rest.length)
    else .ok (rest.take declared, rest.drop declared)

/-- The bounds of the group of entries that a physical key belongs to. -/
def spanOf (layout : Layout) (physical : Bytes) : Except EncodingError (Bytes × Bound) := do
  layout.span (← layout.split physical).1

end Layout

end SecondaryIndex
