import SecondaryIndex.Bytes.BigEndian
import SecondaryIndex.Bytes.Window

/-!
# Codecs

An index is given one codec for its keys and one for its values. A codec writes an item as bytes and
reads one back from a window of a buffer. What an index relies on is that reading inverts writing
wherever in a buffer the bytes stand (`Codec.Inverts`).

The stock codecs store words as eight bytes in numeric order, text as UTF-8, and byte strings as
they are.
-/

namespace SecondaryIndex

/-- A way of storing items of one type. -/
structure Codec (α : Type) where
  /-- The bytes of an item. -/
  encode : α → Bytes
  /-- The item in the window of a buffer that is given by offset and length. -/
  decode : (buffer : Bytes) → (offset length : Nat) → Except EncodingError α

namespace Codec

variable {α : Type}

/-- Reading inverts writing, wherever in a buffer the bytes of an item stand. -/
def Inverts (codec : Codec α) : Prop :=
  ∀ (buffer : Bytes) (offset : Nat) (x : α),
    buffer.window offset (codec.encode x).length = .ok (codec.encode x) →
      codec.decode buffer offset (codec.encode x).length = .ok x

/-- The codec that reads a window as a whole. -/
def ofWhole (encode : α → Bytes) (read : Bytes → Except EncodingError α) : Codec α where
  encode := encode
  decode buffer offset length := do read (← buffer.window offset length)

/-- A codec that reads windows as a whole inverts writing if its reader does. -/
theorem inverts_ofWhole {encode : α → Bytes} {read : Bytes → Except EncodingError α}
    (h : ∀ x, read (encode x) = .ok x) : (ofWhole encode read).Inverts := by
  intro buffer offset x hw
  have hw' : buffer.window offset (encode x).length = .ok (encode x) := hw
  simp only [ofWhole, hw']
  exact h x

/-! ### Stock codecs -/

/-- Unsigned words, as eight big-endian bytes. -/
def unsigned : Codec UInt64 :=
  ofWhole BigEndian.ofUInt64 fun bytes =>
    match BigEndian.toUInt64? bytes with
    | some w => .ok w
    | none => .error (.wordLength .unsigned bytes.length)

/-- Signed words, as eight bytes with the sign bit flipped. -/
def signed : Codec Int64 :=
  ofWhole BigEndian.ofInt64 fun bytes =>
    match BigEndian.toInt64? bytes with
    | some v => .ok v
    | none => .error (.wordLength .signed bytes.length)

/-- Text, as UTF-8. -/
def text : Codec String :=
  ofWhole (fun s => Utf8.encode s.toList) fun bytes =>
    match Utf8.decode bytes with
    | .ok chars => .ok (String.ofList chars)
    | .error fault => .error (.malformedText fault)

/-- Byte strings, as they are. -/
def verbatim : Codec Bytes := ofWhole id .ok

end Codec

end SecondaryIndex
