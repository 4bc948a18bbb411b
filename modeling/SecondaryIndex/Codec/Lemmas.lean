import SecondaryIndex.Bytes.Utf8.Lemmas
import SecondaryIndex.Codec.Item

/-!
# The stock codecs invert

Each stock codec reads back what it wrote, wherever in a buffer the bytes stand. This is the one
property that an index asks of its codecs.
-/

namespace SecondaryIndex

/-- A window that lies in the buffer is as long as it was asked for. -/
theorem Bytes.length_window {buffer : Bytes} {offset length : Nat}
    (h : offset + length ≤ buffer.length) : ((buffer.drop offset).take length).length = length := by
  rw [List.length_take, List.length_drop]
  omega

namespace Codec

/-- Windows that are read as a whole are first found, then read. -/
theorem decode_ofWhole_eq_ok_iff {α : Type} {encode : α → Bytes}
    {read : Bytes → Except EncodingError α} {buffer : Bytes} {offset length : Nat} {x : α} :
    (ofWhole encode read).decode buffer offset length = .ok x ↔
      ∃ window, buffer.window offset length = .ok window ∧ read window = .ok x := by
  cases hw : buffer.window offset length with
  | error err => simp [ofWhole, hw, bind, Except.bind]
  | ok window => simp [ofWhole, hw, bind, Except.bind]

theorem unsigned_inverts : unsigned.Inverts :=
  inverts_ofWhole fun w => by simp only [BigEndian.toUInt64?_ofUInt64]

theorem signed_inverts : signed.Inverts :=
  inverts_ofWhole fun v => by simp only [BigEndian.toInt64?_ofInt64]

theorem text_inverts : text.Inverts :=
  inverts_ofWhole fun s => by simp [Utf8.decode_encode, String.ofList_toList]

theorem verbatim_inverts : verbatim.Inverts :=
  inverts_ofWhole fun _ => rfl

end Codec

/-- The codec of every kind of item inverts. -/
theorem ItemKind.codec_inverts (kind : ItemKind) : kind.codec.Inverts :=
  match kind with
  | .unsigned => Codec.unsigned_inverts
  | .signed => Codec.signed_inverts
  | .text => Codec.text_inverts
  | .verbatim => Codec.verbatim_inverts

end SecondaryIndex
