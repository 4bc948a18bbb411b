import SecondaryIndex.Codec.Lemmas
import SecondaryIndex.Proofs.Layout.Pairs
import SecondaryIndex.Proofs.Layout.Succession

/-!
# Writing and reading physical keys

`EntryCodec.inverse_exact` is the main result: joining and splitting are inverse to each other, on all
pairs whose key fits and on all byte strings that carry what their length bytes declare, and the items
of an entry are read from the two windows that splitting designates.

The typed readers are given offsets that are counted back from the end of the physical key. Since the
parts of a split fill the physical key behind its length bytes (`Layout.length_of_split`), nothing is
subtracted from less than itself, and the windows are the parts (`Layout.window_key`,
`Layout.window_value`).
-/

namespace SecondaryIndex

namespace Layout

variable {layout : Layout} {key key' value value' physical : Bytes}

/-- One byte counts the bytes of a compact key, and four bytes those of a wide one. -/
theorem width_eq (layout : Layout) :
    layout.width = match layout with
      | .compact => 1
      | .wide => 4 := by
  cases layout <;> rfl

theorem exists_join_iff : (∃ physical, layout.join key value = .ok physical) ↔
    key.length ≤ layout.keyLimit :=
  ⟨fun ⟨_, h⟩ => (join_eq_ok_iff.1 h).1, fun h => exists_join h value⟩

/-- Joining and splitting are inverse to each other. -/
theorem join_eq_ok_iff_split : layout.join key value = .ok physical ↔
    layout.split physical = .ok (key, value) :=
  ⟨split_join, join_of_split⟩

theorem exists_split_iff : (∃ parts, layout.split physical = .ok parts) ↔
    layout.width ≤ physical.length ∧
      BigEndian.toNat (physical.take layout.width) ≤ (physical.drop layout.width).length := by
  constructor
  · rintro ⟨parts, h⟩
    obtain ⟨hwidth, hdeclared, -⟩ := split_eq_ok_iff.1 h
    exact ⟨hwidth, hdeclared⟩
  · rintro ⟨hwidth, hdeclared⟩
    exact ⟨_, split_eq_ok_iff.2 ⟨hwidth, hdeclared, rfl⟩⟩

/-- A byte string is the physical key of one pair at most. -/
theorem join_injective (h : layout.join key value = .ok physical)
    (h' : layout.join key' value' = .ok physical) : key = key' ∧ value = value' := by
  rw [join_eq_ok_iff_split] at h h'
  rw [h] at h'
  exact Prod.mk.inj (Except.ok.inj h')

/-- The two parts fill a physical key behind its length bytes. -/
theorem length_of_split (h : layout.split physical = .ok (key, value)) :
    physical.length = layout.width + key.length + value.length := by
  obtain ⟨-, rfl⟩ := join_eq_ok_iff.1 (join_of_split h)
  simp only [List.length_append, BigEndian.length_ofNat]

theorem window_key (h : layout.split physical = .ok (key, value)) :
    physical.window layout.width key.length = .ok key := by
  obtain ⟨-, rfl⟩ := join_eq_ok_iff.1 (join_of_split h)
  simpa using Bytes.window_append (BigEndian.ofNat layout.width key.length) key value

theorem window_value (h : layout.split physical = .ok (key, value)) :
    physical.window (layout.width + key.length) value.length = .ok value := by
  obtain ⟨-, rfl⟩ := join_eq_ok_iff.1 (join_of_split h)
  simpa using Bytes.window_append (BigEndian.ofNat layout.width key.length ++ key) value []

end Layout

namespace EntryCodec

variable {K V : Type} {codec : EntryCodec K V} {physical key value : Bytes}

/-- The key is read from the window behind the length bytes. -/
theorem readKey_of_split (h : codec.layout.split physical = .ok (key, value)) :
    codec.readKey physical = codec.keys.decode physical codec.layout.width key.length := by
  have hoffset : physical.length - value.length - key.length = codec.layout.width := by
    rw [Layout.length_of_split h]
    omega
  unfold readKey
  simp only [h, bind, Except.bind, hoffset]

/-- The value is read from the window behind the key. -/
theorem readValue_of_split (h : codec.layout.split physical = .ok (key, value)) :
    codec.readValue physical =
      codec.values.decode physical (codec.layout.width + key.length) value.length := by
  have hoffset : physical.length - value.length = codec.layout.width + key.length := by
    rw [Layout.length_of_split h]
    omega
  unfold readValue
  simp only [h, bind, Except.bind, hoffset]

/-- What cannot be split is not read. -/
theorem read_of_split_error {err : EncodingError} (h : codec.layout.split physical = .error err) :
    codec.readKey physical = .error err ∧ codec.readValue physical = .error err := by
  unfold readKey readValue
  simp only [h, bind, Except.bind, and_self]

/-- Physical keys are written and split exactly: of all pairs, those whose key fits are joined, and of
all byte strings, those that carry the key bytes they declare are split, each into the one pair that
is joined to it. Items that invert are read back, and any byte string that splits is read at the two
windows of its parts, which lie in it one behind the other. -/
theorem inverse_exact {K V : Type} (codec : EntryCodec K V) :
    (∀ key value : Bytes, (∃ physical, codec.layout.join key value = .ok physical) ↔
      key.length ≤ match codec.layout with
        | .compact => 255
        | .wide => 2 ^ 32 - 1) ∧
    (∀ key value physical : Bytes, codec.layout.join key value = .ok physical ↔
      codec.layout.split physical = .ok (key, value)) ∧
    (∀ physical : Bytes, (∃ parts, codec.layout.split physical = .ok parts) ↔
      (match codec.layout with
        | .compact => 1
        | .wide => 4) ≤ physical.length ∧
      BigEndian.toNat (physical.take codec.layout.width) ≤
        (physical.drop codec.layout.width).length) ∧
    (∀ key value key' value' physical : Bytes, codec.layout.join key value = .ok physical →
      codec.layout.join key' value' = .ok physical → key = key' ∧ value = value') ∧
    (codec.Inverts → ∀ (key : K) (value : V) (physical : Bytes),
      codec.encode key value = .ok physical →
      codec.readKey physical = .ok key ∧ codec.readValue physical = .ok value) ∧
    (∀ physical key value : Bytes, codec.layout.split physical = .ok (key, value) →
      value.length ≤ physical.length ∧ key.length ≤ physical.length - value.length ∧
      physical.window codec.layout.width key.length = .ok key ∧
      codec.readKey physical = codec.keys.decode physical codec.layout.width key.length ∧
      physical.window (codec.layout.width + key.length) value.length = .ok value ∧
      codec.readValue physical =
        codec.values.decode physical (codec.layout.width + key.length) value.length) ∧
    ∀ physical err, codec.layout.split physical = .error err →
      codec.readKey physical = .error err ∧ codec.readValue physical = .error err := by
  have hlimit := Layout.keyLimit_eq codec.layout
  have hwidth := Layout.width_eq codec.layout
  refine ⟨fun key value => ?_, fun key value physical => Layout.join_eq_ok_iff_split,
    fun physical => ?_, fun key value key' value' physical => Layout.join_injective, ?_, ?_,
    fun physical err => read_of_split_error⟩
  · rw [Layout.exists_join_iff]
    exact iff_of_eq (congrArg (key.length ≤ ·) hlimit)
  · rw [Layout.exists_split_iff, hwidth]
  · intro hinv key value physical h
    exact ⟨readKey_of_encode hinv.1 h, readValue_of_encode hinv.2 h⟩
  · intro physical key value h
    -- the windows are those that the length bytes designate
    have hlength := Layout.length_of_split h
    exact ⟨by omega, by omega, Layout.window_key h, readKey_of_split h, Layout.window_value h,
      readValue_of_split h⟩

/-- An entry of text and a signed word, and a physical key that declares more than it carries. -/
theorem inverse_exact_of_text :
    (∃ physical, (⟨.wide, .text, .signed⟩ : EntryCodec String Int64).encode "é" (-1) = .ok physical ∧
      (⟨.wide, .text, .signed⟩ : EntryCodec String Int64).readKey physical = .ok "é" ∧
      (⟨.wide, .text, .signed⟩ : EntryCodec String Int64).readValue physical = .ok (-1)) ∧
    (⟨.wide, .text, .signed⟩ : EntryCodec String Int64).readKey [0, 0, 0, 9, 1] =
      .error (.truncatedKey 9 1) := by
  obtain ⟨-, -, -, -, hback, -, herror⟩ :=
    inverse_exact (⟨.wide, .text, .signed⟩ : EntryCodec String Int64)
  constructor
  · obtain ⟨physical, hphysical⟩ : ∃ physical,
        (⟨.wide, .text, .signed⟩ : EntryCodec String Int64).encode "é" (-1) = .ok physical :=
      ⟨_, rfl⟩
    exact ⟨physical, hphysical,
      hback ⟨Codec.text_inverts, Codec.signed_inverts⟩ "é" (-1) physical hphysical⟩
  · exact (herror [0, 0, 0, 9, 1] (.truncatedKey 9 1) (by decide)).1

end EntryCodec

end SecondaryIndex
