import Mathlib.Data.List.Forall2
import SecondaryIndex.Layout.EntryCodec
import SecondaryIndex.Proofs.Layout.Span

/-!
# Pairs and their physical keys

With codecs that invert, a physical key says which pair it stands for (`EntryCodec.pair?`): the key
and the value are read back from it (`readKey_of_encode`, `readValue_of_encode`), so it is the
physical key of that pair only (`pair?_eq_some_iff`). The range of a key holds exactly the physical
keys of its pairs, and `EntryCodec.Before` is the order in which they come.
-/

namespace SecondaryIndex

/-- Different items have different bytes. -/
theorem Codec.Inverts.injective {α : Type} {codec : Codec α} (h : codec.Inverts) {x y : α}
    (heq : codec.encode x = codec.encode y) : x = y := by
  have hread (z : α) : codec.decode (codec.encode z) 0 (codec.encode z).length = .ok z :=
    h _ 0 z (by simpa using Bytes.window_append [] (codec.encode z) [])
  have hx := hread x
  rw [heq, hread y] at hx
  exact (Except.ok.inj hx).symm

namespace EntryCodec

variable {K V : Type} {codec : EntryCodec K V} {key key' : K} {value value' : V}
  {physical physical' : Bytes}

/-- Both codecs invert. -/
def Inverts (codec : EntryCodec K V) : Prop := codec.keys.Inverts ∧ codec.values.Inverts

/-- The pair that a physical key stands for. -/
def pair? (codec : EntryCodec K V) (physical : Bytes) : Option (K × V) :=
  match codec.readKey physical, codec.readValue physical with
  | .ok key, .ok value =>
    match codec.encode key value with
    | .ok again => if again = physical then some (key, value) else none
    | .error _ => none
  | _, _ => none

/-- The order of pairs in a namespace: by the length of the key, then by key, then by value. -/
def Before (codec : EntryCodec K V) (a b : K × V) : Prop :=
  (codec.keys.encode a.1).length < (codec.keys.encode b.1).length ∨
    (codec.keys.encode a.1).length = (codec.keys.encode b.1).length ∧
      (codec.keys.encode a.1 < codec.keys.encode b.1 ∨
        codec.keys.encode a.1 = codec.keys.encode b.1 ∧
          codec.values.encode a.2 < codec.values.encode b.2)

/-- The order of the keys of these pairs. -/
def KeyBefore (codec : EntryCodec K V) (a b : K) : Prop :=
  (codec.keys.encode a).length < (codec.keys.encode b).length ∨
    (codec.keys.encode a).length = (codec.keys.encode b).length ∧
      codec.keys.encode a < codec.keys.encode b

/-! ### Reading back -/

/-- A stored key is split into the encodings of its pair. -/
theorem split_of_encode (h : codec.encode key value = .ok physical) :
    codec.layout.split physical = .ok (codec.keys.encode key, codec.values.encode value) :=
  Layout.split_join h

/-- The key of a pair is read back from its stored key. -/
theorem readKey_of_encode (hinv : codec.keys.Inverts) (h : codec.encode key value = .ok physical) :
    codec.readKey physical = .ok key := by
  unfold readKey
  simp only [split_of_encode h, bind, Except.bind]
  obtain ⟨-, hphysical⟩ := Layout.join_eq_ok_iff.1 h
  -- the key stands behind the length bytes
  have hoffset : physical.length - (codec.values.encode value).length -
      (codec.keys.encode key).length =
        (BigEndian.ofNat codec.layout.width (codec.keys.encode key).length).length := by
    simp only [hphysical, List.length_append]
    omega
  rw [hoffset]
  refine hinv _ _ key ?_
  rw [hphysical]
  exact Bytes.window_append _ _ _

/-- A physical key stands for one key. -/
theorem key_unique (hinv : codec.keys.Inverts) (h : codec.encode key value = .ok physical)
    (h' : codec.encode key' value' = .ok physical) : key = key' := by
  have hread := readKey_of_encode hinv h
  rw [readKey_of_encode hinv h'] at hread
  exact (Except.ok.inj hread).symm

/-- The value of a pair is read back from its stored key. -/
theorem readValue_of_encode (hinv : codec.values.Inverts)
    (h : codec.encode key value = .ok physical) : codec.readValue physical = .ok value := by
  unfold readValue
  simp only [split_of_encode h, bind, Except.bind]
  obtain ⟨-, hphysical⟩ := Layout.join_eq_ok_iff.1 h
  -- the value stands behind the key, at the end
  have hoffset : physical.length - (codec.values.encode value).length =
      (BigEndian.ofNat codec.layout.width (codec.keys.encode key).length ++
        codec.keys.encode key).length := by
    simp only [hphysical, List.length_append]
    omega
  rw [hoffset]
  refine hinv _ _ value ?_
  rw [hphysical]
  simpa using Bytes.window_append (BigEndian.ofNat codec.layout.width (codec.keys.encode key).length ++
    codec.keys.encode key) (codec.values.encode value) []

/-- A stored key is read as a pair exactly if it is the encoding of that pair. -/
theorem pair?_eq_some_iff (hinv : codec.Inverts) :
    codec.pair? physical = some (key, value) ↔ codec.encode key value = .ok physical := by
  constructor
  · intro h
    -- what was read is only taken for the pair if it is written as the same bytes again
    unfold pair? at h
    split at h
    · next k v _ _ =>
      split at h
      · next again hagain =>
        split at h
        · next heq =>
          cases h
          rw [hagain, heq]
        · cases h
      · cases h
    · cases h
  · intro h
    simp [pair?, readKey_of_encode hinv.1 h, readValue_of_encode hinv.2 h, h]

/-- A physical key stands for one pair. -/
theorem encode_injective (hinv : codec.Inverts) (h : codec.encode key value = .ok physical)
    (h' : codec.encode key' value' = .ok physical) : key = key' ∧ value = value' := by
  rw [← pair?_eq_some_iff hinv] at h h'
  exact Prod.mk.inj (Option.some.inj (h.symm.trans h'))

/-! ### Keys that fit -/

/-- Whether a key is short enough for the layout. -/
def Fits (codec : EntryCodec K V) (key : K) : Prop :=
  (codec.keys.encode key).length ≤ codec.layout.keyLimit

/-- A key that fits is encoded with every value. -/
theorem exists_encode (h : codec.Fits key) (value : V) :
    ∃ physical, codec.encode key value = .ok physical :=
  ⟨_, Layout.join_eq_ok_iff.2 ⟨h, rfl⟩⟩

theorem fits_of_encode (h : codec.encode key value = .ok physical) : codec.Fits key :=
  (Layout.join_eq_ok_iff.1 h).1

/-- A key that fits has a span. -/
theorem exists_span (h : codec.Fits key) : ∃ lower upper, codec.span key = .ok (lower, upper) :=
  Layout.span_eq_ok_of_le h

theorem fits_of_span {span : Bytes × Bound} (h : codec.span key = .ok span) : codec.Fits key := by
  obtain ⟨hstem, -⟩ := Layout.stem_of_span h
  exact (Layout.stem_eq_ok_iff.1 hstem).1

/-! ### Ranges and order -/

/-- The physical keys that begin with the stem of a key are those of its pairs. -/
theorem stem_prefix_iff (hinv : codec.keys.Inverts) {stem : Bytes}
    (hstem : codec.stem key = .ok stem) (h : codec.encode key' value' = .ok physical) :
    stem <+: physical ↔ key' = key := by
  rw [Layout.prefix_iff_split hstem]
  constructor
  · rintro ⟨rest, hsplit⟩
    rw [split_of_encode h] at hsplit
    exact hinv.injective (Prod.mk.inj (Except.ok.inj hsplit)).1
  · rintro rfl
    exact ⟨_, split_of_encode h⟩

/-- The range of a key holds the physical key of a pair if it is a pair of that key. -/
theorem contains_iff {lower : Bytes} {upper : Bound} (hinv : codec.keys.Inverts)
    (hspan : codec.span key = .ok (lower, upper)) (h : codec.encode key' value' = .ok physical) :
    (Range.contains ⟨.included lower, upper⟩ physical) = true ↔ key' = key := by
  obtain ⟨hstem, -⟩ := Layout.stem_of_span hspan
  rw [Layout.contains_iff_split hspan, ← Layout.prefix_iff_split hstem]
  exact stem_prefix_iff hinv hstem h

/-- Stored keys are in the order of their pairs. -/
theorem encode_lt_encode_iff (h : codec.encode key value = .ok physical)
    (h' : codec.encode key' value' = .ok physical') :
    physical < physical' ↔ codec.Before (key, value) (key', value') :=
  Layout.join_lt_join_iff h h'

theorem not_before_self (kv : K × V) : ¬ codec.Before kv kv := by
  simp [Before, Std.lt_irrefl]

/-- The values of one key come in the order of their bytes. -/
theorem before_iff_of_key_eq : codec.Before (key, value) (key, value') ↔
    codec.values.encode value < codec.values.encode value' := by
  simp [Before, Std.lt_irrefl]

/-! ### The order of keys -/

theorem not_keyBefore_self : ¬ codec.KeyBefore key key := by
  simp [KeyBefore, Std.lt_irrefl]

theorem KeyBefore.asymm (h : codec.KeyBefore key key') : ¬ codec.KeyBefore key' key := by
  intro h'
  obtain hlen | ⟨hlen, hlt⟩ := h <;> obtain hlen' | ⟨hlen', hlt'⟩ := h'
  · omega
  · omega
  · omega
  · exact Std.lt_irrefl (Std.lt_trans hlt hlt')

/-- A pair before another one does not have the later key. -/
theorem not_keyBefore_of_before (h : codec.Before (key, value) (key', value')) :
    ¬ codec.KeyBefore key' key := by
  intro h'
  dsimp only [Before] at h
  obtain hlen | ⟨hlen, hrest⟩ := h <;> obtain hlen' | ⟨hlen', hlt'⟩ := h'
  · omega
  · omega
  · omega
  · obtain hlt | ⟨heq, -⟩ := hrest
    · exact Std.lt_irrefl (Std.lt_trans hlt hlt')
    · exact Std.lt_irrefl (heq ▸ hlt')

/-- Two keys of which neither comes first are one. -/
theorem eq_of_not_keyBefore (hinv : codec.keys.Inverts) (h : ¬ codec.KeyBefore key key')
    (h' : ¬ codec.KeyBefore key' key) : key = key' := by
  simp only [KeyBefore, not_or, not_and, Nat.not_lt] at h h'
  have hlen : (codec.keys.encode key).length = (codec.keys.encode key').length :=
    Nat.le_antisymm h'.1 h.1
  have hle := Std.not_lt.1 (h.2 hlen)
  have hle' := Std.not_lt.1 (h'.2 hlen.symm)
  exact hinv.injective (Std.le_antisymm hle' hle)

/-- The stem of a key is itself a physical key, that of the empty value, and so comes before all
others of the key. -/
theorem encode_lt_stem_iff {stem : Bytes} (hstem : codec.stem key = .ok stem)
    (h : codec.encode key' value' = .ok physical) :
    physical < stem ↔ codec.KeyBefore key' key := by
  obtain ⟨hfits, hlower⟩ := Layout.stem_eq_ok_iff.1 hstem
  have hjoin : codec.layout.join (codec.keys.encode key) [] = .ok stem :=
    Layout.join_eq_ok_iff.2 ⟨hfits, by rw [hlower, List.append_nil]⟩
  rw [Layout.join_lt_join_iff h hjoin]
  simp [KeyBefore]

/-- A range of a key is open at its upper end, if it has one. -/
theorem upper_of_span {lower : Bytes} {upper : Bound} (h : codec.span key = .ok (lower, upper)) :
    upper = .unbounded ∨ ∃ bound, upper = .excluded bound := by
  obtain ⟨-, ⟨-, hupper⟩ | ⟨bound, -, hupper⟩⟩ := Layout.stem_of_span h
  · exact .inl hupper
  · exact .inr ⟨bound, hupper⟩

/-- The group of a physical key is the range of its key. -/
theorem spanOf_of_encode (h : codec.encode key value = .ok physical) :
    codec.layout.spanOf physical = codec.span key := Layout.spanOf_of_split (split_of_encode h)

/-! ### Lists of physical keys -/

/-- Physical keys, with the pairs that they stand for one by one. -/
def Encoded (codec : EntryCodec K V) (keys : List Bytes) (pairs : List (K × V)) : Prop :=
  List.Forall₂ (fun p kv => codec.encode kv.1 kv.2 = .ok p) keys pairs

/-- There is one stored key for each pair. -/
theorem Encoded.length_eq {keys : List Bytes} {pairs : List (K × V)}
    (h : codec.Encoded keys pairs) : keys.length = pairs.length := List.Forall₂.length_eq h

/-- Stored keys that are each the encoding of a pair are so as a list. -/
theorem exists_encoded {keys : List Bytes}
    (h : ∀ p ∈ keys, ∃ kv : K × V, codec.encode kv.1 kv.2 = .ok p) :
    ∃ pairs, codec.Encoded keys pairs := by
  induction keys with
  | nil => exact ⟨[], .nil⟩
  | cons p keys ih =>
    obtain ⟨kv, hkv⟩ := h p List.mem_cons_self
    obtain ⟨pairs, hpairs⟩ := ih fun q hq => h q (List.mem_cons_of_mem _ hq)
    exact ⟨kv :: pairs, .cons hkv hpairs⟩

/-- Every pair of a list has its stored key among the keys. -/
theorem Encoded.exists_of_mem {keys : List Bytes} {pairs : List (K × V)}
    (h : codec.Encoded keys pairs) {kv : K × V} (hkv : kv ∈ pairs) :
    ∃ p ∈ keys, codec.encode kv.1 kv.2 = .ok p := by
  induction h with
  | nil => cases hkv
  | @cons q qv keys pairs hq _ ih =>
    rcases List.mem_cons.1 hkv with rfl | hkv
    · exact ⟨q, List.mem_cons_self, hq⟩
    · obtain ⟨p, hp, henc⟩ := ih hkv
      exact ⟨p, List.mem_cons_of_mem _ hp, henc⟩

/-- The pairs of a list are those encoded by its keys. -/
theorem Encoded.mem_iff {keys : List Bytes} {pairs : List (K × V)} (h : codec.Encoded keys pairs)
    (hinv : codec.Inverts) {kv : K × V} :
    kv ∈ pairs ↔ ∃ p ∈ keys, codec.encode kv.1 kv.2 = .ok p := by
  refine ⟨h.exists_of_mem, ?_⟩
  induction h with
  | nil => simp
  | @cons q qv keys pairs hq _ ih =>
    rintro ⟨p, hp, henc⟩
    rcases List.mem_cons.1 hp with rfl | hp
    -- one physical key does not stand for two pairs
    · obtain ⟨hkey, hvalue⟩ := encode_injective hinv henc hq
      exact List.mem_cons.2 (.inl (Prod.ext hkey hvalue))
    · exact List.mem_cons_of_mem _ (ih ⟨p, hp, henc⟩)

/-- Ascending physical keys stand for pairs in their order. -/
theorem Encoded.pairwise_before {keys : List Bytes} {pairs : List (K × V)}
    (h : codec.Encoded keys pairs) (hsorted : keys.Pairwise (· < ·)) :
    pairs.Pairwise codec.Before := by
  induction h with
  | nil => exact .nil
  | @cons q qv keys pairs hq hrest ih =>
    obtain ⟨hfirst, hsorted⟩ := List.pairwise_cons.1 hsorted
    refine List.pairwise_cons.2 ⟨fun kv hkv => ?_, ih hsorted⟩
    obtain ⟨p, hp, henc⟩ := Encoded.exists_of_mem hrest hkv
    exact (encode_lt_encode_iff hq henc).1 (hfirst p hp)

end EntryCodec

end SecondaryIndex
