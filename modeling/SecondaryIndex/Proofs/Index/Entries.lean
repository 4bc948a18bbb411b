import SecondaryIndex.Index.AnyIndex
import SecondaryIndex.Proofs.Index.Program
import SecondaryIndex.Proofs.Layout.Pairs
import SecondaryIndex.Proofs.Ledger.Presentation

/-!
# Entries that present pairs

An index is a set of pairs, and its namespace presents the set: a pair is there if its physical key
is, and nothing else is there (`Index.presentation`). The three parts that operations within a
transaction are made of write accordingly. Inserting writes one pair (`insertWithin_acts`), erasing
a pair writes its removal if it is seen and nothing otherwise (`eraseWithin_acts`), and erasing all
pairs of a key writes the removal of those that are seen (`eraseAllWithin_acts`). None of them writes
elsewhere.

Where nothing but entries is seen (`Index.OnlyEntries`), whoever lists physical keys has listed pairs, in the
order of pairs (`OnlyEntries.exists_pairs`).
-/

namespace SecondaryIndex

/-- A list of exactly the members of a set, in an order. -/
structure Lists {β : Type} (before : β → β → Prop) (S : β → Prop) (l : List β) : Prop where
  sorted : l.Pairwise before
  mem_iff : ∀ x, x ∈ l ↔ S x

/-- A list lists every set of the same elements. -/
theorem Lists.congr {β : Type} {before : β → β → Prop} {S T : β → Prop} {l : List β}
    (h : Lists before S l) (hiff : ∀ x, S x ↔ T x) : Lists before T l :=
  ⟨h.sorted, fun x => (h.mem_iff x).trans (hiff x)⟩

namespace Changes

variable {K V : Type} [DecidableEq K] [DecidableEq V]

/-- The removal of a pair that is there; one that is absent is not written to. -/
def erasing (g : K × V → Option Unit) (kv : K × V) : Changes (K × V) Unit :=
  if (g kv).isSome then .single kv none else .nothing

omit [DecidableEq V] in
/-- The removal of all pairs of a key that are there. -/
def erasingAll (g : K × V → Option Unit) (key : K) : Changes (K × V) Unit :=
  fun kv => if kv.1 = key ∧ (g kv).isSome then some none else none

end Changes

namespace Index

variable {K V : Type} {index : Index K V} {f : Place → Option Bytes} {g : K × V → Option Unit}
  {c : Changes Place Bytes} {d : Changes (K × V) Unit}

/-- A view shows a set of pairs in the namespace of an index. -/
structure Shows (index : Index K V) (f : Place → Option Bytes) (g : K × V → Option Unit) :
    Prop where
  entry : ∀ p, f (index.ns, p) = ((index.codec.pair? p).bind g).map fun _ => emptyValue
  fits : ∀ kv, (g kv).isSome → index.codec.Fits kv.1

/-- Writes to the namespace of an index are those of writes to pairs. -/
structure Writes (index : Index K V) (c : Changes Place Bytes) (d : Changes (K × V) Unit) :
    Prop where
  entry : ∀ p, c (index.ns, p) =
    ((index.codec.pair? p).bind d).map (Option.map fun _ => emptyValue)
  fits : ∀ kv, (d kv).isSome → index.codec.Fits kv.1

theorem Writes.nothing (index : Index K V) : index.Writes .nothing .nothing where
  entry p := by cases index.codec.pair? p <;> rfl
  fits kv h := by cases h

/-- Changes presented as changes of pairs are so one after the other. -/
theorem Writes.after {c' : Changes Place Bytes} {d' : Changes (K × V) Unit}
    (h : index.Writes c d) (h' : index.Writes c' d') : index.Writes (c'.after c) (d'.after d) where
  entry p := by
    show (c' (index.ns, p)).or (c (index.ns, p)) = _
    rw [h.entry p, h'.entry p]
    cases index.codec.pair? p with
    | none => rfl
    | some kv =>
      show ((d' kv).map _).or ((d kv).map _) = ((d' kv).or (d kv)).map _
      cases d' kv <;> rfl
  fits kv hkv := by
    rw [Changes.after, Option.isSome_or, Bool.or_eq_true] at hkv
    exact hkv.elim (h'.fits kv) (h.fits kv)

/-- Changes of records applied to what shows some pairs show the changed pairs. -/
theorem Writes.applyTo (h : index.Writes c d) (hf : index.Shows f g) :
    index.Shows (c.applyTo f) (d.applyTo g) where
  entry p := by
    show (c (index.ns, p)).getD (f (index.ns, p)) = _
    rw [h.entry p, hf.entry p]
    cases index.codec.pair? p with
    | none => rfl
    | some kv =>
      show ((d kv).map _).getD ((g kv).map _) = ((d kv).getD (g kv)).map _
      cases d kv <;> rfl
  fits kv hkv := by
    cases hd : d kv with
    | some slot => exact h.fits kv (by rw [hd]; rfl)
    | none =>
      rw [Changes.applyTo, hd] at hkv
      exact hf.fits kv hkv

/-- The pairs of an index are presented by the physical keys in its namespace. -/
def presentation (index : Index K V) : Presentation Place Bytes (K × V) Unit where
  views := index.Shows
  changes := index.Writes
  nothing := .nothing index
  after := Writes.after
  applyTo := Writes.applyTo

/-- Writes to other namespaces are no writes to pairs. -/
theorem Writes.of_elsewhere (h : ∀ p, c (index.ns, p) = none) : index.Writes c .nothing where
  entry p := by
    rw [h p]
    cases index.codec.pair? p <;> rfl
  fits kv hkv := by cases hkv

/-- A pair is seen if its physical key is. -/
theorem Shows.isSome_iff (h : index.Shows f g) (hinv : index.codec.Inverts) {key : K} {value : V}
    {p : Bytes} (hp : index.codec.encode key value = .ok p) :
    (f (index.ns, p)).isSome = (g (key, value)).isSome := by
  rw [h.entry p, (EntryCodec.pair?_eq_some_iff hinv).2 hp, Option.isSome_map]
  rfl

/-- Every physical key that is seen is that of a pair. -/
theorem Shows.exists_pair (h : index.Shows f g) (hinv : index.codec.Inverts) {p : Bytes}
    (hp : (f (index.ns, p)).isSome) :
    ∃ kv : K × V, index.codec.encode kv.1 kv.2 = .ok p ∧ (g kv).isSome := by
  rw [h.entry p, Option.isSome_map] at hp
  cases hpair : index.codec.pair? p with
  | none =>
    rw [hpair] at hp
    cases hp
  | some kv =>
    rw [hpair] at hp
    exact ⟨kv, (EntryCodec.pair?_eq_some_iff hinv).1 hpair, hp⟩

/-! ### Lists of physical keys -/

/-- A physical key is that of an entry. -/
def Entry (index : Index K V) (physical : Bytes) : Prop :=
  ∃ key value, index.codec.encode key value = .ok physical

/-- Nothing but entries is seen in the namespace of an index. -/
def OnlyEntries (index : Index K V) (f : Place → Option Bytes) : Prop :=
  ∀ p, (f (index.ns, p)).isSome → index.Entry p

/-- A pair is stored where a view shows its physical key. -/
def Stores (index : Index K V) (view : Place → Option Bytes) (key : K) (value : V) : Prop :=
  ∃ physical, index.codec.encode key value = .ok physical ∧ (view (index.ns, physical)).isSome

instance (index : Index K V) (view : Place → Option Bytes) (key : K) (value : V) :
    Decidable (index.Stores view key value) :=
  match hencode : index.codec.encode key value with
  | .ok physical => decidable_of_iff ((view (index.ns, physical)).isSome = true)
    ⟨fun hsome => ⟨physical, hencode, hsome⟩, fun ⟨_, hsame, hsome⟩ =>
      Except.ok.inj (hencode.symm.trans hsame) ▸ hsome⟩
  | .error _ => .isFalse fun ⟨_, hsame, _⟩ => nomatch hencode.symm.trans hsame

/-- What shows pairs holds nothing but entries. -/
theorem Shows.onlyEntries (h : index.Shows f g) (hinv : index.codec.Inverts) : index.OnlyEntries f := by
  intro p hp
  obtain ⟨kv, henc, -⟩ := h.exists_pair hinv hp
  exact ⟨kv.1, kv.2, henc⟩

/-- A pair is stored where it is shown. -/
theorem Shows.stores_iff {key : K} {value : V} (h : index.Shows f g) (hinv : index.codec.Inverts) :
    index.Stores f key value ↔ (g (key, value)).isSome := by
  constructor
  · rintro ⟨p, henc, hsome⟩
    rwa [← h.isSome_iff hinv henc]
  · intro hsome
    obtain ⟨p, henc⟩ := EntryCodec.exists_encode (h.fits _ hsome) value
    refine ⟨p, henc, ?_⟩
    rwa [h.isSome_iff hinv henc]

/-- What is listed of a namespace are the physical keys of pairs, in the order of the pairs. -/
theorem OnlyEntries.exists_pairs (h : index.OnlyEntries f) (hinv : index.codec.Inverts)
    {range : Range} {keys : List Bytes} (hkeys : Listing f index.ns range keys) :
    ∃ pairs, index.codec.Encoded keys pairs ∧
      Lists index.codec.Before (fun kv => ∃ p, index.codec.encode kv.1 kv.2 = .ok p ∧
        range.contains p = true ∧ (f (index.ns, p)).isSome) pairs := by
  obtain ⟨pairs, hpairs⟩ := EntryCodec.exists_encoded fun p hp => by
    obtain ⟨key, value, henc⟩ := h p ((hkeys.mem_iff p).1 hp).2
    exact ⟨(key, value), henc⟩
  refine ⟨pairs, hpairs, hpairs.pairwise_before hkeys.sorted, fun kv => ?_⟩
  rw [hpairs.mem_iff hinv]
  simp only [hkeys.mem_iff, and_comm (b := index.codec.encode kv.1 kv.2 = _)]

/-- What is listed of the range of a key are the physical keys of its values, in the order of their
bytes. -/
theorem OnlyEntries.exists_values (h : index.OnlyEntries f) (hinv : index.codec.Inverts) {key : K}
    {lower : Bytes} {upper : Bound} (hspan : index.codec.span key = .ok (lower, upper))
    {keys : List Bytes} (hkeys : Listing f index.ns ⟨.included lower, upper⟩ keys) :
    ∃ values, index.codec.Encoded keys (values.map (key, ·)) ∧
      Lists (index.codec.values.encode · < index.codec.values.encode ·)
        (index.Stores f key) values := by
  obtain ⟨pairs, hpairs, hsorted, hmem⟩ := h.exists_pairs hinv hkeys
  -- the range of a key holds pairs of that key only
  have hkey : ∀ kv ∈ pairs, kv.1 = key := by
    intro kv hkv
    obtain ⟨p, henc, hrange, -⟩ := (hmem kv).1 hkv
    exact (EntryCodec.contains_iff hinv.1 hspan henc).1 hrange
  have hvalues : (pairs.map Prod.snd).map (key, ·) = pairs := by
    rw [List.map_map]
    refine (List.map_congr_left fun kv hkv => ?_).trans (List.map_id _)
    exact Prod.ext (hkey kv hkv).symm rfl
  refine ⟨pairs.map Prod.snd, hvalues.symm ▸ hpairs, List.pairwise_map.2 ?_, fun value => ?_⟩
  · refine hsorted.imp_of_mem fun {a b} ha hb hab => ?_
    obtain ⟨k, v⟩ := a
    obtain ⟨k', v'⟩ := b
    obtain rfl : k = key := hkey _ ha
    obtain rfl : k' = k := hkey _ hb
    exact EntryCodec.before_iff_of_key_eq.1 hab
  · have hmem' : value ∈ pairs.map Prod.snd ↔ (key, value) ∈ pairs := by
      constructor
      · rintro hv
        obtain ⟨kv, hkv, rfl⟩ := List.mem_map.1 hv
        rwa [← hkey kv hkv]
      · exact fun h => List.mem_map.2 ⟨_, h, rfl⟩
    rw [hmem', hmem]
    refine exists_congr fun p => and_congr_right fun henc => and_iff_right ?_
    exact (EntryCodec.contains_iff hinv.1 hspan henc).2 rfl

/-- The values that are listed of the range of a key are those of a set of pairs. -/
theorem exists_values (hinv : index.codec.Inverts) (hf : index.Shows f g) {key : K} {lower : Bytes}
    {upper : Bound} (hspan : index.codec.span key = .ok (lower, upper)) {keys : List Bytes}
    (hkeys : Listing f index.ns ⟨.included lower, upper⟩ keys) :
    ∃ values, index.codec.Encoded keys (values.map (key, ·)) ∧
      Lists (index.codec.values.encode · < index.codec.values.encode ·)
        (fun value => (g (key, value)).isSome) values := by
  obtain ⟨values, hencoded, hvalues⟩ := (hf.onlyEntries hinv).exists_values hinv hspan hkeys
  exact ⟨values, hencoded, hvalues.congr fun value => hf.stores_iff hinv⟩

/-! ### What operations write -/

/-- A write to a physical key is a write to its pair. -/
theorem Writes.single [DecidableEq K] [DecidableEq V] (hinv : index.codec.Inverts) {key : K}
    {value : V} {p : Bytes} (hp : index.codec.encode key value = .ok p) (slot : Option Unit) :
    index.Writes (.single (index.ns, p) (slot.map fun _ => emptyValue)) (.single (key, value) slot) where
  entry q := by
    simp only [Changes.single, Prod.mk.injEq, true_and]
    cases hq : index.codec.pair? q with
    | none =>
      have hne : q ≠ p := by
        rintro rfl
        rw [(EntryCodec.pair?_eq_some_iff hinv).2 hp] at hq
        cases hq
      simp [hne]
    | some kv =>
      have henc := (EntryCodec.pair?_eq_some_iff hinv).1 hq
      by_cases hkv : kv = (key, value)
      · have hqp : q = p := by
          rw [hkv] at henc
          exact Except.ok.inj (henc.symm.trans hp)
        simp [Changes.single, hkv, hqp]
      · have hne : q ≠ p := by
          rintro rfl
          obtain ⟨hkey, hvalue⟩ := EntryCodec.encode_injective hinv henc hp
          exact hkv (Prod.ext hkey hvalue)
        simp [Changes.single, hkv, hne]
  fits kv hkv := by
    by_cases h : kv = (key, value)
    · rw [h]
      exact EntryCodec.fits_of_encode hp
    · simp [Changes.single, h] at hkv

/-- Removing the physical keys in the range of a key removes the pairs of the key. -/
theorem Writes.removing [DecidableEq K] (hinv : index.codec.Inverts) (hf : index.Shows f g)
    {key : K} {lower : Bytes} {upper : Bound} (hspan : index.codec.span key = .ok (lower, upper))
    {keys : List Bytes} (hkeys : Listing f index.ns ⟨.included lower, upper⟩ keys) :
    index.Writes (.removing index.ns keys) (.erasingAll g key) where
  entry p := by
    simp only [Changes.removing, true_and]
    cases hp : index.codec.pair? p with
    | none =>
      have hnot : p ∉ keys := by
        intro hmem
        obtain ⟨kv, henc, -⟩ := hf.exists_pair hinv ((hkeys.mem_iff p).1 hmem).2
        rw [(EntryCodec.pair?_eq_some_iff hinv).2 henc] at hp
        cases hp
      simp [hnot]
    | some kv =>
      have henc := (EntryCodec.pair?_eq_some_iff hinv).1 hp
      -- listed are exactly the physical keys of the pairs to be removed
      have hmem : p ∈ keys ↔ kv.1 = key ∧ (g kv).isSome := by
        rw [hkeys.mem_iff, EntryCodec.contains_iff hinv.1 hspan henc, hf.isSome_iff hinv henc]
      by_cases h : kv.1 = key ∧ (g kv).isSome
      · simp [Changes.erasingAll, h, hmem.2 h]
      · have hnot : p ∉ keys := fun hp => h (hmem.1 hp)
        simp [Changes.erasingAll, h, hnot]
  fits kv hkv := by
    by_cases h : kv.1 = key ∧ (g kv).isSome
    · exact hf.fits kv h.2
    · simp [Changes.erasingAll, h] at hkv

section Acts

variable {live : Prop} {spaces : List Namespace} {id : TransactionId} {key : K} {value : V}

/-- Writes in the namespace of an index, and nowhere else. -/
def WritesOnly (index : Index K V) (c : Changes Place Bytes) (d : Changes (K × V) Unit) : Prop :=
  index.Writes c d ∧ ∀ x, x.1 ≠ index.ns → c x = none

theorem WritesOnly.nothing (index : Index K V) : index.WritesOnly .nothing .nothing :=
  ⟨.nothing index, fun _ _ => rfl⟩

theorem WritesOnly.after {c' : Changes Place Bytes} {d' : Changes (K × V) Unit}
    (h : index.WritesOnly c d) (h' : index.WritesOnly c' d') :
    index.WritesOnly (c'.after c) (d'.after d) :=
  ⟨h.1.after h'.1, fun x hx => by rw [Changes.after, h.2 x hx, h'.2 x hx, Option.or_none]⟩

/-- A change of one record is the change of the pair it encodes. -/
theorem WritesOnly.single [DecidableEq K] [DecidableEq V] (hinv : index.codec.Inverts) {p : Bytes}
    (hp : index.codec.encode key value = .ok p) (slot : Option Unit) :
    index.WritesOnly (.single (index.ns, p) (slot.map fun _ => emptyValue))
      (.single (key, value) slot) := by
  refine ⟨.single hinv hp slot, fun x hx => ?_⟩
  have hne : x ≠ (index.ns, p) := fun heq => hx (congrArg Prod.fst heq)
  simp [Changes.single, hne]

/-- An encoding changes nothing. -/
theorem encode_acts (hfits : live → index.codec.Fits key) :
    Acts live spaces id f (IndexM.ofEncoding (index.codec.encode key value)) fun c p =>
      c = .nothing ∧ index.codec.encode key value = .ok p :=
  .encoding (fun _ hp => ⟨rfl, hp⟩) fun hl => EntryCodec.exists_encode (hfits hl) value

/-- Inserting writes the physical key of the pair. -/
theorem insertWithin_puts (hns : index.ns ∈ spaces) (hfits : live → index.codec.Fits key) :
    Acts live spaces id f (index.insertWithin id key value) fun c _ =>
      ∃ p, index.codec.encode key value = .ok p ∧ c = .single (index.ns, p) (some emptyValue) := by
  refine .bind (encode_acts hfits) ?_
  rintro c p ⟨rfl, hp⟩
  refine .put hns ⟨p, hp, ?_⟩
  rw [Changes.after_nothing]

/-- An insertion is the change of one pair. -/
theorem insertWithin_acts [DecidableEq K] [DecidableEq V] (hinv : index.codec.Inverts)
    (hns : index.ns ∈ spaces) (hfits : live → index.codec.Fits key) :
    Acts live spaces id f (index.insertWithin id key value) fun c _ =>
      index.WritesOnly c (.single (key, value) (some ())) := by
  refine .mono (insertWithin_puts hns hfits) ?_
  rintro c ⟨⟩ ⟨p, hp, rfl⟩
  exact .single hinv hp (some ())

/-- Erasing removes the physical key of the pair if it is seen, and tells whether it is. -/
theorem eraseWithin_deletes (hns : index.ns ∈ spaces) (hfits : live → index.codec.Fits key) :
    Acts live spaces id f (index.eraseWithin id key value) fun c there =>
      ∃ p, index.codec.encode key value = .ok p ∧ there = (f (index.ns, p)).isSome ∧
        c = if (f (index.ns, p)).isSome then .single (index.ns, p) none else .nothing := by
  refine .bind (encode_acts hfits) ?_
  rintro c p ⟨rfl, hp⟩
  have hlookup : Acts live spaces id f (IndexM.ofEngine (Engine.lookup id index.ns p)) fun c slot =>
      c = .nothing ∧ slot = f (index.ns, p) := .lookup hns ⟨rfl, rfl⟩
  refine .bind hlookup ?_
  rintro c slot ⟨rfl, hslot⟩
  -- a pair that is absent is not written to, so that nothing conflicts over it
  cases slot with
  | none =>
    refine .pure ⟨p, hp, ?_⟩
    simp only [Changes.after_nothing, ← hslot]
    exact ⟨rfl, rfl⟩
  | some bytes =>
    have hdelete : Acts live spaces id f (IndexM.ofEngine (Engine.delete id index.ns p)) fun c _ =>
        c = .single (index.ns, p) none := .delete hns rfl
    refine .bind hdelete ?_
    rintro c ⟨⟩ rfl
    refine .pure ⟨p, hp, ?_⟩
    simp only [Changes.after_nothing, Changes.nothing_after, ← hslot]
    exact ⟨rfl, rfl⟩

/-- A removal is the change of one pair, and tells whether it was there. -/
theorem eraseWithin_acts [DecidableEq K] [DecidableEq V] (hinv : index.codec.Inverts)
    (hf : index.Shows f g) (hns : index.ns ∈ spaces) (hfits : live → index.codec.Fits key) :
    Acts live spaces id f (index.eraseWithin id key value) fun c there =>
      there = (g (key, value)).isSome ∧ index.WritesOnly c (.erasing g (key, value)) := by
  refine .mono (eraseWithin_deletes hns hfits) ?_
  rintro c there ⟨p, hp, rfl, rfl⟩
  rw [hf.isSome_iff hinv hp, Changes.erasing]
  refine ⟨rfl, ?_⟩
  split
  · exact .single hinv hp none
  · exact .nothing index

/-- The range of a key changes nothing and is its span. -/
theorem keyRange_acts (hfits : live → index.codec.Fits key) :
    Acts live spaces id f (index.keyRange key) fun c range => c = .nothing ∧
      ∃ lower upper, index.codec.span key = .ok (lower, upper) ∧ range = ⟨.included lower, upper⟩ := by
  have hspan : Acts live spaces id f (IndexM.ofEncoding (index.span key)) fun c span =>
      c = .nothing ∧ index.codec.span key = .ok span :=
    .encoding (fun span hspan => ⟨rfl, hspan⟩) fun hl => by
      obtain ⟨lower, upper, h⟩ := EntryCodec.exists_span (hfits hl)
      exact ⟨_, h⟩
  refine .bind hspan ?_
  rintro c ⟨lower, upper⟩ ⟨rfl, hspan⟩
  exact .pure ⟨Changes.after_nothing _, lower, upper, hspan, rfl⟩

/-- Erasing the pairs of a key removes the physical keys that are seen in its range. -/
theorem eraseAllWithin_deletes (hns : index.ns ∈ spaces) (hfits : live → index.codec.Fits key) :
    Acts live spaces id f (index.eraseAllWithin id key) fun c keys =>
      c = .removing index.ns keys ∧ ∃ lower upper, index.codec.span key = .ok (lower, upper) ∧
        Listing f index.ns ⟨.included lower, upper⟩ keys := by
  rw [eraseAllWithin_eq]
  refine .bind (keyRange_acts hfits) ?_
  rintro c range ⟨rfl, lower, upper, hspan, rfl⟩
  -- all keys are listed before the first of them is removed
  have hdoomed : Acts live spaces id f
      (IndexM.withIterator id index.ns ⟨.included lower, upper⟩ fun iterator => do
        IndexM.ofEngine Engine.status
        pure iterator.keys) fun c keys =>
        c = .nothing ∧ Listing f index.ns ⟨.included lower, upper⟩ keys :=
    .look hns fun keys hkeys => ⟨rfl, hkeys⟩
  refine .bind hdoomed ?_
  rintro c keys ⟨rfl, hkeys⟩
  have hdeleted : Acts live spaces id f
      (keys.forM fun p => IndexM.ofEngine (Engine.delete id index.ns p)) fun c _ =>
        c = .removing index.ns keys := .deleteAll hns keys rfl
  refine .bind hdeleted ?_
  rintro c ⟨⟩ rfl
  refine .pure ⟨?_, lower, upper, hspan, hkeys⟩
  simp only [Changes.after_nothing, Changes.nothing_after]

/-- The removal of a key is the change of all its pairs, and lists the keys it deleted. -/
theorem eraseAllWithin_acts [DecidableEq K] (hinv : index.codec.Inverts)
    (hf : index.Shows f g) (hns : index.ns ∈ spaces) (hfits : live → index.codec.Fits key) :
    Acts live spaces id f (index.eraseAllWithin id key) fun c keys =>
      index.WritesOnly c (.erasingAll g key) ∧
        ∃ lower upper, index.codec.span key = .ok (lower, upper) ∧
          Listing f index.ns ⟨.included lower, upper⟩ keys := by
  refine .mono (eraseAllWithin_deletes hns hfits) ?_
  rintro c keys ⟨rfl, lower, upper, hspan, hkeys⟩
  refine ⟨⟨.removing hinv hf hspan hkeys, fun x hx => ?_⟩, lower, upper, hspan, hkeys⟩
  simp [Changes.removing, hx]

end Acts

end Index

end SecondaryIndex
