import SecondaryIndex.Proofs.Index.Entries

/-!
# Both halves of a two-way index

The two halves of a two-way index present one set of pairs, the forward half as it is and the
reverse half with key and value exchanged (`TwoWayIndex.presentation`). Every operation writes the
same pairs to both: adding inserts in both, and removing erases from both what is seen in both. That
the reverse half is read anew when it is erased from does no harm, since a view that shows the pairs
shows them in both halves or in none.

Removing all pairs of a key is the one operation in which the reverse half is driven by the physical
keys of the forward half. Its loop is `eraseReverseWithin_acts`, by induction on the physical keys: the
view changes with every round, but what it shows of the pairs still to come does not.
-/

namespace SecondaryIndex

namespace TwoWayIndex

variable {K V : Type} {index : TwoWayIndex K V} {f : Place → Option Bytes}
  {c : Changes Place Bytes}

/-- The pairs of a two-way index are presented in both namespaces. -/
def presentation (index : TwoWayIndex K V) : Presentation Place Bytes (K × V) Unit where
  views f g := index.forward.Shows f g ∧ index.reverse.Shows f (g ∘ Prod.swap)
  changes c d := index.forward.Writes c d ∧ index.reverse.Writes c (d ∘ Prod.swap)
  nothing := ⟨.nothing _, .nothing _⟩
  after h h' := ⟨h.1.after h'.1, h.2.after h'.2⟩
  applyTo h h' := ⟨h.1.applyTo h'.1, h.2.applyTo h'.2⟩

/-- Both halves have codecs that invert, and a namespace of their own. -/
structure Sane (index : TwoWayIndex K V) : Prop where
  forward : index.forward.codec.Inverts
  reverse : index.reverse.codec.Inverts
  apart : index.forward.ns ≠ index.reverse.ns

/-- Two namespaces and codecs that invert make a sane index. -/
theorem sane_create {name : String} {forwardNs reverseNs : Namespace} {keys : Codec K}
    {values : Codec V} {options : IndexOptions} (hkeys : keys.Inverts) (hvalues : values.Inverts)
    (hne : forwardNs ≠ reverseNs) : (create name forwardNs reverseNs keys values options).Sane :=
  ⟨⟨hkeys, hvalues⟩, ⟨hvalues, hkeys⟩, hne⟩

/-- Writes to the forward half and then to the reverse half, of the same pairs. -/
theorem Sane.after (h : index.Sane) {c c' : Changes Place Bytes} {d : Changes (K × V) Unit}
    {d' : Changes (V × K) Unit} (hc : index.forward.WritesOnly c d)
    (hc' : index.reverse.WritesOnly c' d') (hd : d' = d ∘ Prod.swap) :
    index.presentation.changes (c'.after c) d := by
  have hforward : index.forward.Writes c' .nothing :=
    .of_elsewhere fun p => hc'.2 _ fun heq => h.apart heq
  have hreverse : index.reverse.Writes c .nothing :=
    .of_elsewhere fun p => hc.2 _ fun heq => h.apart heq.symm
  refine ⟨?_, ?_⟩
  · have hafter := hc.1.after hforward
    rwa [Changes.nothing_after] at hafter
  · have hafter := hreverse.after hc'.1
    rwa [Changes.after_nothing, hd] at hafter

/-- The view of the reverse half is not changed by writes to the forward half. -/
theorem Sane.shows_reverse (h : index.Sane) {d : Changes (K × V) Unit} {g : V × K → Option Unit}
    (hc : index.forward.WritesOnly c d) (hf : index.reverse.Shows f g) :
    index.reverse.Shows (c.applyTo f) g := by
  have hreverse : index.reverse.Writes c .nothing :=
    .of_elsewhere fun p => hc.2 _ fun heq => h.apart heq.symm
  exact hreverse.applyTo hf

section Acts

variable [DecidableEq K] [DecidableEq V] {live : Prop} {spaces : List Namespace} {id : TransactionId}
  {key : K} {value : V} {g : K × V → Option Unit}

/-- A pair inserted into both halves is presented as one pair. -/
theorem insert_acts (h : index.Sane) (hforward : index.forward.ns ∈ spaces)
    (hreverse : index.reverse.ns ∈ spaces) (hkey : live → index.forward.codec.Fits key)
    (hvalue : live → index.reverse.codec.Fits value) :
    Acts live spaces id f
      (do index.forward.insertWithin id key value
          index.reverse.insertWithin id value key) fun c _ =>
      index.presentation.changes c (.single (key, value) (some ())) := by
  -- a blind write in each half, of the same pair
  refine .bind (Index.insertWithin_acts h.forward hforward hkey) ?_
  rintro c ⟨⟩ hc
  refine .mono (Index.insertWithin_acts h.reverse hreverse hvalue) ?_
  rintro c' ⟨⟩ hc'
  refine h.after hc hc' (funext fun vk => ?_)
  obtain ⟨v, k⟩ := vk
  simp only [Changes.single, Function.comp, Prod.swap_prod_mk, Prod.mk.injEq, and_comm]

theorem erasing_swap : Changes.erasing (g ∘ Prod.swap) (value, key) =
    Changes.erasing g (key, value) ∘ Prod.swap := by
  funext vk
  obtain ⟨v, k⟩ := vk
  simp only [Changes.erasing, Function.comp, Prod.swap_prod_mk]
  split
  · simp only [Changes.single, Prod.mk.injEq, and_comm]
  · rfl

/-- A pair removed from both halves is presented as one pair removed. -/
theorem erase_acts (h : index.Sane) (hf : index.presentation.views f g)
    (hforward : index.forward.ns ∈ spaces) (hreverse : index.reverse.ns ∈ spaces)
    (hkey : live → index.forward.codec.Fits key) (hvalue : live → index.reverse.codec.Fits value) :
    Acts live spaces id f
      (do let removed ← index.forward.eraseWithin id key value
          let _ ← index.reverse.eraseWithin id value key
          pure removed) fun c _ =>
      index.presentation.changes c (.erasing g (key, value)) := by
  -- what the forward half has erased is not in the way of what the reverse half sees
  refine .bind (Index.eraseWithin_acts h.forward hf.1 hforward hkey) ?_
  rintro c removed ⟨-, hc⟩
  refine .bind (Index.eraseWithin_acts h.reverse (h.shows_reverse hc hf.2) hreverse hvalue) ?_
  rintro c' _ ⟨-, hc'⟩
  refine .pure ?_
  rw [Changes.nothing_after]
  exact h.after hc hc' erasing_swap

open Classical in
/-- The removal, from the reverse half, of the pairs of some forward physical keys of a key. -/
noncomputable def erasingListed (index : TwoWayIndex K V) (key : K) (keys : List Bytes)
    (g : V × K → Option Unit) : Changes (V × K) Unit :=
  fun vk => if vk.2 = key ∧ (∃ p ∈ keys, index.forward.codec.encode key vk.1 = .ok p) ∧
    (g vk).isSome then some none else none

omit [DecidableEq V] in
theorem erasingListed_nil (g : V × K → Option Unit) :
    index.erasingListed key [] g = .nothing := by
  funext vk
  simp [erasingListed, Changes.nothing]

/-- Removing one pair and then the others, of which it is none any more, is removing them all. -/
theorem erasingListed_cons (h : index.Sane) {p : Bytes} {keys : List Bytes} {g : V × K → Option Unit}
    (hp : index.forward.codec.encode key value = .ok p) :
    (index.erasingListed key keys ((Changes.erasing g (value, key)).applyTo g)).after
      (.erasing g (value, key)) = index.erasingListed key (p :: keys) g := by
  funext vk
  -- the pair of the first key is erased first, and the list erases the others as it did
  by_cases hvk : vk = (value, key)
  · subst hvk
    have hgone : (Changes.erasing g (value, key)).applyTo g (value, key) = none := by
      unfold Changes.applyTo Changes.erasing
      cases g (value, key) <;> simp [Changes.single, Changes.nothing]
    have hfirst : ∃ q ∈ p :: keys, index.forward.codec.encode key value = .ok q :=
      ⟨p, List.mem_cons_self, hp⟩
    simp only [Changes.after, erasingListed, hgone, Option.isSome_none, Bool.false_eq_true, and_false,
      if_false, Option.none_or, hfirst, true_and]
    unfold Changes.erasing
    cases g (value, key) <;> simp [Changes.single, Changes.nothing]
  · have herasing : Changes.erasing g (value, key) vk = none := by
      unfold Changes.erasing
      split
      · simp [Changes.single, hvk]
      · rfl
    have hsame : (Changes.erasing g (value, key)).applyTo g vk = g vk := by
      rw [Changes.applyTo, herasing, Option.getD_none]
    have hnot : vk.2 = key → ¬ index.forward.codec.encode key vk.1 = .ok p := by
      intro hkey henc
      obtain ⟨-, hvalue⟩ := EntryCodec.encode_injective h.forward henc hp
      exact hvk (Prod.ext hvalue hkey)
    have hcond : (vk.2 = key ∧ (∃ q ∈ p :: keys, index.forward.codec.encode key vk.1 = .ok q) ∧
        (g vk).isSome) ↔
        (vk.2 = key ∧ (∃ q ∈ keys, index.forward.codec.encode key vk.1 = .ok q) ∧ (g vk).isSome) := by
      refine and_congr_right fun hkey => and_congr_left fun _ => ?_
      simp [hnot hkey]
    simp only [Changes.after, herasing, Option.or_none, erasingListed, hsame, hcond]

/-- Erasing the reverse entries of forward entries of a key erases those pairs that are still seen. -/
theorem eraseReverseWithin_acts (h : index.Sane) (hreverse : index.reverse.ns ∈ spaces)
    {g : V × K → Option Unit} (hf : index.reverse.Shows f g) {keys : List Bytes}
    (hkeys : ∀ p ∈ keys, ∃ value, index.forward.codec.encode key value = .ok p ∧
      index.reverse.codec.Fits value) :
    Acts live spaces id f (index.eraseReverseWithin id key keys) fun c _ =>
      index.reverse.WritesOnly c (index.erasingListed key keys g) := by
  unfold eraseReverseWithin
  -- along the physical keys; each round removes its pair from the view of the next one
  induction keys generalizing f g with
  | nil =>
    refine .pure ?_
    rw [erasingListed_nil]
    exact .nothing _
  | cons p keys ih =>
    obtain ⟨value, hp, hfits⟩ := hkeys p List.mem_cons_self
    rw [List.forM_eq_forM, List.forM_cons, ← List.forM_eq_forM]
    -- one round: the value is read back, and its pair erased
    have hround : Acts live spaces id f
        (do let value ← IndexM.ofEncoding (index.forward.codec.readValue p)
            let _ ← index.reverse.eraseWithin id value key
            pure ()) fun c _ => index.reverse.WritesOnly c (.erasing g (value, key)) := by
      have hread : Acts live spaces id f
          (IndexM.ofEncoding (index.forward.codec.readValue p)) fun c v => c = .nothing ∧ v = value := by
        have hok := EntryCodec.readValue_of_encode h.forward.2 hp
        refine .encoding (fun v hv => ⟨rfl, ?_⟩) fun _ => ⟨value, hok⟩
        exact Except.ok.inj (hv.symm.trans hok)
      refine .bind hread ?_
      rintro c v ⟨rfl, rfl⟩
      refine .bind (Index.eraseWithin_acts h.reverse hf hreverse fun _ => hfits) ?_
      rintro c _ ⟨-, hc⟩
      refine .pure ?_
      rw [Changes.nothing_after, Changes.after_nothing]
      exact hc
    refine .bind hround ?_
    rintro c ⟨⟩ hc
    refine .mono (ih (hc.1.applyTo hf) fun q hq => hkeys q (List.mem_cons_of_mem _ hq)) ?_
    rintro c' ⟨⟩ hc'
    rw [← erasingListed_cons h hp]
    exact hc.after hc'

/-- The removal of a key is presented as the removal of its pairs, and counts them. -/
theorem eraseAll_acts (h : index.Sane) (hf : index.presentation.views f g)
    (hforward : index.forward.ns ∈ spaces) (hreverse : index.reverse.ns ∈ spaces)
    (hkey : live → index.forward.codec.Fits key) :
    Acts live spaces id f
      (do let doomed ← index.forward.eraseAllWithin id key
          index.eraseReverseWithin id key doomed
          pure doomed.length) fun c n =>
      index.presentation.changes c (.erasingAll g key) ∧
        ∃ values, Lists (index.forward.codec.values.encode · < index.forward.codec.values.encode ·)
          (fun value => (g (key, value)).isSome) values ∧ n = values.length := by
  refine .bind (Index.eraseAllWithin_acts h.forward hf.1 hforward hkey) ?_
  rintro c keys ⟨hc, lower, upper, hspan, hkeys⟩
  obtain ⟨values, hencoded, hvalues⟩ := Index.exists_values h.forward hf.1 hspan hkeys
  -- the physical keys are those of the pairs of the key that are seen
  have hmem (p : Bytes) : p ∈ keys ↔
      ∃ value, index.forward.codec.encode key value = .ok p ∧ (g (key, value)).isSome := by
    rw [hkeys.mem_iff]
    constructor
    · rintro ⟨hrange, hsome⟩
      obtain ⟨⟨k, v⟩, henc, hg⟩ := hf.1.exists_pair h.forward hsome
      obtain rfl := (EntryCodec.contains_iff h.forward.1 hspan henc).1 hrange
      exact ⟨v, henc, hg⟩
    · rintro ⟨v, henc, hg⟩
      exact ⟨(EntryCodec.contains_iff h.forward.1 hspan henc).2 rfl,
        (hf.1.isSome_iff h.forward henc).trans hg⟩
  refine .bind (eraseReverseWithin_acts h hreverse (h.shows_reverse hc hf.2) fun p hp => ?_) ?_
  · obtain ⟨v, henc, hg⟩ := (hmem p).1 hp
    exact ⟨v, henc, hf.2.fits (v, key) hg⟩
  · rintro c' ⟨⟩ hc'
    refine .pure ⟨?_, values, hvalues, ?_⟩
    · rw [Changes.nothing_after]
      refine h.after hc hc' (funext fun vk => ?_)
      obtain ⟨v, k⟩ := vk
      simp only [erasingListed, Changes.erasingAll, Function.comp, Prod.swap_prod_mk]
      by_cases hk : k = key
      · subst hk
        by_cases hg : (g (k, v)).isSome = true
        · obtain ⟨p, henc⟩ := EntryCodec.exists_encode (hf.1.fits (k, v) hg) v
          have hlisted : ∃ p ∈ keys, index.forward.codec.encode k v = .ok p :=
            ⟨p, (hmem p).2 ⟨v, henc, hg⟩, henc⟩
          simp [hlisted]
        · simp [hg]
      · simp [hk]
    · rw [hencoded.length_eq, List.length_map]

end Acts

end TwoWayIndex

end SecondaryIndex
