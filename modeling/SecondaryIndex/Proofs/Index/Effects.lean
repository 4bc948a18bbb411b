import SecondaryIndex.Proofs.Index.Calls

/-!
# What calls write, place by place

Calls are described on sets of pairs wherever the namespaces of an index hold nothing but entries. What
they write can be said without that: `IndexCall.Effect` gives the complete writes of a call that
succeeds, on whatever its context sees, also where namespaces hold byte strings that are no entries, and
where values cannot be read back.

Adding puts a record at every place of its pair. Removing takes away what is seen of them
(`Changes.clearing`), and removing all pairs of a key takes away what is seen under the key and, in a
two-way index, at the places in the reverse half of the values that are read from there. A removal in
several parts is one removal, since what is gone is not seen by the parts that follow
(`Changes.clearing_after`). So the halves of a two-way index need not be apart here.
-/

namespace SecondaryIndex

namespace Changes

open Classical in
/-- A record without a value at some places. -/
noncomputable def placing (P : Place → Prop) : Changes Place Bytes :=
  fun x => if P x then some (some Index.emptyValue) else none

open Classical in
/-- The removal of what is seen at some places. -/
noncomputable def clearing (f : Place → Option Bytes) (P : Place → Prop) : Changes Place Bytes :=
  fun x => if P x ∧ (f x).isSome then some none else none

variable {f : Place → Option Bytes} {P Q : Place → Prop}

/-- Placing records at two sets of places is placing them at both. -/
theorem placing_after (P Q : Place → Prop) :
    (placing Q).after (placing P) = placing fun x => P x ∨ Q x := by
  funext x
  unfold Changes.after placing
  by_cases hp : P x <;> by_cases hq : Q x <;> simp [hp, hq]

theorem clearing_eq_of_iff {f' : Place → Option Bytes} {x : Place}
    (h : P x ∧ (f x).isSome ↔ Q x ∧ (f' x).isSome) : clearing f P x = clearing f' Q x := by
  by_cases hp : P x ∧ (f x).isSome
  · have hleft : clearing f P x = some none := if_pos hp
    have hright : clearing f' Q x = some none := if_pos (h.1 hp)
    rw [hleft, hright]
  · have hleft : clearing f P x = none := if_neg hp
    have hright : clearing f' Q x = none := if_neg fun hq => hp (h.2 hq)
    rw [hleft, hright]

/-- What is gone is not removed again, so two removals are one. -/
theorem clearing_after (f : Place → Option Bytes) (P Q : Place → Prop) :
    (clearing ((clearing f P).applyTo f) Q).after (clearing f P) =
      clearing f fun x => P x ∨ Q x := by
  funext x
  unfold Changes.after
  by_cases hp : P x ∧ (f x).isSome
  · have hfirst : clearing f P x = some none := if_pos hp
    have hgone : (clearing f P).applyTo f x = none := by
      unfold applyTo
      rw [hfirst]
      rfl
    have hsecond : clearing ((clearing f P).applyTo f) Q x = none := by
      refine if_neg fun h => ?_
      rw [hgone] at h
      exact Bool.false_ne_true h.2
    have hboth : clearing f (fun x => P x ∨ Q x) x = some none := if_pos ⟨.inl hp.1, hp.2⟩
    rw [hfirst, hsecond, hboth]
    rfl
  · have hfirst : clearing f P x = none := if_neg hp
    have hsame : (clearing f P).applyTo f x = f x := by
      unfold applyTo
      rw [hfirst]
      rfl
    rw [hfirst, Option.or_none]
    refine clearing_eq_of_iff ?_
    rw [hsame]
    constructor
    · exact fun h => ⟨.inr h.1, h.2⟩
    · exact fun h => ⟨h.1.resolve_left fun hpx => hp ⟨hpx, h.2⟩, h.2⟩

/-- Clearing no place changes nothing. -/
theorem clearing_of_forall_not (h : ∀ x, ¬ P x) : clearing f P = .nothing := by
  funext x
  exact if_neg fun hx => h x hx.1

/-- Clearing depends only on the places that hold something. -/
theorem clearing_congr (h : ∀ x, (f x).isSome → (P x ↔ Q x)) : clearing f P = clearing f Q := by
  funext x
  exact clearing_eq_of_iff (and_congr_left (h x))

end Changes

namespace Index

variable {K V : Type} {index : Index K V} {f : Place → Option Bytes} {key : K} {value : V}
  {spaces : List Namespace} {id : TransactionId}

/-- A place at which an index stores a pair. -/
def StoredAt (index : Index K V) (key : K) (value : V) (x : Place) : Prop :=
  x.1 = index.ns ∧ index.codec.encode key value = .ok x.2

/-- A place of which the key portion is that of a key. -/
def Under (index : Index K V) (key : K) (x : Place) : Prop :=
  x.1 = index.ns ∧ ∃ rest, index.codec.layout.split x.2 = .ok (index.codec.keys.encode key, rest)

/-- A pair that is encoded is stored in one place. -/
theorem storedAt_iff {p : Bytes} (hp : index.codec.encode key value = .ok p) (x : Place) :
    index.StoredAt key value x ↔ x = (index.ns, p) := by
  unfold StoredAt
  obtain ⟨ns, q⟩ := x
  rw [hp, Except.ok.injEq, Prod.mk.injEq, eq_comm (b := q)]

theorem placing_storedAt {p : Bytes} (hp : index.codec.encode key value = .ok p) :
    Changes.single (index.ns, p) (some emptyValue) = .placing (index.StoredAt key value) := by
  funext x
  unfold Changes.single Changes.placing
  simp only [storedAt_iff hp]

/-- A deletion of what is there clears the place of the pair. -/
theorem clearing_storedAt {p : Bytes} (hp : index.codec.encode key value = .ok p) :
    (if (f (index.ns, p)).isSome then Changes.single (index.ns, p) none else .nothing) =
      Changes.clearing f (index.StoredAt key value) := by
  funext x
  unfold Changes.clearing
  simp only [storedAt_iff hp]
  by_cases hx : x = (index.ns, p)
  · by_cases hsome : (f (index.ns, p)).isSome <;> simp [Changes.single, Changes.nothing, hx, hsome]
  · split <;> simp [Changes.single, Changes.nothing, hx]

/-- The span of a key contains the stored keys under it. -/
theorem contains_iff_under {lower : Bytes} {upper : Bound}
    (hspan : index.codec.span key = .ok (lower, upper)) (p : Bytes) :
    Range.contains ⟨.included lower, upper⟩ p = true ↔ index.Under key (index.ns, p) := by
  rw [Layout.contains_iff_split hspan]
  exact ⟨fun h => ⟨rfl, h⟩, fun h => h.2⟩

/-- What is listed of the range of a key is what is seen under it. -/
theorem clearing_under {lower : Bytes} {upper : Bound}
    (hspan : index.codec.span key = .ok (lower, upper)) {keys : List Bytes}
    (hkeys : Listing f index.ns ⟨.included lower, upper⟩ keys) :
    Changes.removing index.ns keys = .clearing f (index.Under key) := by
  funext x
  obtain ⟨ns, p⟩ := x
  unfold Changes.removing Changes.clearing
  by_cases hns : ns = index.ns
  · subst hns
    have hmem : p ∈ keys ↔ index.Under key (index.ns, p) ∧ (f (index.ns, p)).isSome := by
      rw [hkeys.mem_iff, contains_iff_under hspan]
    by_cases hp : p ∈ keys
    · rw [if_pos ⟨rfl, hp⟩, if_pos (hmem.1 hp)]
    · rw [if_neg fun h => hp h.2, if_neg fun h => hp (hmem.2 h)]
  · rw [if_neg fun h => hns h.1, if_neg fun h => hns h.1.1]

end Index

namespace TwoWayIndex

variable {K V : Type} (index : TwoWayIndex K V) {f : Place → Option Bytes} {key : K} {value : V}
  {spaces : List Namespace} {id : TransactionId}

/-- The reverse half can take back what is seen of a physical key. -/
def ReadsBack (key : K) (p : Bytes) (value : V) : Prop :=
  index.forward.codec.readValue p = .ok value ∧ ∃ q, index.reverse.codec.encode value key = .ok q

/-- A place in the reverse half of a value that is read from one of some physical keys. -/
def Listed (key : K) (doomed : List Bytes) (x : Place) : Prop :=
  ∃ p ∈ doomed, ∃ value, index.forward.codec.readValue p = .ok value ∧
    index.reverse.StoredAt value key x

variable {index}

/-- A pair inserted into both halves is placed in both. -/
theorem insert_puts (hforward : index.forward.ns ∈ spaces) (hreverse : index.reverse.ns ∈ spaces) :
    Acts False spaces id f
      (do index.forward.insertWithin id key value
          index.reverse.insertWithin id value key) fun c _ =>
      (∃ p, index.forward.codec.encode key value = .ok p) ∧
        (∃ q, index.reverse.codec.encode value key = .ok q) ∧
        c = .placing fun x => index.forward.StoredAt key value x ∨
          index.reverse.StoredAt value key x := by
  refine .bind (Index.insertWithin_puts hforward False.elim) ?_
  rintro c ⟨⟩ ⟨p, hp, rfl⟩
  refine .mono (Index.insertWithin_puts hreverse False.elim) ?_
  rintro c ⟨⟩ ⟨q, hq, rfl⟩
  refine ⟨⟨p, hp⟩, ⟨q, hq⟩, ?_⟩
  rw [Index.placing_storedAt hp, Index.placing_storedAt hq, Changes.placing_after]

/-- A pair removed from both halves is cleared from both. -/
theorem erase_deletes (hforward : index.forward.ns ∈ spaces) (hreverse : index.reverse.ns ∈ spaces) :
    Acts False spaces id f
      (do let removed ← index.forward.eraseWithin id key value
          let _ ← index.reverse.eraseWithin id value key
          pure removed) fun c _ =>
      (∃ p, index.forward.codec.encode key value = .ok p) ∧
        (∃ q, index.reverse.codec.encode value key = .ok q) ∧
        c = .clearing f fun x => index.forward.StoredAt key value x ∨
          index.reverse.StoredAt value key x := by
  refine .bind (Index.eraseWithin_deletes hforward False.elim) ?_
  rintro c removed ⟨p, hp, -, rfl⟩
  rw [Index.clearing_storedAt hp]
  refine .bind (Index.eraseWithin_deletes hreverse False.elim) ?_
  rintro c _ ⟨q, hq, -, rfl⟩
  refine .pure ⟨⟨p, hp⟩, ⟨q, hq⟩, ?_⟩
  rw [Index.clearing_storedAt hq, Changes.nothing_after, Changes.clearing_after]

/-- One round of taking back reads the value of a physical key and removes its pair from the reverse half. -/
theorem eraseReverse_deletes (hreverse : index.reverse.ns ∈ spaces) (p : Bytes) :
    Acts False spaces id f
      (do let value ← IndexM.ofEncoding (index.forward.codec.readValue p)
          let _ ← index.reverse.eraseWithin id value key
          pure ()) fun c _ => ∃ value, index.ReadsBack key p value ∧
        c = .clearing f (index.reverse.StoredAt value key) := by
  have hread : Acts False spaces id f (IndexM.ofEncoding (index.forward.codec.readValue p))
      fun c value => c = .nothing ∧ index.forward.codec.readValue p = .ok value :=
    .encoding (fun _ hv => ⟨rfl, hv⟩) False.elim
  refine .bind hread ?_
  rintro c value ⟨rfl, hvalue⟩
  refine .bind (Index.eraseWithin_deletes hreverse False.elim) ?_
  rintro c _ ⟨q, hq, -, rfl⟩
  refine .pure ⟨value, ⟨hvalue, q, hq⟩, ?_⟩
  rw [Changes.nothing_after, Changes.after_nothing, Index.clearing_storedAt hq]
  rfl

theorem clearing_listed_nil : Changes.clearing f (index.Listed key []) = .nothing := by
  refine Changes.clearing_of_forall_not fun x hx => ?_
  obtain ⟨p, hp, -⟩ := hx
  exact List.not_mem_nil hp

/-- Taking back one physical key and then others is taking them all back. -/
theorem clearing_listed_cons {p : Bytes} {doomed : List Bytes} (h : index.ReadsBack key p value) :
    (Changes.clearing ((Changes.clearing f (index.reverse.StoredAt value key)).applyTo f)
        (index.Listed key doomed)).after (.clearing f (index.reverse.StoredAt value key)) =
      .clearing f (index.Listed key (p :: doomed)) := by
  rw [Changes.clearing_after]
  refine Changes.clearing_congr fun x _ => ?_
  unfold Listed
  simp only [List.mem_cons, exists_eq_or_imp, h.1, Except.ok.injEq, exists_eq_left']

/-- Erasing the reverse entries of some physical keys removes what is seen of them. -/
theorem eraseReverseWithin_deletes (hreverse : index.reverse.ns ∈ spaces) (doomed : List Bytes) :
    Acts False spaces id f (index.eraseReverseWithin id key doomed) fun c _ =>
      (∀ p ∈ doomed, ∃ value, index.ReadsBack key p value) ∧
        c = .clearing f (index.Listed key doomed) := by
  unfold eraseReverseWithin
  -- along the physical keys; each round sees what the rounds before it have left
  induction doomed generalizing f with
  | nil => exact .pure ⟨fun p hp => absurd hp List.not_mem_nil, clearing_listed_nil.symm⟩
  | cons p doomed ih =>
    rw [List.forM_eq_forM, List.forM_cons, ← List.forM_eq_forM]
    refine .bind (eraseReverse_deletes hreverse p) ?_
    rintro c ⟨⟩ ⟨value, hback, rfl⟩
    refine .mono ih ?_
    rintro c ⟨⟩ ⟨hall, rfl⟩
    refine ⟨fun p' hp' => ?_, clearing_listed_cons hback⟩
    rcases List.mem_cons.1 hp' with rfl | hmem
    · exact ⟨value, hback⟩
    · exact hall p' hmem

/-- A place in the reverse half of a value that is read from something seen under a key. -/
def BackAt (index : TwoWayIndex K V) (f : Place → Option Bytes) (key : K) (x : Place) : Prop :=
  ∃ p value, index.forward.Under key (index.forward.ns, p) ∧ (f (index.forward.ns, p)).isSome ∧
    index.forward.codec.readValue p = .ok value ∧ index.reverse.StoredAt value key x

/-- Erasing the pairs of a key removes what is listed in its range, and takes it back in the reverse half. -/
theorem eraseAll_lists (hforward : index.forward.ns ∈ spaces) (hreverse : index.reverse.ns ∈ spaces) :
    Acts False spaces id f
      (do let doomed ← index.forward.eraseAllWithin id key
          index.eraseReverseWithin id key doomed
          pure doomed.length) fun c n =>
      ∃ lower upper doomed, index.forward.codec.span key = .ok (lower, upper) ∧
        Listing f index.forward.ns ⟨.included lower, upper⟩ doomed ∧ n = doomed.length ∧
        (∀ p ∈ doomed, ∃ value, index.ReadsBack key p value) ∧
        c = .clearing f fun x => index.forward.Under key x ∨ index.Listed key doomed x := by
  refine .bind (Index.eraseAllWithin_deletes hforward False.elim) ?_
  rintro c doomed ⟨rfl, lower, upper, hspan, hkeys⟩
  rw [Index.clearing_under hspan hkeys]
  refine .bind (eraseReverseWithin_deletes hreverse doomed) ?_
  rintro c ⟨⟩ ⟨hback, rfl⟩
  refine .pure ⟨lower, upper, doomed, hspan, hkeys, rfl, hback, ?_⟩
  rw [Changes.nothing_after, Changes.clearing_after]

/-- The removal of a key clears what is under it, and what its values have in the reverse half. -/
theorem eraseAll_deletes (hforward : index.forward.ns ∈ spaces) (hreverse : index.reverse.ns ∈ spaces) :
    Acts False spaces id f
      (do let doomed ← index.forward.eraseAllWithin id key
          index.eraseReverseWithin id key doomed
          pure doomed.length) fun c _ =>
      index.forward.codec.Fits key ∧
        (∀ p, index.forward.Under key (index.forward.ns, p) → (f (index.forward.ns, p)).isSome →
          ∃ value, index.ReadsBack key p value) ∧
        c = .clearing f fun x => index.forward.Under key x ∨ index.BackAt f key x := by
  refine .mono (eraseAll_lists hforward hreverse) ?_
  rintro c n ⟨lower, upper, doomed, hspan, hkeys, -, hback, rfl⟩
  -- doomed is what was seen under the key before anything was removed
  have hmem (p : Bytes) : p ∈ doomed ↔
      index.forward.Under key (index.forward.ns, p) ∧ (f (index.forward.ns, p)).isSome := by
    rw [hkeys.mem_iff, Index.contains_iff_under hspan]
  refine ⟨EntryCodec.fits_of_span hspan, fun p hunder hsome => hback p ((hmem p).2 ⟨hunder, hsome⟩), ?_⟩
  refine Changes.clearing_congr fun x _ => or_congr_right ?_
  unfold Listed BackAt
  simp only [hmem, and_assoc, exists_and_left]

end TwoWayIndex

namespace AnyIndex

variable {K V : Type}

/-- A place at which an index stores a pair. -/
def StoredAt (index : AnyIndex K V) (key : K) (value : V) (x : Place) : Prop :=
  match index with
  | oneWay index => index.StoredAt key value x
  | twoWay index => index.forward.StoredAt key value x ∨ index.reverse.StoredAt value key x

/-- A pair is short enough to be stored. -/
def Encodes (index : AnyIndex K V) (key : K) (value : V) : Prop :=
  match index with
  | oneWay index => ∃ p, index.codec.encode key value = .ok p
  | twoWay index => (∃ p, index.forward.codec.encode key value = .ok p) ∧
    ∃ q, index.reverse.codec.encode value key = .ok q

/-- A place that belongs to a pair of a key, where a view is seen. -/
def Under (index : AnyIndex K V) (f : Place → Option Bytes) (key : K) (x : Place) : Prop :=
  match index with
  | oneWay index => index.Under key x
  | twoWay index => index.forward.Under key x ∨ index.BackAt f key x

/-- The values that are seen under a key can be read, and are short enough to be taken back. -/
def ReadsBack (index : AnyIndex K V) (f : Place → Option Bytes) (key : K) : Prop :=
  match index with
  | oneWay _ => True
  | twoWay index => ∀ p, index.forward.Under key (index.forward.ns, p) →
    (f (index.forward.ns, p)).isSome → ∃ value, index.ReadsBack key p value

end AnyIndex

/-- The complete writes of a call that succeeds where a view is seen. -/
def IndexCall.Effect {K V : Type} (index : AnyIndex K V) (f : Place → Option Bytes)
    (call : IndexCall K V) (c : Changes Place Bytes) : Prop :=
  match call with
  | add key value => index.Encodes key value ∧ c = .placing (index.StoredAt key value)
  | remove key value => index.Encodes key value ∧ c = .clearing f (index.StoredAt key value)
  | removeAll key => index.forward.codec.Fits key ∧ index.ReadsBack f key ∧
    c = .clearing f (index.Under f key)
  | _ => c = .nothing

end SecondaryIndex
