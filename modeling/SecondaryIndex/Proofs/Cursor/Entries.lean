import Mathlib.Data.List.Dedup
import SecondaryIndex.Proofs.Cursor.Strides
import SecondaryIndex.Proofs.Layout.Pairs

/-!
# The courses of cursors over entries

What a cursor of an index follows, by the kind of the cursor. The physical keys under it are those of
pairs, in ascending order, and the course is read off the pairs: the values of one key, which can all be
sought (`follows_values`); the keys of the pairs one by one, of which those that fit the layout can be
sought (`follows_keys`); the keys each of them once (`follows_groups`); or the values of all pairs, of
which none can be sought (`follows_scan`).

A key is sought by its stem, which comes before every physical key of the key and after every physical
key of the keys before it. So a seek finds the first entry of the key or else that of the next
greater key, whether the cursor then goes on entry by entry or group by group (`seeks_keys`).
-/

namespace SecondaryIndex

namespace EntryCodec

variable {K V : Type}

/-- Why a key cannot be sought: it is too long for the layout. -/
def refuses (codec : EntryCodec K V) (key : K) : Option IndexError :=
  if (codec.keys.encode key).length ≤ codec.layout.keyLimit then none
  else some (.encoding (.keyTooLong (codec.keys.encode key).length codec.layout.keyLimit))

/-- The course over some keys. -/
def keyCourse (codec : EntryCodec K V) (keys : List K) : Course K where
  items := keys
  before := codec.KeyBefore
  refuses := codec.refuses

/-- The course over the values of a key. -/
def valueCourse (codec : EntryCodec K V) (values : List V) : Course V where
  items := values
  before a b := codec.values.encode a < codec.values.encode b
  refuses _ := none

end EntryCodec

/-- The course over items that cannot be sought. -/
def Course.unseekable {α : Type} (items : List α) : Course α where
  items := items
  before _ _ := False
  refuses _ := some .cannotSeek

namespace Cursor

variable {α K V : Type} {codec : EntryCodec K V}

/-- The keys under a cursor are those of pairs with certain keys, which `number` numbers. -/
def Keyed (codec : EntryCodec K V) (cursor : Cursor α) (items : List K) (number : Nat → Nat) : Prop :=
  ∀ {i : Nat} {p : Bytes}, cursor.iterator.keys[i]? = some p →
    ∃ key value, items[number i]? = some key ∧ codec.encode key value = .ok p

/-! ### Seeking a key -/

section Keys

variable {cursor : Cursor K} {items : List K} {number : Nat → Nat}

/-- The first physical key at or above the stem of a key is one of the key, if there is any. -/
theorem prefix_of_mem (hinv : codec.keys.Inverts) (hsorted : cursor.iterator.keys.Pairwise (· < ·))
    (hnumbers : Numbers cursor items number) (hkeyed : Keyed codec cursor items number) {target : K}
    {stem : Bytes} (hstem : codec.stem target = .ok stem) (hmem : target ∈ items) :
    ∃ (i : Nat) (q : Bytes), cursor.iterator.keys[i]? = some q ∧ ¬ q < stem ∧
      ∀ (m : Nat) (p : Bytes), m ≤ i → cursor.iterator.keys[m]? = some p → ¬ p < stem → stem <+: p := by
  obtain ⟨n, hn, rfl⟩ := List.getElem_of_mem hmem
  obtain ⟨i, hi, rfl⟩ := hnumbers.onto hn
  have hq := List.getElem?_eq_getElem hi
  obtain ⟨key, value, hkey, henc⟩ := hkeyed hq
  have hkey' : key = items[number i] := by
    rw [List.getElem?_eq_getElem hn] at hkey
    exact (Option.some.inj hkey).symm
  subst hkey'
  have hbegins := (EntryCodec.stem_prefix_iff hinv hstem henc).2 rfl
  refine ⟨i, _, hq, mt (EntryCodec.encode_lt_stem_iff hstem henc).1 EntryCodec.not_keyBefore_self, ?_⟩
  intro m p hmi hp hreached
  obtain ⟨hm, rfl⟩ := List.getElem?_eq_some_iff.1 hp
  -- what lies between the stem and a physical key that begins with it begins with it too
  have hle : cursor.iterator.keys[m] ≤ cursor.iterator.keys[i] := by
    rcases Nat.eq_or_lt_of_le hmi with rfl | hlt
    · exact Std.le_refl _
    · exact Std.le_of_lt (List.pairwise_iff_getElem.1 hsorted m i hm hi hlt)
  rw [Bytes.prefix_iff] at hbegins ⊢
  exact ⟨Std.not_lt.1 hreached, fun bound hbound => Std.lt_of_le_of_lt hle (hbegins.2 bound hbound)⟩

theorem seeks_keys (hinv : codec.keys.Inverts) (hsorted : cursor.iterator.keys.Pairwise (· < ·))
    (hnumbers : Numbers cursor items number) (hkeyed : Keyed codec cursor items number)
    (hseeking : cursor.seeking = .byGroup codec.stem) (target : K) :
    Seeks cursor (codec.keyCourse items) number target := by
  have hgoal : cursor.goal target =
      ((codec.stem target).mapError IndexError.encoding).map (·, true) := by
    unfold goal
    rw [hseeking]
  unfold Seeks
  rw [hgoal]
  -- a target that does not fit is refused by the cursor and by the course alike
  by_cases hfits : (codec.keys.encode target).length ≤ codec.layout.keyLimit
  · have hrefuses : (codec.keyCourse items).refuses target = none := if_pos hfits
    have hstem : codec.stem target = .ok _ := Layout.stem_eq_ok_iff.2 ⟨hfits, rfl⟩
    rw [hrefuses, hstem]
    refine ⟨_, true, rfl, ?_⟩
    generalize BigEndian.ofNat codec.layout.width (codec.keys.encode target).length ++
      codec.keys.encode target = stem at hstem
    refine ⟨?_, ?_, ?_⟩
    · intro i p x hp hx
      obtain ⟨key, value, hkey, henc⟩ := hkeyed hp
      obtain rfl : key = x := Option.some.inj (hkey.symm.trans hx)
      exact EntryCodec.encode_lt_stem_iff hstem henc
    · intro m p hp hreached hpassed
      obtain ⟨key, value, hkey, henc⟩ := hkeyed hp
      -- a key is hit exactly if it begins with the stem, that is, if it is the target
      have hhits : hits stem true p = true ↔ stem <+: p := List.isPrefixOf_iff_prefix
      rw [hhits]
      constructor
      · intro hbegins
        obtain rfl := (EntryCodec.stem_prefix_iff hinv hstem henc).1 hbegins
        exact List.mem_of_getElem? hkey
      · intro hmem
        -- an entry of the target is there, so the first one not below the stem is one
        obtain ⟨i, q, hq, hnot, hbegins⟩ := prefix_of_mem hinv hsorted hnumbers hkeyed hstem hmem
        have hmi : m ≤ i := by
          by_contra hlt
          exact hnot (hpassed i q (Nat.lt_of_not_le hlt) hq)
        exact hbegins m p hmi hp hreached
    · intro hbelow hmem
      obtain ⟨i, q, hq, hnot, -⟩ := prefix_of_mem hinv hsorted hnumbers hkeyed hstem hmem
      exact hnot (hbelow q (List.mem_of_getElem? hq))
  · have hrefuses : (codec.keyCourse items).refuses target = some
        (.encoding (.keyTooLong (codec.keys.encode target).length codec.layout.keyLimit)) :=
      if_neg hfits
    have hstem : codec.stem target =
        .error (.keyTooLong (codec.keys.encode target).length codec.layout.keyLimit) := if_neg hfits
    rw [hrefuses, hstem]
    rfl

/-! ### Keys entry by entry -/

/-- A cursor over the key of every entry. -/
theorem follows_keys (hinv : codec.keys.Inverts) {pairs : List (K × V)}
    (hencoded : codec.Encoded cursor.iterator.keys pairs)
    (hsorted : cursor.iterator.keys.Pairwise (· < ·)) (hfresh : cursor.position = .unopened)
    (hdecode : cursor.decode = codec.readKey) (hstride : cursor.stride = .entry)
    (hseeking : cursor.seeking = .byGroup codec.stem) :
    Follows cursor (codec.keyCourse (pairs.map Prod.fst)) id := by
  have hreads : List.Forall₂ (fun p x => cursor.decode p = .ok x) cursor.iterator.keys
      (pairs.map Prod.fst) := by
    rw [List.forall₂_map_right_iff, hdecode]
    exact hencoded.imp fun p kv henc => EntryCodec.readKey_of_encode hinv henc
  have hnumbers := numbers_entries hreads
  have hkeyed : Keyed codec cursor (pairs.map Prod.fst) id := by
    intro i p hp
    obtain ⟨hi, rfl⟩ := List.getElem?_eq_some_iff.1 hp
    have hi' : i < pairs.length := hencoded.length_eq ▸ hi
    refine ⟨pairs[i].1, pairs[i].2, ?_, hencoded.get hi hi'⟩
    simp [hi']
  exact ⟨hfresh, hnumbers, steps_entries hstride hreads.length_eq,
    seeks_keys hinv hsorted hnumbers hkeyed hseeking⟩

/-! ### Keys group by group -/

/-- Numbered keys are in order if their numbers are. -/
theorem keyBefore_iff_number_lt (hitems : items.Pairwise codec.KeyBefore) {a b : K} {m n : Nat}
    (ha : items[m]? = some a) (hb : items[n]? = some b) : codec.KeyBefore a b ↔ m < n := by
  obtain ⟨hm, rfl⟩ := List.getElem?_eq_some_iff.1 ha
  obtain ⟨hn, rfl⟩ := List.getElem?_eq_some_iff.1 hb
  constructor
  · intro hbefore
    by_contra hle
    rcases Nat.eq_or_lt_of_le (Nat.le_of_not_lt hle) with heq | hlt
    · subst heq
      exact EntryCodec.not_keyBefore_self hbefore
    · exact hbefore.asymm (List.pairwise_iff_getElem.1 hitems n m hn hm hlt)
  · intro hlt
    exact List.pairwise_iff_getElem.1 hitems m n hm hn hlt

/-- The groups of physical keys are those of their keys. -/
theorem groups_of_keyed (hinv : codec.keys.Inverts) (hitems : items.Pairwise codec.KeyBefore)
    (hkeyed : Keyed codec cursor items number) : Groups cursor number codec.layout := by
  intro i p hp
  obtain ⟨key, value, hkey, henc⟩ := hkeyed hp
  obtain ⟨lower, upper, hspan⟩ := EntryCodec.exists_span (EntryCodec.fits_of_encode henc)
  obtain ⟨hstem, -⟩ := Layout.stem_of_span hspan
  refine ⟨lower, upper, ?_, EntryCodec.upper_of_span hspan, ?_⟩
  · rw [EntryCodec.spanOf_of_encode henc, hspan]
  · intro j q hq
    obtain ⟨key', value', hkey', henc'⟩ := hkeyed hq
    have hlower : q < lower ↔ number j < number i := by
      rw [EntryCodec.encode_lt_stem_iff hstem henc', keyBefore_iff_number_lt hitems hkey' hkey]
    refine ⟨hlower, ?_⟩
    have hcontains := EntryCodec.contains_iff hinv hspan henc'
    have hhere := (EntryCodec.contains_iff hinv hspan henc).2 rfl
    simp only [Range.contains, Bound.below, Bool.and_eq_true, decide_eq_true_eq] at hcontains hhere
    constructor
    · intro habove
      by_contra hlt
      -- a physical key within the bounds is one of the group
      have hnot : ¬ q < lower := by
        rw [hlower]
        omega
      obtain rfl := hcontains.1 ⟨Std.not_lt.1 hnot, habove⟩
      have hself := (keyBefore_iff_number_lt hitems hkey hkey').2 (Nat.lt_of_not_le hlt)
      exact EntryCodec.not_keyBefore_self hself
    · intro hle
      rcases Nat.eq_or_lt_of_le hle with heq | hlt
      · have hsame : key' = key := by
          rw [heq] at hkey'
          exact Option.some.inj (hkey'.symm.trans hkey)
        exact (hcontains.2 hsame).2
      · -- what comes before the group lies below all of it, and so within its upper bound
        have hqp : q < p := Std.lt_of_lt_of_le (hlower.2 hlt) hhere.1
        exact Bound.above_of_lt hqp hhere.2

/-- The distinct keys of the pairs that physical keys stand for. -/
theorem exists_numbers (hinv : codec.keys.Inverts)
    (hpairs : ∀ p ∈ cursor.iterator.keys, ∃ kv : K × V, codec.encode kv.1 kv.2 = .ok p)
    (hsorted : cursor.iterator.keys.Pairwise (· < ·)) (hdecode : cursor.decode = codec.readKey) :
    ∃ items number, Numbers cursor items number ∧ Keyed codec cursor items number ∧
      items.Pairwise codec.KeyBefore ∧
      ∀ key, key ∈ items ↔ ∃ p ∈ cursor.iterator.keys, ∃ value, codec.encode key value = .ok p := by
  classical
  obtain ⟨pairs, hencoded⟩ := EntryCodec.exists_encoded hpairs
  -- the keys of the pairs ascend, though not strictly; each is kept once
  have hascending : (pairs.map Prod.fst).Pairwise fun a b => ¬ codec.KeyBefore b a := by
    rw [List.pairwise_map]
    exact (hencoded.pairwise_before hsorted).imp fun h => EntryCodec.not_keyBefore_of_before h
  have hitems : (pairs.map Prod.fst).dedup.Pairwise codec.KeyBefore := by
    refine ((hascending.sublist (List.dedup_sublist _)).and (List.nodup_dedup _)).imp ?_
    rintro a b ⟨hnot, hne⟩
    by_contra hnot'
    exact hne (EntryCodec.eq_of_not_keyBefore hinv hnot' hnot)
  have hmem : ∀ key, key ∈ (pairs.map Prod.fst).dedup ↔
      ∃ p ∈ cursor.iterator.keys, ∃ value, codec.encode key value = .ok p := by
    intro key
    rw [List.mem_dedup]
    constructor
    · intro hkey
      obtain ⟨kv, hkv, rfl⟩ := List.mem_map.1 hkey
      obtain ⟨p, hp, henc⟩ := hencoded.exists_of_mem hkv
      exact ⟨p, hp, kv.2, henc⟩
    · rintro ⟨p, hp, value, henc⟩
      obtain ⟨i, hi, rfl⟩ := List.getElem_of_mem hp
      have hi' : i < pairs.length := hencoded.length_eq ▸ hi
      have hkey := EntryCodec.key_unique hinv (hencoded.get hi hi') henc
      exact List.mem_map.2 ⟨pairs[i], List.getElem_mem hi', hkey⟩
  generalize (pairs.map Prod.fst).dedup = items at hitems hmem
  -- a physical key has the number of its key
  have hexists : ∀ i : Nat, ∃ n : Nat, ∀ p : Bytes, cursor.iterator.keys[i]? = some p →
      ∃ key value, items[n]? = some key ∧ codec.encode key value = .ok p := by
    intro i
    cases hkey : cursor.iterator.keys[i]? with
    | none => exact ⟨0, fun p hp => by cases hp⟩
    | some p =>
      obtain ⟨⟨key, value⟩, henc⟩ := hpairs p (List.mem_of_getElem? hkey)
      obtain ⟨n, hn, hget⟩ := List.getElem_of_mem ((hmem key).2 ⟨p, List.mem_of_getElem? hkey, value, henc⟩)
      refine ⟨n, fun q hq => ?_⟩
      obtain rfl := Option.some.inj hq
      exact ⟨key, value, by rw [List.getElem?_eq_getElem hn, hget], henc⟩
  choose number hnumber using hexists
  have hkeyed : Keyed codec cursor items number := fun {i p} hp => hnumber i p hp
  refine ⟨items, number, ⟨?_, ?_, ?_⟩, hkeyed, hitems, hmem⟩
  · intro i p hp
    obtain ⟨key, value, hkey, henc⟩ := hkeyed hp
    refine ⟨key, hkey, ?_⟩
    rw [hdecode, EntryCodec.readKey_of_encode hinv henc]
  · intro i j hij hj
    by_contra hlt
    have hi : i < cursor.iterator.keys.length := Nat.lt_of_le_of_lt hij hj
    obtain ⟨key, value, hkey, henc⟩ := hkeyed (List.getElem?_eq_getElem hi)
    obtain ⟨key', value', hkey', henc'⟩ := hkeyed (List.getElem?_eq_getElem hj)
    have hbefore := (keyBefore_iff_number_lt hitems hkey' hkey).2 (Nat.lt_of_not_le hlt)
    have hne : i ≠ j := by
      rintro rfl
      exact hlt (Nat.le_refl _)
    have hkeys := List.pairwise_iff_getElem.1 hsorted i j hi hj (Nat.lt_of_le_of_ne hij hne)
    exact EntryCodec.not_keyBefore_of_before ((EntryCodec.encode_lt_encode_iff henc henc').1 hkeys)
      hbefore
  · intro n hn
    obtain ⟨p, hp, value, henc⟩ := (hmem items[n]).1 (List.getElem_mem hn)
    obtain ⟨i, hi, rfl⟩ := List.getElem_of_mem hp
    obtain ⟨key', value', hkey', henc'⟩ := hkeyed (List.getElem?_eq_getElem hi)
    rw [EntryCodec.key_unique hinv henc' henc] at hkey'
    have hkey : items[n]? = some items[n] := List.getElem?_eq_getElem hn
    refine ⟨i, hi, Nat.le_antisymm ?_ ?_⟩
    · by_contra hlt
      exact EntryCodec.not_keyBefore_self
        ((keyBefore_iff_number_lt hitems hkey hkey').2 (Nat.lt_of_not_le hlt))
    · by_contra hlt
      exact EntryCodec.not_keyBefore_self
        ((keyBefore_iff_number_lt hitems hkey' hkey).2 (Nat.lt_of_not_le hlt))

/-- A cursor over the keys, each of them once. -/
theorem follows_groups (hinv : codec.keys.Inverts)
    (hpairs : ∀ p ∈ cursor.iterator.keys, ∃ kv : K × V, codec.encode kv.1 kv.2 = .ok p)
    (hsorted : cursor.iterator.keys.Pairwise (· < ·)) (hfresh : cursor.position = .unopened)
    (hdecode : cursor.decode = codec.readKey) (hstride : cursor.stride = .group codec.layout)
    (hseeking : cursor.seeking = .byGroup codec.stem) :
    ∃ items number, Follows cursor (codec.keyCourse items) number ∧ items.Pairwise codec.KeyBefore ∧
      ∀ key, key ∈ items ↔ ∃ p ∈ cursor.iterator.keys, ∃ value, codec.encode key value = .ok p := by
  obtain ⟨items, number, hnumbers, hkeyed, hitems, hmem⟩ := exists_numbers hinv hpairs hsorted hdecode
  have hsteps : Steps cursor items number :=
    hnumbers.steps_groups hstride (groups_of_keyed hinv hitems hkeyed)
  exact ⟨items, number, ⟨hfresh, hnumbers, hsteps,
    seeks_keys hinv hsorted hnumbers hkeyed hseeking⟩, hitems, hmem⟩

end Keys

/-! ### Values -/

section Values

variable {cursor : Cursor V}

/-- A cursor over the values of a key. -/
theorem follows_values (hinv : codec.Inverts) {key : K} (hfits : codec.Fits key) {values : List V}
    (hencoded : codec.Encoded cursor.iterator.keys (values.map (key, ·)))
    (hsorted : cursor.iterator.keys.Pairwise (· < ·)) (hfresh : cursor.position = .unopened)
    (hdecode : cursor.decode = codec.readValue) (hstride : cursor.stride = .entry)
    (hseeking : cursor.seeking = .exact (codec.encode key)) :
    Follows cursor (codec.valueCourse values) id := by
  have hentries : List.Forall₂ (fun p value => codec.encode key value = .ok p) cursor.iterator.keys
      values := List.forall₂_map_right_iff.1 hencoded
  have hreads : List.Forall₂ (fun p value => cursor.decode p = .ok value) cursor.iterator.keys
      values := by
    rw [hdecode]
    exact hentries.imp fun p value henc => EntryCodec.readValue_of_encode hinv.2 henc
  have hentry : ∀ {i : Nat} {p : Bytes} {value : V}, cursor.iterator.keys[i]? = some p →
      values[i]? = some value → codec.encode key value = .ok p := by
    intro i p value hp hvalue
    obtain ⟨hi, rfl⟩ := List.getElem?_eq_some_iff.1 hp
    obtain ⟨hi', rfl⟩ := List.getElem?_eq_some_iff.1 hvalue
    exact hentries.get hi hi'
  refine ⟨hfresh, numbers_entries hreads, steps_entries hstride hreads.length_eq, fun target => ?_⟩
  obtain ⟨goal, hgoal⟩ := EntryCodec.exists_encode hfits target
  refine ⟨goal, false, ?_, ?_, ?_, ?_⟩
  · unfold Cursor.goal
    rw [hseeking]
    simp only [hgoal]
    rfl
  · intro i p value hp hvalue
    rw [EntryCodec.encode_lt_encode_iff (hentry hp hvalue) hgoal]
    exact EntryCodec.before_iff_of_key_eq
  · intro m p hp hreached hpassed
    obtain ⟨hm, -⟩ := List.getElem?_eq_some_iff.1 hp
    have hvalue := List.getElem?_eq_getElem (hreads.length_eq ▸ hm : m < values.length)
    have henc := hentry hp hvalue
    have hhits : hits goal false p = true ↔ p = goal := by simp [hits]
    rw [hhits]
    constructor
    · rintro rfl
      obtain ⟨-, hsame⟩ := EntryCodec.encode_injective hinv henc hgoal
      exact hsame ▸ List.mem_of_getElem? hvalue
    · intro hmem
      obtain ⟨q, hq, henc'⟩ := hencoded.exists_of_mem (List.mem_map.2 ⟨target, hmem, rfl⟩)
      obtain rfl : q = goal := Except.ok.inj (henc'.symm.trans hgoal)
      obtain ⟨i, hi, rfl⟩ := List.getElem_of_mem hq
      -- the physical key of the item is not below itself, so the seek does not go past it
      have hmi : m ≤ i := by
        by_contra hlt
        exact Std.lt_irrefl (hpassed i _ (Nat.lt_of_not_le hlt) (List.getElem?_eq_getElem hi))
      rcases Nat.eq_or_lt_of_le hmi with rfl | hlt
      · exact Option.some.inj (hp.symm.trans (List.getElem?_eq_getElem hi))
      · obtain ⟨hm, rfl⟩ := List.getElem?_eq_some_iff.1 hp
        exact absurd (List.pairwise_iff_getElem.1 hsorted m i hm hi hlt) hreached
  · intro hbelow hmem
    obtain ⟨q, hq, henc⟩ := hencoded.exists_of_mem (List.mem_map.2 ⟨target, hmem, rfl⟩)
    obtain rfl : q = goal := Except.ok.inj (henc.symm.trans hgoal)
    exact Std.lt_irrefl (hbelow q hq)

/-- A cursor over the values of all pairs. -/
theorem follows_scan (hinv : codec.values.Inverts) {pairs : List (K × V)}
    (hencoded : codec.Encoded cursor.iterator.keys pairs) (hfresh : cursor.position = .unopened)
    (hdecode : cursor.decode = codec.readValue) (hstride : cursor.stride = .entry)
    (hseeking : cursor.seeking = .impossible) :
    Follows cursor (.unseekable (pairs.map Prod.snd)) id := by
  have hreads : List.Forall₂ (fun p x => cursor.decode p = .ok x) cursor.iterator.keys
      (pairs.map Prod.snd) := by
    rw [List.forall₂_map_right_iff, hdecode]
    exact hencoded.imp fun p kv henc => EntryCodec.readValue_of_encode hinv henc
  refine ⟨hfresh, numbers_entries hreads, steps_entries hstride hreads.length_eq, fun target => ?_⟩
  show cursor.goal target = .error .cannotSeek
  unfold goal
  rw [hseeking]

end Values

end Cursor

end SecondaryIndex
