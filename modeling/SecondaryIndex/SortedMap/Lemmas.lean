import SecondaryIndex.SortedMap.Basic

/-!
# What the operations of a sorted map do to its view

The view of a map is `SortedMap.get?`, and two maps with one view are equal (`SortedMap.ext_get?`).
Each operation has one equation through the view, so that proofs about stores and indexes never open
the association lists.
-/

namespace SecondaryIndex

namespace SortedMap

variable {κ α β : Type} [LT κ] [LE κ] [DecidableEq κ] [Std.LawfulOrderLT κ]

/-! ### Membership and the view -/

omit [DecidableEq κ] in
/-- Two entries of a map with one key are the same entry. -/
theorem eq_of_mem_of_key_eq {l : List (κ × α)} (h : l.Pairwise (fun a b => a.1 < b.1))
    {x y : κ × α} (hx : x ∈ l) (hy : y ∈ l) (hk : x.1 = y.1) : x = y := by
  induction l with
  | nil => cases hx
  | cons e l ih =>
    obtain ⟨hlt, hl⟩ := List.pairwise_cons.1 h
    -- one of them at the head and the other behind it would have different keys
    rcases List.mem_cons.1 hx with rfl | hx' <;> rcases List.mem_cons.1 hy with rfl | hy'
    · rfl
    · exact absurd (hk ▸ hlt y hy' : x.1 < x.1) Std.lt_irrefl
    · exact absurd (hk ▸ hlt x hx' : y.1 < y.1) Std.lt_irrefl
    · exact ih hl hx' hy'

/-- The view holds exactly the listed entries. -/
theorem get?_eq_some_iff {m : SortedMap κ α} {k : κ} {a : α} :
    m.get? k = some a ↔ (k, a) ∈ m.entries := by
  unfold get?
  constructor
  · intro h
    obtain ⟨⟨j, b⟩, hf, rfl⟩ := Option.map_eq_some_iff.1 h
    have hkey : j = k := by simpa using List.find?_some hf
    exact hkey ▸ List.mem_of_find?_eq_some hf
  · intro h
    cases hf : m.entries.find? fun e => e.1 = k with
    | none => simpa using List.find?_eq_none.1 hf _ h
    | some e =>
      have hkey : e.1 = k := by simpa using List.find?_some hf
      -- the entry that is found first is the only one with its key
      have := eq_of_mem_of_key_eq m.sorted (List.mem_of_find?_eq_some hf) h hkey
      simp [this]

/-- The view is undefined exactly on the keys that no entry carries. -/
theorem get?_eq_none_iff {m : SortedMap κ α} {k : κ} :
    m.get? k = none ↔ ∀ a, (k, a) ∉ m.entries := by
  rw [Option.eq_none_iff_forall_ne_some]
  exact forall_congr' fun a => not_congr get?_eq_some_iff

/-! ### One equation per operation -/

omit [LE κ] [Std.LawfulOrderLT κ] in
@[simp] theorem get?_empty (k : κ) : (empty : SortedMap κ α).get? k = none := rfl

omit [LE κ] [Std.LawfulOrderLT κ] in
@[simp] theorem get?_emptyCollection (k : κ) : (∅ : SortedMap κ α).get? k = none := rfl

omit [LE κ] [Std.LawfulOrderLT κ] in
/-- A singleton holds its one entry. -/
@[simp] theorem get?_singleton (k j : κ) (a : α) :
    (singleton k a).get? j = if k = j then some a else none := by
  unfold get? singleton
  by_cases h : k = j <;> simp [h]

/-- A filter keeps the entries it is asked to keep. -/
@[simp] theorem get?_filter (m : SortedMap κ α) (keep : κ → α → Bool) (k : κ) :
    (m.filter keep).get? k = (m.get? k).filter (keep k) := by
  refine Option.ext fun a => ?_
  rw [get?_eq_some_iff, Option.filter_eq_some_iff, get?_eq_some_iff]
  exact List.mem_filter

@[simp] theorem get?_restrict (m : SortedMap κ α) (keep : κ → Bool) (k : κ) :
    (m.restrict keep).get? k = if keep k then m.get? k else none := by
  rw [restrict, get?_filter]
  cases m.get? k <;> cases h : keep k <;> simp [Option.filter_some]

@[simp] theorem get?_erase (m : SortedMap κ α) (k j : κ) :
    (m.erase k).get? j = if j = k then none else m.get? j := by
  rw [erase, get?_restrict]
  by_cases h : j = k <;> simp [h]

/-- Changing the values of a map changes what is held under each key. -/
@[simp] theorem get?_mapEntries (m : SortedMap κ α) (f : κ → α → β) (k : κ) :
    (m.mapEntries f).get? k = (m.get? k).map (f k) := by
  refine Option.ext fun b => ?_
  rw [get?_eq_some_iff, Option.map_eq_some_iff]
  simp only [mapEntries, List.mem_map, get?_eq_some_iff, Prod.mk.injEq, Prod.exists]
  constructor
  · rintro ⟨j, a, h, rfl, rfl⟩
    exact ⟨a, h, rfl⟩
  · rintro ⟨a, h, rfl⟩
    exact ⟨k, a, h, rfl, rfl⟩

@[simp] theorem get?_mapValues (m : SortedMap κ α) (f : α → β) (k : κ) :
    (m.mapValues f).get? k = (m.get? k).map f := get?_mapEntries m _ k

@[simp] theorem get?_slots (m : SortedMap κ α) (k : κ) : m.slots.get? k = (m.get? k).map some :=
  get?_mapValues m some k

/-- Of the slots of a map the live ones are those that hold something. -/
@[simp] theorem get?_live (m : SortedMap κ (Option α)) (k : κ) :
    m.live.get? k = (m.get? k).join := by
  refine Option.ext fun a => ?_
  rw [get?_eq_some_iff, Option.join_eq_some_iff, get?_eq_some_iff]
  simp only [live, List.mem_filterMap, Option.map_eq_some_iff, Prod.mk.injEq, Prod.exists]
  constructor
  · rintro ⟨j, s, h, x, rfl, rfl, rfl⟩
    exact h
  · intro h
    exact ⟨k, some a, h, a, rfl, rfl, rfl⟩

/-! ### Extensionality -/

variable [Std.IsLinearOrder κ]

omit [LE κ] [DecidableEq κ] [Std.LawfulOrderLT κ] [Std.IsLinearOrder κ] in
/-- A map is determined by its list of entries. -/
theorem ext_entries {m n : SortedMap κ α} (h : m.entries = n.entries) : m = n := by
  cases m; cases n; simp_all

omit [DecidableEq κ] in
/-- Ascending lists with the same entries are the same list. -/
theorem entries_eq_of_mem_iff {l r : List (κ × α)} (hl : l.Pairwise (fun a b => a.1 < b.1))
    (hr : r.Pairwise (fun a b => a.1 < b.1)) (h : ∀ x, x ∈ l ↔ x ∈ r) : l = r := by
  induction l generalizing r with
  | nil =>
    cases r with
    | nil => rfl
    | cons y r => exact absurd ((h y).2 (by simp)) (by simp)
  | cons x l ih =>
    cases r with
    | nil => exact absurd ((h x).1 (by simp)) (by simp)
    | cons y r =>
      obtain ⟨hx, hl'⟩ := List.pairwise_cons.1 hl
      obtain ⟨hy, hr'⟩ := List.pairwise_cons.1 hr
      -- each head is in the other list; if both were behind the heads, each would be above the other
      have hxy : x = y := by
        rcases List.mem_cons.1 ((h x).1 (by simp)) with hxy | hxr
        · exact hxy
        · rcases List.mem_cons.1 ((h y).2 (by simp)) with hyx | hyl
          · exact hyx.symm
          · exact absurd (Std.lt_trans (hy x hxr) (hx y hyl)) Std.lt_irrefl
      subst hxy
      congr 1
      -- behind the head its key does not occur again
      refine ih hl' hr' fun z => ⟨fun hz => ?_, fun hz => ?_⟩
      · rcases List.mem_cons.1 ((h z).1 (List.mem_cons_of_mem _ hz)) with rfl | h'
        · exact absurd (hx z hz) Std.lt_irrefl
        · exact h'
      · rcases List.mem_cons.1 ((h z).2 (List.mem_cons_of_mem _ hz)) with rfl | h'
        · exact absurd (hy z hz) Std.lt_irrefl
        · exact h'

/-- Two maps with one view are equal. -/
theorem ext_get? {m n : SortedMap κ α} (h : ∀ k, m.get? k = n.get? k) : m = n := by
  refine ext_entries (entries_eq_of_mem_iff m.sorted n.sorted ?_)
  rintro ⟨k, a⟩
  rw [← get?_eq_some_iff, ← get?_eq_some_iff, h]

/-! ### Merging -/

variable [DecidableLT κ]

omit [DecidableEq κ] in
/-- A merge lists the newer entries, and the older ones on keys that no newer entry carries. -/
theorem mem_merge_iff {newer older : List (κ × α)} (hn : newer.Pairwise (fun a b => a.1 < b.1))
    (ho : older.Pairwise (fun a b => a.1 < b.1)) (x : κ × α) :
    x ∈ merge newer older ↔ x ∈ newer ∨ (x ∈ older ∧ ∀ y ∈ newer, y.1 ≠ x.1) := by
  fun_induction merge newer older with
  | case1 => simp
  | case2 => simp
  | case3 k a newer j b older hlt ih =>
    -- the older head is taken, and it is below everything that is newer
    have hj : ∀ y ∈ (k, a) :: newer, y.1 ≠ j := by
      intro y hy hyj
      have hjy : j < y.1 := by
        rcases List.mem_cons.1 hy with rfl | hy
        · exact hlt
        · exact Std.lt_trans (b := k) hlt ((List.pairwise_cons.1 hn).1 y hy)
      exact Std.lt_irrefl (hyj ▸ hjy)
    rw [List.mem_cons, ih hn (List.pairwise_cons.1 ho).2]
    constructor
    · rintro (rfl | h | ⟨h, h'⟩)
      · exact .inr ⟨by simp, hj⟩
      · exact .inl h
      · exact .inr ⟨by simp [h], h'⟩
    · rintro (h | ⟨h, h'⟩)
      · exact .inr (.inl h)
      · rcases List.mem_cons.1 h with h | h
        · exact .inl h
        · exact .inr (.inr ⟨h, h'⟩)
  | case4 k a newer j b older _ hlt ih =>
    obtain ⟨hk, hn'⟩ := List.pairwise_cons.1 hn
    -- the newer head is taken, and no older entry has its key
    have hold : ∀ z ∈ (j, b) :: older, k ≠ z.1 := by
      intro z hz hkz
      have hkz' : k < z.1 := by
        rcases List.mem_cons.1 hz with rfl | hz
        · exact hlt
        · exact Std.lt_trans (b := j) hlt ((List.pairwise_cons.1 ho).1 z hz)
      exact Std.lt_irrefl (hkz ▸ hkz')
    rw [List.mem_cons, ih hn' ho]
    constructor
    · rintro (rfl | h | ⟨h, h'⟩)
      · simp
      · simp [h]
      · refine .inr ⟨h, fun y hy => ?_⟩
        rcases List.mem_cons.1 hy with rfl | hy
        · exact hold x h
        · exact h' y hy
    · rintro (h | ⟨h, h'⟩)
      · rcases List.mem_cons.1 h with h | h <;> simp [h]
      · exact .inr (.inr ⟨h, fun y hy => h' y (List.mem_cons_of_mem _ hy)⟩)
  | case5 k a newer j b older hjk hkj ih =>
    obtain ⟨hk, hn'⟩ := List.pairwise_cons.1 hn
    obtain ⟨ho₁, ho'⟩ := List.pairwise_cons.1 ho
    -- both heads have one key: the newer one is taken, and the older one dropped
    have heq : k = j := Std.le_antisymm (Std.not_lt.1 hjk) (Std.not_lt.1 hkj)
    subst heq
    rw [List.mem_cons, ih hn' ho']
    constructor
    · rintro (rfl | h | ⟨h, h'⟩)
      · simp
      · simp [h]
      · refine .inr ⟨by simp [h], fun y hy => ?_⟩
        rcases List.mem_cons.1 hy with rfl | hy
        · exact fun he => Std.lt_irrefl ((show k = x.1 from he) ▸ ho₁ x h)
        · exact h' y hy
    · rintro (h | ⟨h, h'⟩)
      · rcases List.mem_cons.1 h with h | h <;> simp [h]
      · rcases List.mem_cons.1 h with rfl | h
        · exact absurd rfl (h' (k, a) (by simp))
        · exact .inr (.inr ⟨h, fun y hy => h' y (List.mem_cons_of_mem _ hy)⟩)

/-- Where the newer map binds a key its binding shows, elsewhere the older one's. -/
@[simp] theorem get?_overlay (newer older : SortedMap κ α) (k : κ) :
    (newer.overlay older).get? k = (newer.get? k).or (older.get? k) := by
  refine Option.ext fun a => ?_
  rw [get?_eq_some_iff, Option.or_eq_some_iff, get?_eq_some_iff, get?_eq_some_iff, get?_eq_none_iff]
  unfold overlay
  rw [mem_merge_iff newer.sorted older.sorted]
  refine or_congr Iff.rfl (and_comm.trans (and_congr_left fun _ => ?_))
  exact ⟨fun h b hb => h (k, b) hb rfl, fun h y hy hk => h y.2 ((show y.1 = k from hk) ▸ hy)⟩

/-- An insertion changes what is held under its key. -/
@[simp] theorem get?_insert (m : SortedMap κ α) (k j : κ) (a : α) :
    (m.insert k a).get? j = if k = j then some a else m.get? j := by
  rw [insert, get?_overlay, get?_singleton]
  by_cases h : k = j <;> simp [h]

/-- An alteration changes what is held under its key. -/
@[simp] theorem get?_alter (m : SortedMap κ α) (k j : κ) (f : Option α → Option α) :
    (m.alter k f).get? j = if k = j then f (m.get? k) else m.get? j := by
  unfold alter
  split
  · rename_i a h
    rw [get?_insert, h]
  · rename_i h
    rw [get?_erase, h]
    by_cases hj : j = k
    · simp [hj]
    · rw [if_neg hj, if_neg (Ne.symm hj)]

/-! ### Bindings that are there already -/

/-- To insert a binding that is there changes nothing. -/
theorem insert_of_get? {m : SortedMap κ α} {k : κ} {a : α} (h : m.get? k = some a) : m.insert k a = m := by
  refine ext_get? fun j => ?_
  rw [get?_insert]
  split
  · next hj => rw [← hj, h]
  · rfl

omit [DecidableLT κ] in
/-- Erasing a key that is not there changes nothing. -/
theorem erase_of_get?_eq_none {m : SortedMap κ α} {k : κ} (h : m.get? k = none) : m.erase k = m := by
  refine ext_get? fun j => ?_
  rw [get?_erase]
  split
  · next hj => rw [hj, h]
  · rfl

end SortedMap

end SecondaryIndex
