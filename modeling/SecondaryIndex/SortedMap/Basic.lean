/-!
# Sorted maps

Finite maps kept as association lists in strictly ascending key order. Order is part of the type, so
a map is listed, filtered to a range and compared with another map without sorting anything again.

Everything that writes goes through one operation, `SortedMap.overlay`: laying a newer map over an
older one, where the newer binding of a key wins. Inserting is laying a one-entry map over the rest,
and a batch of writes is laid over a table in the same way. A map of *slots*, `SortedMap κ (Option
α)`, also records removals: a slot `none` is a tombstone, and `SortedMap.live` forgets the
tombstones.

The view of a map is the partial function `SortedMap.get?`; what each operation does to it is said
in `SortedMap/Lemmas.lean`.
-/

namespace SecondaryIndex

/-- A finite map whose entries are listed in strictly ascending key order. -/
structure SortedMap (κ α : Type) [LT κ] where
  /-- The bindings, in key order. -/
  entries : List (κ × α)
  /-- Each key lies strictly below every later one. -/
  sorted : entries.Pairwise (fun a b => a.1 < b.1)
  deriving DecidableEq

namespace SortedMap

variable {κ α β : Type} [LT κ]

def empty : SortedMap κ α := ⟨[], .nil⟩

instance : EmptyCollection (SortedMap κ α) := ⟨empty⟩

instance : Inhabited (SortedMap κ α) := ⟨empty⟩

def singleton (k : κ) (a : α) : SortedMap κ α := ⟨[(k, a)], List.pairwise_singleton _ _⟩

def size (m : SortedMap κ α) : Nat := m.entries.length

def isEmpty (m : SortedMap κ α) : Bool := m.entries.isEmpty

/-- The bound keys, ascending. -/
def keys (m : SortedMap κ α) : List κ := m.entries.map Prod.fst

/-- The bound values, in the order of their keys. -/
def values (m : SortedMap κ α) : List α := m.entries.map Prod.snd

/-- The entry with the smallest key. -/
def min? (m : SortedMap κ α) : Option (κ × α) := m.entries.head?

/-- Keeps the entries that pass a test of key and value. -/
def filter (keep : κ → α → Bool) (m : SortedMap κ α) : SortedMap κ α :=
  ⟨m.entries.filter fun e => keep e.1 e.2, m.sorted.filter _⟩

/-- Keeps the entries whose key passes a test. -/
def restrict (keep : κ → Bool) (m : SortedMap κ α) : SortedMap κ α :=
  m.filter fun k _ => keep k

theorem sorted_mapEntries (f : κ → α → β) {l : List (κ × α)}
    (h : l.Pairwise (fun a b => a.1 < b.1)) :
    (l.map fun e => (e.1, f e.1 e.2)).Pairwise (fun a b => a.1 < b.1) :=
  List.pairwise_map.2 h

/-- Replaces every value by its image, which may depend on its key. -/
def mapEntries (f : κ → α → β) (m : SortedMap κ α) : SortedMap κ β :=
  ⟨m.entries.map fun e => (e.1, f e.1 e.2), sorted_mapEntries f m.sorted⟩

def mapValues (f : α → β) (m : SortedMap κ α) : SortedMap κ β := m.mapEntries fun _ => f

theorem sorted_live {l : List (κ × Option α)} (h : l.Pairwise (fun a b => a.1 < b.1)) :
    (l.filterMap fun e => e.2.map (e.1, ·)).Pairwise (fun a b => a.1 < b.1) := by
  refine List.Pairwise.filterMap _ ?_ h
  rintro ⟨k, s⟩ ⟨j, t⟩ hlt b hb c hc
  obtain ⟨x, -, rfl⟩ := Option.map_eq_some_iff.1 hb
  obtain ⟨y, -, rfl⟩ := Option.map_eq_some_iff.1 hc
  exact hlt

/-- Forgets the tombstones of a map of slots. -/
def live (m : SortedMap κ (Option α)) : SortedMap κ α :=
  ⟨m.entries.filterMap fun e => e.2.map (e.1, ·), sorted_live m.sorted⟩

/-- Reads every value as a slot that holds it. -/
def slots (m : SortedMap κ α) : SortedMap κ (Option α) := m.mapValues some

section Lookup

variable [DecidableEq κ]

/-- The value bound to `k`, if `k` is bound. -/
def get? (m : SortedMap κ α) (k : κ) : Option α :=
  (m.entries.find? fun e => e.1 = k).map Prod.snd

/-- Whether `k` is bound. -/
def contains (m : SortedMap κ α) (k : κ) : Bool := (m.get? k).isSome

/-- The value bound to `k`, or `fallback`. -/
def getD (m : SortedMap κ α) (k : κ) (fallback : α) : α := (m.get? k).getD fallback

/-- Unbinds `k`. -/
def erase (m : SortedMap κ α) (k : κ) : SortedMap κ α := m.restrict fun j => j ≠ k

end Lookup

section Merge

variable [DecidableLT κ]

/-- Merges two ascending lists of entries; on a key of both, the entry of the first list stays. -/
def merge : List (κ × α) → List (κ × α) → List (κ × α)
  | [], older => older
  | newer, [] => newer
  | (k, a) :: newer, (j, b) :: older =>
    -- the older key is tried first, since most writes go behind the keys that are there
    if j < k then (j, b) :: merge ((k, a) :: newer) older
    else if k < j then (k, a) :: merge newer ((j, b) :: older)
    else (k, a) :: merge newer older
termination_by newer older => newer.length + older.length

theorem mem_of_mem_merge {x : κ × α} {newer older : List (κ × α)}
    (h : x ∈ merge newer older) : x ∈ newer ∨ x ∈ older := by
  fun_induction merge newer older with
  | case1 => exact .inr h
  | case2 => exact .inl h
  | case3 k a newer j b older _ ih =>
    rcases List.mem_cons.1 h with rfl | h
    · simp
    · rcases ih h with h | h <;> simp [h]
  | case4 k a newer j b older _ _ ih =>
    rcases List.mem_cons.1 h with rfl | h
    · simp
    · rcases ih h with h | h <;> simp [h]
  | case5 k a newer j b older _ _ ih =>
    rcases List.mem_cons.1 h with rfl | h
    · simp
    · rcases ih h with h | h <;> simp [h]

variable [LE κ] [Std.IsLinearOrder κ] [Std.LawfulOrderLT κ]

theorem sorted_merge {newer older : List (κ × α)}
    (hn : newer.Pairwise (fun a b => a.1 < b.1)) (ho : older.Pairwise (fun a b => a.1 < b.1)) :
    (merge newer older).Pairwise (fun a b => a.1 < b.1) := by
  fun_induction merge newer older with
  | case1 => exact ho
  | case2 => exact hn
  | case3 k a newer j b older hlt ih =>
    -- the head of the older list comes first, and what follows is of either list
    have ho' := List.pairwise_cons.1 ho
    refine List.pairwise_cons.2 ⟨fun x hx => ?_, ih hn ho'.2⟩
    rcases mem_of_mem_merge hx with hx | hx
    · rcases List.mem_cons.1 hx with rfl | hx
      · exact hlt
      · exact Std.lt_trans hlt ((List.pairwise_cons.1 hn).1 x hx)
    · exact ho'.1 x hx
  | case4 k a newer j b older _ hlt ih =>
    have hn' := List.pairwise_cons.1 hn
    refine List.pairwise_cons.2 ⟨fun x hx => ?_, ih hn'.2 ho⟩
    rcases mem_of_mem_merge hx with hx | hx
    · exact hn'.1 x hx
    · rcases List.mem_cons.1 hx with rfl | hx
      · exact hlt
      · exact Std.lt_trans hlt ((List.pairwise_cons.1 ho).1 x hx)
  | case5 k a newer j b older hjk hkj ih =>
    have hn' := List.pairwise_cons.1 hn
    have ho' := List.pairwise_cons.1 ho
    have heq : k = j := Std.le_antisymm (Std.not_lt.1 hjk) (Std.not_lt.1 hkj)
    refine List.pairwise_cons.2 ⟨fun x hx => ?_, ih hn'.2 ho'.2⟩
    rcases mem_of_mem_merge hx with hx | hx
    · exact hn'.1 x hx
    · exact heq ▸ ho'.1 x hx

/-- Lays `newer` over `older`: a key of both keeps its newer binding. -/
def overlay (newer older : SortedMap κ α) : SortedMap κ α :=
  ⟨merge newer.entries older.entries, sorted_merge newer.sorted older.sorted⟩

/-- Binds `k` to `a`, replacing any former binding. -/
def insert (m : SortedMap κ α) (k : κ) (a : α) : SortedMap κ α := (singleton k a).overlay m

/-- Changes the binding of `k` by a function; `none` stands for no binding, before and after. -/
def alter [DecidableEq κ] (m : SortedMap κ α) (k : κ) (f : Option α → Option α) : SortedMap κ α :=
  match f (m.get? k) with
  | some a => m.insert k a
  | none => m.erase k

end Merge

end SortedMap

end SecondaryIndex
