import SecondaryIndex.Proofs.Store.Iterator

/-!
# Where a raw iterator rests

A raw iterator keeps the index of the key it rests on. What it should do can be said without indices and
without lists, on the set of its keys: a seek leads to the least or the greatest key of a kind, a step
to the least key above the last position or the greatest below it, and where there is no such key the
iterator rests on none. `RawMove.LeadsTo` says this of one move and `RawMove.Courses` of a sequence.

`RawIterator.Placed.courses_iff` is the main result: wherever the keys are ascending, a reference cursor over the
set of the keys rests on a key after some moves exactly if the iterator does. One move is
`RawIterator.Placed.leadsTo`, and the sequence follows by induction.
-/

namespace SecondaryIndex

/-- Whether a position is the least member of a set, or none if there is no member. -/
def Least (S : Bytes → Prop) : Option Bytes → Prop
  | some key => S key ∧ ∀ other, S other → key ≤ other
  | none => ∀ key, ¬ S key

/-- Whether a position is the greatest member of a set, or none if there is no member. -/
def Greatest (S : Bytes → Prop) : Option Bytes → Prop
  | some key => S key ∧ ∀ other, S other → other ≤ key
  | none => ∀ key, ¬ S key

section Extremes

variable {S T : Bytes → Prop} {a b : Option Bytes}

/-- There is one least key at most. -/
theorem Least.unique (ha : Least S a) (hb : Least S b) : a = b := by
  cases a with
  | none =>
    cases b with
    | none => rfl
    | some key => exact absurd hb.1 (ha key)
  | some key =>
    cases b with
    | none => exact absurd ha.1 (hb key)
    | some other => exact congrArg some (Std.le_antisymm (ha.2 other hb.1) (hb.2 key ha.1))

/-- There is one greatest key at most. -/
theorem Greatest.unique (ha : Greatest S a) (hb : Greatest S b) : a = b := by
  cases a with
  | none =>
    cases b with
    | none => rfl
    | some key => exact absurd hb.1 (ha key)
  | some key =>
    cases b with
    | none => exact absurd ha.1 (hb key)
    | some other => exact congrArg some (Std.le_antisymm (hb.2 key ha.1) (ha.2 other hb.1))

/-- The least key depends only on which keys there are. -/
theorem Least.congr (h : Least S a) (hiff : ∀ key, S key ↔ T key) : Least T a := by
  cases a with
  | none => exact fun key hkey => h key ((hiff key).2 hkey)
  | some key => exact ⟨(hiff key).1 h.1, fun other hother => h.2 other ((hiff other).2 hother)⟩

/-- The greatest key depends only on which keys there are. -/
theorem Greatest.congr (h : Greatest S a) (hiff : ∀ key, S key ↔ T key) : Greatest T a := by
  cases a with
  | none => exact fun key hkey => h key ((hiff key).2 hkey)
  | some key => exact ⟨(hiff key).1 h.1, fun other hother => h.2 other ((hiff other).2 hother)⟩

variable {keys : List Bytes}

/-- In a sorted list a later key is not less. -/
theorem getElem?_le (hsorted : keys.Pairwise (· < ·)) {i j : Nat} {p q : Bytes}
    (hp : keys[i]? = some p) (hq : keys[j]? = some q) (hij : i ≤ j) : p ≤ q := by
  obtain ⟨hi, rfl⟩ := List.getElem?_eq_some_iff.1 hp
  obtain ⟨hj, rfl⟩ := List.getElem?_eq_some_iff.1 hq
  rcases Nat.lt_or_eq_of_le hij with hlt | rfl
  · exact Std.le_of_lt (List.pairwise_iff_getElem.1 hsorted i j hi hj hlt)
  · exact Std.le_refl _

/-- Of ascending keys, the one with the lesser index is below. -/
theorem getElem?_lt_iff (hsorted : keys.Pairwise (· < ·)) {i j : Nat} {p q : Bytes}
    (hp : keys[i]? = some p) (hq : keys[j]? = some q) : p < q ↔ i < j := by
  constructor
  · intro hlt
    refine Nat.lt_of_not_le fun hji => ?_
    exact Std.lt_irrefl (Std.lt_of_lt_of_le hlt (getElem?_le hsorted hq hp hji))
  · intro hij
    obtain ⟨hi, rfl⟩ := List.getElem?_eq_some_iff.1 hp
    obtain ⟨hj, rfl⟩ := List.getElem?_eq_some_iff.1 hq
    exact List.pairwise_iff_getElem.1 hsorted i j hi hj hij

/-- The first of the keys from an index on. -/
theorem least_getElem? (hsorted : keys.Pairwise (· < ·)) (m : Nat) :
    Least (fun key => ∃ j, m ≤ j ∧ keys[j]? = some key) keys[m]? := by
  cases hm : keys[m]? with
  | some key => exact ⟨⟨m, Nat.le_refl m, hm⟩, fun other ⟨j, hj, hother⟩ => getElem?_le hsorted hm hother hj⟩
  | none =>
    rintro key ⟨j, hj, hkey⟩
    have hlength := List.getElem?_eq_none_iff.1 hm
    obtain ⟨hlt, -⟩ := List.getElem?_eq_some_iff.1 hkey
    omega

/-- The last of the keys before an index. -/
theorem greatest_getElem? (hsorted : keys.Pairwise (· < ·)) {m : Nat} (hm : m ≤ keys.length) :
    Greatest (fun key => ∃ j, j < m ∧ keys[j]? = some key) (if m = 0 then none else keys[m - 1]?) := by
  split
  · rintro key ⟨j, hj, -⟩
    omega
  · have hlast : m - 1 < keys.length := by omega
    rw [List.getElem?_eq_getElem hlast]
    refine ⟨⟨m - 1, by omega, List.getElem?_eq_getElem hlast⟩, fun other ⟨j, hj, hother⟩ => ?_⟩
    exact getElem?_le hsorted hother (List.getElem?_eq_getElem hlast) (by omega)

end Extremes

/-- A move of a raw iterator. -/
inductive RawMove
  | seekFirst
  | seekLast
  | seek (target : Bytes)
  | next
  | prev

namespace RawMove

/-- Makes a move. -/
def apply (it : RawIterator) : RawMove → RawIterator
  | seekFirst => it.seekFirst
  | seekLast => it.seekLast
  | seek target => it.seek target
  | next => it.next
  | prev => it.prev

/-- Whether a move is a step, which depends on where it starts. -/
def isStep : RawMove → Bool
  | next => true
  | prev => true
  | _ => false

/-- Where a move of a reference cursor over a set of keys leads from a position. -/
def LeadsTo (visible : Bytes → Prop) (start : Option Bytes) : RawMove → Option Bytes → Prop
  | seekFirst => Least visible
  | seekLast => Greatest visible
  | seek target => Least fun key => visible key ∧ target ≤ key
  | next => Least fun key => visible key ∧ ∃ current, start = some current ∧ current < key
  | prev => Greatest fun key => visible key ∧ ∃ current, start = some current ∧ key < current

/-- Where a sequence of moves of a reference cursor over a set of keys leads from a position. -/
inductive Courses (visible : Bytes → Prop) : Option Bytes → List RawMove → Option Bytes → Prop
  | stay (start : Option Bytes) : Courses visible start [] start
  | move {start between goal : Option Bytes} {move : RawMove} {moves : List RawMove}
    (first : move.LeadsTo visible start between) (rest : Courses visible between moves goal) :
    Courses visible start (move :: moves) goal

end RawMove

namespace RawIterator

variable {it : RawIterator} {move : RawMove}

/-- The iterator after some moves. -/
def after (it : RawIterator) (moves : List RawMove) : RawIterator := moves.foldl RawMove.apply it

/-- An iterator rests on one of its keys or on none. -/
def Placed (it : RawIterator) : Prop := ∀ i, it.place = some i → i < it.keys.length

theorem Placed.isSome_eq (h : it.Placed) : it.place.isSome = it.key?.isSome := by
  unfold key?
  cases hplace : it.place with
  | none => rfl
  | some i => simp [h i hplace]

/-- A move of an iterator keeps its keys. -/
theorem apply_keys (it : RawIterator) (move : RawMove) : (move.apply it).keys = it.keys := by
  cases move <;> rfl

/-- Every move leads to one of the keys or to none. -/
theorem Placed.apply (h : it.Placed) (move : RawMove) : (move.apply it).Placed := by
  intro i hi
  rw [apply_keys]
  cases move with
  | seekFirst =>
    cases hkeys : it.keys <;> simp_all [RawMove.apply, seekFirst]
    omega
  | seekLast =>
    cases hkeys : it.keys <;> simp_all [RawMove.apply, seekLast]
  | seek target =>
    rcases it.seek_cases target with ⟨hnone, -⟩ | ⟨m, p, hm, hsome, -⟩
    · rw [RawMove.apply, hnone] at hi
      cases hi
    · rw [RawMove.apply, hsome] at hi
      cases hi
      exact (List.getElem?_eq_some_iff.1 hm).1
  | next =>
    obtain ⟨k, -, hk⟩ := Option.bind_eq_some_iff.1 hi
    split at hk
    · cases hk
      assumption
    · cases hk
  | prev =>
    obtain ⟨k, hplace, hk⟩ := Option.bind_eq_some_iff.1 hi
    have hlt := h k hplace
    split at hk
    · cases hk
    · have hbefore : k - 1 = i := Option.some.inj hk
      omega

/-- Once an iterator rests on no key, it does so until it seeks. -/
theorem place_after_of_steps {moves : List RawMove} (hsteps : ∀ move ∈ moves, move.isStep = true)
    (hnone : it.place = none) : (it.after moves).place = none := by
  induction moves generalizing it with
  | nil => exact hnone
  | cons move moves ih =>
    refine ih (fun move hmove => hsteps move (List.mem_cons_of_mem _ hmove)) ?_
    have hstep := hsteps move List.mem_cons_self
    cases move with
    | next => simp [RawMove.apply, next, hnone]
    | prev => simp [RawMove.apply, prev, hnone]
    | seekFirst => cases hstep
    | seekLast => cases hstep
    | seek target => cases hstep

theorem after_append (it : RawIterator) (moves steps : List RawMove) :
    it.after (moves ++ steps) = (it.after moves).after steps := List.foldl_append

/-- An iterator that rests on a key or nowhere does so after any moves. -/
theorem Placed.after (h : it.Placed) (moves : List RawMove) : (it.after moves).Placed := by
  induction moves generalizing it with
  | nil => exact h
  | cons move moves ih => exact ih (h.apply move)

/-! ### One move -/

variable {i : Nat}

theorem key?_seekFirst (it : RawIterator) : it.seekFirst.key? = it.keys[0]? := by
  cases hkeys : it.keys <;> simp [seekFirst, key?, hkeys]

theorem key?_seekLast (it : RawIterator) :
    it.seekLast.key? = if it.keys.length = 0 then none else it.keys[it.keys.length - 1]? := by
  cases hkeys : it.keys <;> simp [seekLast, key?, hkeys]

/-- The next key is the one in the list that comes after. -/
theorem key?_next (h : it.place = some i) : it.next.key? = it.keys[i + 1]? := by
  by_cases hi : i + 1 < it.keys.length <;> simp [next, key?, h, hi]

theorem key?_prev (h : it.place = some i) :
    it.prev.key? = if i = 0 then none else it.keys[i - 1]? := by
  by_cases hi : i = 0 <;> simp [prev, key?, h, hi]

/-- A seek rests on the first of the keys that are not below the one sought. -/
theorem exists_key?_seek (hsorted : it.keys.Pairwise (· < ·)) (target : Bytes) :
    ∃ m : Nat, (it.seek target).key? = it.keys[m]? ∧
      ∀ (j : Nat) (q : Bytes), it.keys[j]? = some q → (m ≤ j ↔ target ≤ q) := by
  rcases it.seek_cases target with ⟨hnone, hall⟩ | ⟨m, p, hm, hsome, hreached, hpassed⟩
  · refine ⟨it.keys.length, by simp [key?, hnone], fun j q hq => ?_⟩
    have hlt := hall q (List.mem_of_getElem? hq)
    obtain ⟨hj, -⟩ := List.getElem?_eq_some_iff.1 hq
    exact ⟨fun hle => by omega, fun hle => absurd (Std.lt_of_lt_of_le hlt hle) Std.lt_irrefl⟩
  · refine ⟨m, by rw [key?, hsome]; rfl, fun j q hq => ⟨fun hle => ?_, fun hle => ?_⟩⟩
    · exact Std.le_trans (Std.not_lt.1 hreached) (getElem?_le hsorted hm hq hle)
    · refine Nat.le_of_not_lt fun hlt => ?_
      exact Std.lt_irrefl (Std.lt_of_lt_of_le (hpassed j q hlt hq) hle)

/-- A seek comes to rest on the least key from its target on. -/
theorem least_seek (hsorted : it.keys.Pairwise (· < ·)) (target : Bytes) :
    Least (fun key => key ∈ it.keys ∧ target ≤ key) (it.seek target).key? := by
  obtain ⟨m, hkey, hiff⟩ := exists_key?_seek hsorted target
  rw [hkey]
  refine (least_getElem? hsorted m).congr fun key => ⟨?_, ?_⟩
  · rintro ⟨j, hj, hkey⟩
    exact ⟨List.mem_of_getElem? hkey, (hiff j key hkey).1 hj⟩
  · rintro ⟨hmem, hle⟩
    obtain ⟨j, hkey⟩ := List.mem_iff_getElem?.1 hmem
    exact ⟨j, (hiff j key hkey).2 hle, hkey⟩

/-- A step forward leads to the least key above the one it starts from. -/
theorem Placed.least_next (h : it.Placed) (hsorted : it.keys.Pairwise (· < ·)) :
    Least (fun key => key ∈ it.keys ∧ ∃ current, it.key? = some current ∧ current < key)
      it.next.key? := by
  cases hplace : it.place with
  | none =>
    have hstart : it.key? = none := by simp [key?, hplace]
    have hgoal : it.next.key? = none := by simp [next, key?, hplace]
    rw [hstart, hgoal]
    rintro key ⟨-, current, hnone, -⟩
    cases hnone
  | some i =>
    have hi := h i hplace
    have hstart : it.key? = some it.keys[i] := by simp [key?, hplace, hi]
    have hp := List.getElem?_eq_getElem hi
    rw [key?_next hplace, hstart]
    refine (least_getElem? hsorted (i + 1)).congr fun key => ⟨?_, ?_⟩
    · rintro ⟨j, hj, hkey⟩
      exact ⟨List.mem_of_getElem? hkey, _, rfl, (getElem?_lt_iff hsorted hp hkey).2 hj⟩
    · rintro ⟨hmem, _, ⟨⟩, hlt⟩
      obtain ⟨j, hkey⟩ := List.mem_iff_getElem?.1 hmem
      exact ⟨j, (getElem?_lt_iff hsorted hp hkey).1 hlt, hkey⟩

/-- A step backward leads to the greatest key below the one it starts from. -/
theorem Placed.greatest_prev (h : it.Placed) (hsorted : it.keys.Pairwise (· < ·)) :
    Greatest (fun key => key ∈ it.keys ∧ ∃ current, it.key? = some current ∧ key < current)
      it.prev.key? := by
  cases hplace : it.place with
  | none =>
    have hstart : it.key? = none := by simp [key?, hplace]
    have hgoal : it.prev.key? = none := by simp [prev, key?, hplace]
    rw [hstart, hgoal]
    rintro key ⟨-, current, hnone, -⟩
    cases hnone
  | some i =>
    have hi := h i hplace
    have hstart : it.key? = some it.keys[i] := by simp [key?, hplace, hi]
    have hp := List.getElem?_eq_getElem hi
    rw [key?_prev hplace, hstart]
    refine (greatest_getElem? hsorted (Nat.le_of_lt hi)).congr fun key => ⟨?_, ?_⟩
    · rintro ⟨j, hj, hkey⟩
      exact ⟨List.mem_of_getElem? hkey, _, rfl, (getElem?_lt_iff hsorted hkey hp).2 hj⟩
    · rintro ⟨hmem, _, ⟨⟩, hlt⟩
      obtain ⟨j, hkey⟩ := List.mem_iff_getElem?.1 hmem
      exact ⟨j, (getElem?_lt_iff hsorted hkey hp).1 hlt, hkey⟩

/-- A move of an iterator is that of a reference cursor over its keys. -/
theorem Placed.leadsTo (h : it.Placed) (hsorted : it.keys.Pairwise (· < ·)) (move : RawMove) :
    move.LeadsTo (· ∈ it.keys) it.key? (move.apply it).key? := by
  cases move with
  | seekFirst =>
    show Least _ it.seekFirst.key?
    rw [key?_seekFirst]
    exact (least_getElem? hsorted 0).congr fun key => by simp [List.mem_iff_getElem?]
  | seekLast =>
    show Greatest _ it.seekLast.key?
    rw [key?_seekLast]
    refine (greatest_getElem? hsorted (Nat.le_refl _)).congr fun key => ?_
    rw [List.mem_iff_getElem?]
    exact exists_congr fun j => and_iff_right_of_imp fun hj => (List.getElem?_eq_some_iff.1 hj).1
  | seek target => exact least_seek hsorted target
  | next => exact h.least_next hsorted
  | prev => exact h.greatest_prev hsorted

/-! ### Sequences of moves -/

/-- The moves of an iterator follow the course of its visible keys. -/
theorem Placed.courses (h : it.Placed) (hsorted : it.keys.Pairwise (· < ·)) (moves : List RawMove) :
    RawMove.Courses (· ∈ it.keys) it.key? moves (it.after moves).key? := by
  induction moves generalizing it with
  | nil => exact .stay _
  | cons move moves ih =>
    have hkeys := apply_keys it move
    have hrest := ih (h.apply move) (hkeys ▸ hsorted)
    rw [hkeys] at hrest
    exact .move (h.leadsTo hsorted move) hrest

end RawIterator

/-- A move of a reference cursor leads to one position. -/
theorem RawMove.LeadsTo.unique {visible : Bytes → Prop} {start a b : Option Bytes} {move : RawMove}
    (ha : move.LeadsTo visible start a) (hb : move.LeadsTo visible start b) : a = b := by
  cases move with
  | seekFirst => exact Least.unique ha hb
  | seekLast => exact Greatest.unique ha hb
  | seek target => exact Least.unique ha hb
  | next => exact Least.unique ha hb
  | prev => exact Greatest.unique ha hb

/-- A course of moves has one end. -/
theorem RawMove.Courses.unique {visible : Bytes → Prop} {start a b : Option Bytes}
    {moves : List RawMove} (ha : Courses visible start moves a) (hb : Courses visible start moves b) :
    a = b := by
  induction ha with
  | stay start =>
    cases hb
    rfl
  | move first rest ih =>
    cases hb with
    | move first' rest' =>
      obtain rfl := first.unique first'
      exact ih rest'

namespace RawIterator

/-- An iterator rests where a reference cursor over the set of its keys rests. -/
theorem Placed.courses_iff {it : RawIterator} (h : it.Placed) (hsorted : it.keys.Pairwise (· < ·))
    (moves : List RawMove) (goal : Option Bytes) :
    RawMove.Courses (· ∈ it.keys) it.key? moves goal ↔ goal = (it.after moves).key? := by
  constructor
  · exact fun hgoal => hgoal.unique (h.courses hsorted moves)
  · rintro rfl
    exact h.courses hsorted moves

end RawIterator

end SecondaryIndex
