import SecondaryIndex.Bytes.Basic

/-!
# Raw iterators

A raw iterator walks an ascending list of keys that was fixed when it was opened. It rests on a key
or on none. The three seeks place it anew; the two steps move it by one key and leave it resting on
none once they run off an end, and from then on they do nothing.
-/

namespace SecondaryIndex

/-- A walk over a fixed list of keys. -/
structure RawIterator where
  keys : List Bytes
  place : Option Nat := none

namespace RawIterator

def key? (it : RawIterator) : Option Bytes := it.place.bind fun i => it.keys[i]?

def seekFirst (it : RawIterator) : RawIterator :=
  { it with place := if it.keys.isEmpty then none else some 0 }

def seekLast (it : RawIterator) : RawIterator :=
  { it with place := if it.keys.isEmpty then none else some (it.keys.length - 1) }

/-- Rests on the first key that is not below `target`. -/
def seek (it : RawIterator) (target : Bytes) : RawIterator :=
  { it with place := it.keys.findIdx? fun key => !decide (key < target) }

def next (it : RawIterator) : RawIterator :=
  { it with place := it.place.bind fun i => if i + 1 < it.keys.length then some (i + 1) else none }

def prev (it : RawIterator) : RawIterator :=
  { it with place := it.place.bind fun i => if i = 0 then none else some (i - 1) }

/-- The keys that at most `steps` steps come across, from the present one on. -/
def collectFrom : (steps : Nat) → RawIterator → List Bytes
  | 0, _ => []
  | steps + 1, it =>
    match it.key? with
    | none => []
    | some key => key :: collectFrom steps it.next

/-- The keys that are come across from the first one on. An iterator over `n` keys runs off the end with its step
`n`. -/
def collect (it : RawIterator) : List Bytes := collectFrom it.keys.length it.seekFirst

/-- Collecting from a place gives the keys from there on, if there are steps enough. -/
theorem collectFrom_eq (it : RawIterator) {steps i : Nat} (hplace : it.place = some i)
    (hsteps : it.keys.length ≤ steps + i) : collectFrom steps it = it.keys.drop i := by
  induction steps generalizing it i with
  | zero => exact (List.drop_eq_nil_of_le (by omega)).symm
  | succ steps ih =>
    rw [collectFrom, key?, hplace, Option.bind_some]
    by_cases hi : i < it.keys.length
    · rw [List.getElem?_eq_getElem hi, List.drop_eq_getElem_cons hi]
      refine congrArg (it.keys[i] :: ·) ?_
      by_cases hlast : i + 1 < it.keys.length
      · exact ih it.next (by simp [next, hplace, hlast]) (by show it.keys.length ≤ _; omega)
      · -- the last step rests on nothing
        have hnone : it.next.key? = none := by simp [next, key?, hplace, hlast]
        rw [List.drop_eq_nil_of_le (by omega)]
        cases steps with
        | zero => rfl
        | succ steps => rw [collectFrom, hnone]
    · rw [List.getElem?_eq_none (by omega), List.drop_eq_nil_of_le (by omega)]

/-- Walked from end to end, an iterator gives all its keys. -/
@[simp] theorem collect_eq (it : RawIterator) : it.collect = it.keys := by
  unfold collect
  by_cases hempty : it.keys = []
  · rw [hempty]
    rfl
  · have hplace : it.seekFirst.place = some 0 := by simp [seekFirst, hempty]
    exact collectFrom_eq it.seekFirst hplace (Nat.le_refl _)

end RawIterator

end SecondaryIndex
