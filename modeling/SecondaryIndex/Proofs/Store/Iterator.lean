import Mathlib.Logic.Function.Iterate
import SecondaryIndex.Store.Iterator

/-!
# Walking with a raw iterator

A walk from the first key on visits the keys one by one and then rests on none
(`RawIterator.key?_walk`), so it yields exactly the keys that were there when the iterator was opened
(`RawIterator.yields_iff`). Where a seek goes is `RawIterator.seek_cases`.
-/

namespace SecondaryIndex

namespace RawIterator

/-- Whether a walk from the first key on comes to rest on a key. -/
def Yields (it : RawIterator) (key : Bytes) : Prop :=
  ∃ n, (next^[n] it.seekFirst).key? = some key

theorem walk_eq (it : RawIterator) (n : Nat) :
    next^[n] it.seekFirst =
      { it with place := if n < it.keys.length then some n else none } := by
  induction n with
  | zero =>
    cases hkeys : it.keys <;> simp [seekFirst, hkeys]
  | succ n ih =>
    rw [Function.iterate_succ_apply', ih]
    by_cases h : n + 1 < it.keys.length
    · have hn : n < it.keys.length := Nat.lt_of_succ_lt h
      simp [next, h, hn]
    · by_cases hn : n < it.keys.length <;> simp [next, h, hn]

/-- The walk passes the keys in their order. -/
theorem key?_walk (it : RawIterator) (n : Nat) : (next^[n] it.seekFirst).key? = it.keys[n]? := by
  rw [walk_eq]
  by_cases h : n < it.keys.length <;> simp [key?, h]

/-- A seek rests on the first key that is not below the one sought, or on none if all are. -/
theorem seek_cases (it : RawIterator) (goal : Bytes) :
    ((it.seek goal).place = none ∧ ∀ p ∈ it.keys, p < goal) ∨
      ∃ m p, it.keys[m]? = some p ∧ (it.seek goal).place = some m ∧ ¬ p < goal ∧
        ∀ j (q : Bytes), j < m → it.keys[j]? = some q → q < goal := by
  unfold seek
  cases hfind : it.keys.findIdx? fun p => !decide (p < goal) with
  | none =>
    refine .inl ⟨rfl, fun p hp => ?_⟩
    simpa using List.findIdx?_eq_none_iff.1 hfind p hp
  | some m =>
    obtain ⟨hm, hreached, hpassed⟩ := List.findIdx?_eq_some_iff_getElem.1 hfind
    refine .inr ⟨m, it.keys[m], List.getElem?_eq_getElem hm, rfl, by simpa using hreached, ?_⟩
    intro j q hj hq
    obtain ⟨hj', rfl⟩ := List.getElem?_eq_some_iff.1 hq
    simpa using hpassed j hj

/-- An iterator yields the keys it runs over. -/
theorem yields_iff {it : RawIterator} {key : Bytes} : it.Yields key ↔ key ∈ it.keys := by
  simp only [Yields, key?_walk, List.mem_iff_getElem?]

end RawIterator

end SecondaryIndex
