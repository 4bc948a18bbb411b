/-!
# Sets of characters

A property of characters is given by the ranges of the code points that have it. The ranges of a set
are closed, ascending and apart, so they are a normal form: no two lists of them stand for one set.
-/

namespace SecondaryIndex

/-- Closed ranges of code points. -/
abbrev CharRanges := List (Nat × Nat)

namespace CharRanges

def contains (ranges : CharRanges) (c : Char) : Bool :=
  ranges.any fun r => r.1 ≤ c.toNat && c.toNat ≤ r.2

/-- Whether the ranges are ascending and apart. -/
def isOrdered : CharRanges → Bool
  | [] => true
  | [r] => r.1 ≤ r.2
  | r :: s :: rest => r.1 ≤ r.2 && r.2 + 1 < s.1 && isOrdered (s :: rest)

/-- How many code points lie in the ranges. -/
def count (ranges : CharRanges) : Nat := ranges.foldl (fun n r => n + (r.2 + 1 - r.1)) 0

theorem contains_of_mem {ranges : CharRanges} {r : Nat × Nat} {c : Char} (h : r ∈ ranges)
    (low : r.1 ≤ c.toNat) (high : c.toNat ≤ r.2) : ranges.contains c = true := by
  rw [contains, List.any_eq_true]
  exact ⟨r, h, by simp [low, high]⟩

end CharRanges

end SecondaryIndex
