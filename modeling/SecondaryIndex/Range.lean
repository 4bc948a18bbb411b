import SecondaryIndex.Bytes.Basic
import SecondaryIndex.SortedMap.Lemmas

/-!
# Ranges of keys

A range lies between two bounds, either of which may be absent, inclusive or exclusive. A range
whose bounds are inverted, or touch without both including the key they share, holds no key; such a
range is recognised before a map is searched.
-/

namespace SecondaryIndex

/-- One end of a range of keys. -/
inductive Bound
  | unbounded
  | included (key : Bytes)
  | excluded (key : Bytes)
  deriving DecidableEq, Repr

namespace Bound

/-- Whether a key lies on the inner side of a lower bound. -/
def below : Bound → Bytes → Bool
  | unbounded, _ => true
  | included low, key => low ≤ key
  | excluded low, key => low < key

/-- Whether a key lies on the inner side of an upper bound. -/
def above : Bound → Bytes → Bool
  | unbounded, _ => true
  | included high, key => key ≤ high
  | excluded high, key => key < high

/-- The key of a bound, and whether it is included. -/
def key? : Bound → Option (Bytes × Bool)
  | unbounded => none
  | included key => some (key, true)
  | excluded key => some (key, false)

/-- What lies below a key within an upper bound is within it too. -/
theorem above_of_lt {bound : Bound} {key key' : Bytes} (hlt : key' < key)
    (h : bound.above key = true) : bound.above key' = true := by
  cases bound with
  | unbounded => rfl
  | included high =>
    simp only [above, decide_eq_true_iff] at h ⊢
    exact Std.le_of_lt (Std.lt_of_lt_of_le hlt h)
  | excluded high =>
    simp only [above, decide_eq_true_iff] at h ⊢
    exact Std.lt_trans hlt h

end Bound

/-- The keys between two bounds. -/
structure Range where
  lower : Bound
  upper : Bound
  deriving DecidableEq, Repr

namespace Range

/-- The range of all keys. -/
def all : Range := ⟨.unbounded, .unbounded⟩

/-- Whether a key satisfies both bounds. -/
def contains (range : Range) (key : Bytes) : Bool := range.lower.below key && range.upper.above key

/-- Whether the bounds are inverted, or touch without both including their key. -/
def isEmpty (range : Range) : Bool :=
  match range.lower.key?, range.upper.key? with
  | some (low, lowIncluded), some (high, highIncluded) =>
    high < low || (low == high && !(lowIncluded && highIncluded))
  | _, _ => false

/-- A range that is recognised as empty holds no key. -/
theorem contains_eq_false_of_isEmpty {range : Range} (h : range.isEmpty = true) (key : Bytes) :
    range.contains key = false := by
  obtain ⟨lower, upper⟩ := range
  rw [Bool.eq_false_iff]
  intro hc
  cases lower <;> cases upper <;>
    simp [isEmpty, Bound.key?, contains, Bound.below, Bound.above] at h hc
  · obtain ⟨h₁, h₂⟩ := hc
    exact absurd (Std.lt_of_lt_of_le h (Std.le_trans h₁ h₂)) Std.lt_irrefl
  · obtain ⟨h₁, h₂⟩ := hc
    have h₃ := Std.lt_of_le_of_lt h₁ h₂
    rcases h with h | h
    · exact absurd (Std.lt_trans h h₃) Std.lt_irrefl
    · exact absurd (h ▸ h₃) Std.lt_irrefl
  · obtain ⟨h₁, h₂⟩ := hc
    have h₃ := Std.lt_of_lt_of_le h₁ h₂
    rcases h with h | h
    · exact absurd (Std.lt_trans h h₃) Std.lt_irrefl
    · exact absurd (h ▸ h₃) Std.lt_irrefl
  · obtain ⟨h₁, h₂⟩ := hc
    have h₃ := Std.lt_trans h₁ h₂
    rcases h with h | h
    · exact absurd (Std.lt_trans h h₃) Std.lt_irrefl
    · exact absurd (h ▸ h₃) Std.lt_irrefl

end Range

namespace SortedMap

variable {α : Type}

/-- The part of a map in a range of keys. -/
def within (m : SortedMap Bytes α) (range : Range) : SortedMap Bytes α :=
  if range.isEmpty then ∅ else m.restrict range.contains

/-- A key shows in the part of a map exactly if it lies in the range. -/
@[simp] theorem get?_within (m : SortedMap Bytes α) (range : Range) (key : Bytes) :
    (m.within range).get? key = if range.contains key then m.get? key else none := by
  unfold within
  split
  · rename_i h
    simp [Range.contains_eq_false_of_isEmpty h key]
  · simp

end SortedMap

end SecondaryIndex
