import SecondaryIndex.Text.CharRanges

/-!
# Blanks

The characters that separate words: those with the Unicode property White_Space.
-/

namespace SecondaryIndex

def blankRanges : CharRanges :=
  [(0x9, 0xd), (0x20, 0x20), (0x85, 0x85), (0xa0, 0xa0), (0x1680, 0x1680), (0x2000, 0x200a),
    (0x2028, 0x2029), (0x202f, 0x202f), (0x205f, 0x205f), (0x3000, 0x3000)]

/-- Whether a character separates words. -/
def isBlank (c : Char) : Bool := blankRanges.contains c

example : blankRanges.isOrdered = true ∧ blankRanges.count = 25 := by decide

/-- Every character that core takes for whitespace is a blank. -/
theorem isBlank_of_isWhitespace {c : Char} (h : c.isWhitespace = true) : isBlank c = true := by
  simp only [Char.isWhitespace, Bool.or_eq_true, decide_eq_true_eq] at h
  rcases h with ((h | h) | h) | h <;> subst h <;> decide

/-- Not every character is one. -/
example : isBlank 'a' = false ∧ isBlank '\u200b' = false := by decide

end SecondaryIndex
