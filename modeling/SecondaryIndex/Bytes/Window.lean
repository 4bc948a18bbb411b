import SecondaryIndex.Error

/-!
# Windows

Stored items are read out of larger buffers. A window names a part of a buffer by offset and length,
and reading one that does not lie inside the buffer is an error, never a shorter answer.
-/

namespace SecondaryIndex

namespace Bytes

/-- The `length` bytes of the buffer that start at `offset`. -/
def window (buffer : Bytes) (offset length : Nat) : Except EncodingError Bytes :=
  if offset + length ≤ buffer.length then .ok ((buffer.drop offset).take length)
  else .error (.outsideBuffer offset length buffer.length)

theorem window_eq_ok_iff {buffer bytes : Bytes} {offset length : Nat} :
    buffer.window offset length = .ok bytes ↔
      offset + length ≤ buffer.length ∧ (buffer.drop offset).take length = bytes := by
  unfold window
  by_cases h : offset + length ≤ buffer.length <;> simp [h]

/-- The middle one of three joined byte strings is a window of the whole. -/
theorem window_append (before bytes after : Bytes) :
    (before ++ bytes ++ after).window before.length bytes.length = .ok bytes := by
  rw [window_eq_ok_iff]
  constructor
  · simp only [List.length_append]
    omega
  · simp

end Bytes

end SecondaryIndex
