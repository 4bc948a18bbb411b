import SecondaryIndex.Proofs.Cursor.Calls

/-!
# A cursor over a list

What a cursor of an index is to do can be said on a list. A cursor over a list stands at one of its
items, in the gap before the first, in the gap after the last, or it has not moved yet, or it is closed
(`Spot`). A `Course` is a list to walk, with the order in which its items stand and with the errors for
those items that it cannot be asked to seek. `Course.answer` is what a call on a cursor over the list
answers and where the cursor stands afterwards, and `Course.run` does this for any sequence of calls.

From every item a step in either direction is taken back by a step in the other one
(`Spot.prev_next`, `Spot.next_prev`); this holds at both ends of the list too.
-/

namespace SecondaryIndex

/-- Calls on a cursor with their answers, newest first. -/
abbrev CursorLog (α : Type) := List (CursorCall α × Except IndexError (CursorAnswer α))

/-- Where a cursor over a list of `n` items stands. -/
inductive Spot (n : Nat)
  | unopened
  /-- In the gap before the first item. -/
  | beforeFirst
  | item (i : Fin n)
  /-- In the gap after the last item. -/
  | afterLast
  | closed

namespace Spot

variable {n : Nat}

/-- At the item of a number, or at an edge if there is no such item. -/
def ofNat (edge : Spot n) (i : Nat) : Spot n := if h : i < n then item ⟨i, h⟩ else edge

/-- Where a step forward leads. -/
def next : Spot n → Spot n
  | unopened => ofNat afterLast 0
  | beforeFirst => ofNat afterLast 0
  | item i => ofNat afterLast (i + 1)
  | afterLast => afterLast
  | closed => closed

/-- Where a step backward leads. -/
def prev : Spot n → Spot n
  | unopened => ofNat beforeFirst (n - 1)
  | beforeFirst => beforeFirst
  | item ⟨0, _⟩ => beforeFirst
  | item ⟨i + 1, h⟩ => item ⟨i, Nat.lt_of_succ_lt h⟩
  | afterLast => ofNat beforeFirst (n - 1)
  | closed => closed

/-- The state that a spot shows as. -/
def state : Spot n → CursorState
  | unopened => .unopened
  | beforeFirst => .exhausted
  | item _ => .positioned
  | afterLast => .exhausted
  | closed => .closed

theorem ofNat_of_lt {edge : Spot n} {i : Nat} (h : i < n) : ofNat edge i = item ⟨i, h⟩ := dif_pos h

theorem ofNat_of_le {edge : Spot n} {i : Nat} (h : n ≤ i) : ofNat edge i = edge :=
  dif_neg (Nat.not_lt_of_le h)

/-- A step forward from an item is taken back by a step backward, also where it leaves the list. -/
theorem prev_next (i : Fin n) : (item i).next.prev = item i := by
  obtain ⟨i, hi⟩ := i
  by_cases h : i + 1 < n
  · have hnext : (item ⟨i, hi⟩ : Spot n).next = item ⟨i + 1, h⟩ := ofNat_of_lt h
    rw [hnext]
    rfl
  · have hlast : n - 1 = i := by omega
    have hnext : (item ⟨i, hi⟩ : Spot n).next = afterLast := ofNat_of_le (Nat.le_of_not_lt h)
    rw [hnext]
    show ofNat beforeFirst (n - 1) = item ⟨i, hi⟩
    rw [hlast]
    exact ofNat_of_lt hi

/-- A step backward from an item is taken back by a step forward, also where it leaves the list. -/
theorem next_prev (i : Fin n) : (item i).prev.next = item i := by
  obtain ⟨i, hi⟩ := i
  cases i with
  | zero => exact ofNat_of_lt hi
  | succ i => exact ofNat_of_lt hi

end Spot

/-- A list that a cursor walks. -/
structure Course (α : Type) where
  items : List α
  /-- The order in which the items stand. -/
  before : α → α → Prop
  /-- Why an item cannot be sought, if so. -/
  refuses : α → Option IndexError

namespace Course

variable {α : Type} (course : Course α)

/-- The spots of a cursor over the list. -/
abbrev Spot : Type := SecondaryIndex.Spot course.items.length

/-- The item at a spot. -/
def item? : course.Spot → Option α
  | .item i => some course.items[i]
  | _ => none

/-- The item that the cursor stands at. -/
def present (spot : course.Spot) : Except IndexError α :=
  match course.item? spot with
  | some x => .ok x
  | none => .error (.invalidState .unpositioned)

open Classical in
/-- The number of the first item that does not stand before a given one. -/
noncomputable def firstFrom (target : α) : Nat :=
  course.items.findIdx fun x => ¬ course.before x target

/-- What a call answers and where it leads; a closed cursor refuses it and stays closed. -/
def unlessClosed (spot : course.Spot)
    (result : Except IndexError (CursorAnswer α) × course.Spot) :
    Except IndexError (CursorAnswer α) × course.Spot :=
  match spot with
  | .closed => (.error (.invalidState .closed), .closed)
  | _ => result

open Classical in
/-- What a call on a cursor over the list answers and where it leads. An item that is sought and not
there leads to the next greater one, or to the gap after the last. -/
noncomputable def answer (spot : course.Spot) :
    CursorCall α → Except IndexError (CursorAnswer α) × course.Spot
  | .next => course.unlessClosed spot (.ok (.item (course.item? spot.next)), spot.next)
  | .prev => course.unlessClosed spot (.ok (.item (course.item? spot.prev)), spot.prev)
  | .current =>
    course.unlessClosed spot ((course.present spot).map fun x => .item (some x), spot)
  | .seek target =>
    course.unlessClosed spot <|
      match course.refuses target with
      | some err => (.error err, spot)
      | none =>
        (.ok (.found (decide (target ∈ course.items))), .ofNat .afterLast (course.firstFrom target))
  | .state => (.ok (.state spot.state), spot)
  | .close => (.ok .done, .closed)

/-- What calls are answered that are made one after the other from the start on, newest first, and
where they lead. -/
noncomputable def run : List (CursorCall α) → CursorLog α × course.Spot
  | [] => ([], .unopened)
  | call :: older =>
    let (log, spot) := run older
    ((call, (course.answer spot call).1) :: log, (course.answer spot call).2)

end Course

end SecondaryIndex
