import Mathlib.Data.Fintype.Card
import SecondaryIndex.Proofs.Cursor.Simulation

/-!
# What draining a cursor yields

Draining a cursor is calling `next` until there is no more. A cursor that follows a course is led along the
course by that, so a drain gives the items that are ahead of it (`Stands.run_drain`), and a cursor that was just
opened yields all of them (`Follows.yields`).

The number of steps is fixed before the first of them, by the number of physical keys. That is enough since
every item has a physical key of its own (`Numbers.length_le`).
-/

namespace SecondaryIndex

namespace Course

variable {α : Type} (course : Course α)

/-- The items that a cursor has yet to pass on its way to the end. -/
def ahead : course.Spot → List α
  | .unopened => course.items
  | .beforeFirst => course.items
  | .item i => course.items.drop (i + 1)
  | .afterLast => []
  | .closed => []

theorem drop_eq (i : Nat) :
    course.items.drop i =
      match course.item? (.ofNat .afterLast i) with
      | some x => x :: course.ahead (.ofNat .afterLast i)
      | none => [] := by
  by_cases hi : i < course.items.length
  · rw [Spot.ofNat_of_lt hi]
    exact List.drop_eq_getElem_cons hi
  · have hle := Nat.le_of_not_lt hi
    rw [Spot.ofNat_of_le hle]
    exact List.drop_eq_nil_of_le hle

/-- The next item is the first of those ahead. -/
theorem ahead_eq {spot : course.Spot} (hopen : spot ≠ .closed) :
    course.ahead spot =
      match course.item? spot.next with
      | some x => x :: course.ahead spot.next
      | none => [] := by
  cases spot with
  | unopened => exact course.drop_eq 0
  | beforeFirst => exact course.drop_eq 0
  | item i => exact course.drop_eq (i + 1)
  | afterLast => rfl
  | closed => exact absurd rfl hopen

end Course

namespace Cursor

variable {α : Type} {cursor cursor' : Cursor α} {course : Course α} {items : List α}
  {number : Nat → Nat} {db : Database}

/-- Whether a cursor, drained, gives certain items in any database without faults. -/
def Yields (cursor : Cursor α) (items : List α) : Prop :=
  ∀ db : Database, db.engine.faults = .healthy → (cursor.collect.run db).1 = .ok items

/-- Without faults a step is taken by the cursor alone, and leaves the database as it is. -/
theorem run_next_of_healthy (hdb : db.engine.faults = .healthy) (cursor : Cursor α) :
    (next.run.run cursor).run db = (cursor.stepped cursor.forward .pastEnd, db) :=
  run_arrive_of_healthy cursor db hdb cursor.forward .pastEnd

/-- A step of a cursor on its course. -/
theorem Stands.stepped (hf : Follows cursor course number) {spot : course.Spot} (hopen : spot ≠ .closed)
    (h : Stands cursor course.items number spot cursor') :
    (cursor'.stepped cursor'.forward .pastEnd).1 = .ok (course.item? spot.next) ∧
      Stands cursor course.items number spot.next (cursor'.stepped cursor'.forward .pastEnd).2 := by
  obtain ⟨hanswer, hstands⟩ := h.next hf
  have hcourse : course.answer spot .next = (.ok (.item (course.item? spot.next)), spot.next) := by
    cases spot with
    | closed => exact absurd rfl hopen
    | _ => rfl
  rw [hcourse] at hanswer hstands
  refine ⟨?_, hstands⟩
  have hpacked : (cursor'.stepped cursor'.forward .pastEnd).1.map CursorAnswer.item =
      .ok (.item (course.item? spot.next)) := hanswer
  cases houtcome : (cursor'.stepped cursor'.forward .pastEnd).1 with
  | error err =>
    rw [houtcome] at hpacked
    cases hpacked
  | ok item? =>
    rw [houtcome] at hpacked
    exact congrArg _ (CursorAnswer.item.inj (Except.ok.inj hpacked))

/-- A drain of enough steps gives what is ahead. -/
theorem Stands.run_drain (hf : Follows cursor course number) (hdb : db.engine.faults = .healthy)
    {spot : course.Spot} (hopen : spot ≠ .closed)
    (h : Stands cursor course.items number spot cursor') {steps : Nat}
    (hsteps : (course.ahead spot).length < steps) :
    ∃ drained, ((drain steps).run cursor').run db = (((course.ahead spot, none), drained), db) := by
  -- by induction on the steps; each takes one item off what is ahead
  induction steps generalizing spot cursor' with
  | zero => exact absurd hsteps (Nat.not_lt_zero _)
  | succ steps ih =>
    obtain ⟨hanswer, hstands⟩ := h.stepped hf hopen
    have hahead := course.ahead_eq hopen
    rw [run_drain_succ, run_next_of_healthy hdb]
    generalize cursor'.stepped cursor'.forward .pastEnd = result at hanswer hstands ⊢
    obtain ⟨outcome, cursor''⟩ := result
    have houtcome : outcome = .ok (course.item? spot.next) := hanswer
    rw [houtcome]
    cases hitem : course.item? spot.next with
    | none =>
      rw [hitem] at hahead
      rw [hahead]
      exact ⟨cursor'', rfl⟩
    | some x =>
      rw [hitem] at hahead
      rw [hahead] at hsteps ⊢
      have hopen' : spot.next ≠ .closed := by
        intro hclosed
        rw [hclosed] at hitem
        cases hitem
      obtain ⟨drained, hdrain⟩ := ih hopen' hstands (Nat.lt_of_succ_lt_succ hsteps)
      exact ⟨drained, by simp only [hdrain]⟩

/-- There are no more items than physical keys. -/
theorem Numbers.length_le (h : Numbers cursor items number) :
    items.length ≤ cursor.iterator.keys.length := by
  let place (i : Fin cursor.iterator.keys.length) : Fin items.length := ⟨number i, h.lt i.isLt⟩
  have honto : place.Surjective := by
    intro n
    obtain ⟨i, hi, hn⟩ := h.onto n.isLt
    exact ⟨⟨i, hi⟩, Fin.ext hn⟩
  simpa using Fintype.card_le_of_surjective place honto

/-- A cursor yields its course. -/
theorem Follows.yields (hf : Follows cursor course number) : cursor.Yields course.items := by
  intro db hdb
  have hsteps : (course.ahead .unopened).length < cursor.iterator.keys.length + 1 :=
    Nat.lt_succ_of_le hf.numbers.length_le
  have hopen : (.unopened : course.Spot) ≠ .closed := nofun
  obtain ⟨drained, hdrain⟩ := (Stands.start hf).run_drain hf hdb hopen hsteps
  rw [run_collect, hdrain]
  rfl

/-! ### Drains that go through -/

/-- A step that does not fail is taken by the cursor alone. -/
theorem run_arrive_of_ok {move : Except IndexError Move} {edge : Position} {item? : Option α}
    (h : (((arrive move edge).run.run cursor).run db).1.1 = .ok item?) :
    (((arrive move edge).run.run cursor).run db).1 = cursor.stepped move edge := by
  rw [run_arrive] at h ⊢
  rcases move with err | _ | it
  · rfl
  · rfl
  · cases hfails : db.engine.fails .status with
    | true =>
      rw [hfails] at h
      cases h
    | false => rfl

/-- A drain that no error has stopped gives what it gives without faults. -/
theorem run_drain_of_none {db₀ : Database} (hdb₀ : db₀.engine.faults = .healthy) {steps : Nat}
    (h : (((drain steps).run cursor).run db).1.1.2 = none) :
    (((drain steps).run cursor).run db₀).1 = (((drain steps).run cursor).run db).1 := by
  -- by induction on the steps, none of which has failed
  induction steps generalizing cursor db with
  | zero => rfl
  | succ steps ih =>
    rw [run_drain_succ] at h
    rw [run_drain_succ, run_drain_succ, run_next_of_healthy hdb₀]
    rcases hrun : (next.run.run cursor).run db with ⟨⟨err | item?, cursor'⟩, db'⟩
    · rw [hrun] at h
      cases h
    · have hstep : ((.ok item?, cursor') : Except IndexError (Option α) × Cursor α) =
          cursor.stepped cursor.forward .pastEnd := by
        have hnext : (((arrive cursor.forward .pastEnd).run.run cursor).run db) =
            ((.ok item?, cursor'), db') := hrun
        rw [← run_arrive_of_ok (congrArg (fun r => r.1.1) hnext), hnext]
      rw [hrun] at h
      rw [← hstep]
      cases item? with
      | none => rfl
      | some item =>
        have hrest : (((drain steps).run cursor').run db').1.1.2 = none := h
        dsimp only
        rw [ih hrest]

/-- A cursor that was drained without an error has given what it yields. -/
theorem Yields.eq_of_collect (h : cursor.Yields items) {items' : List α} {db' : Database}
    (hrun : cursor.collect.run db = (.ok items', db')) : items' = items := by
  let db₀ : Database := { db with engine := { db.engine with faults := .healthy } }
  have hyields : (cursor.collect.run db₀).1 = .ok items := h db₀ rfl
  rw [run_collect] at hrun hyields
  have hitems := congrArg Prod.fst hrun
  have hnone : (((drain (cursor.iterator.keys.length + 1)).run cursor).run db).1.1.2 = none := by
    generalize ((drain (cursor.iterator.keys.length + 1)).run cursor).run db = r at hitems
    obtain ⟨⟨⟨_, _ | err⟩, _⟩, _⟩ := r
    · rfl
    · cases hitems
  dsimp only at hitems hyields
  rw [run_drain_of_none rfl hnone] at hyields
  exact Except.ok.inj (hitems.symm.trans hyields)

end Cursor

end SecondaryIndex
