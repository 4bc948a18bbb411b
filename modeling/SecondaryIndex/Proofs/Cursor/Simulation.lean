import SecondaryIndex.Proofs.Cursor.Course
import SecondaryIndex.Proofs.Store.Iterator

/-!
# Cursors that follow a course

A cursor walks physical keys, and each physical key stands for an item; several in a row may stand for
one, if the cursor goes from group to group. `Numbers` says so with a function `number` from places in
the list of physical keys to places in the list of items, which climbs and skips no item.

`Follows` asks three things of a cursor that was just opened: that the physical keys are numbered,
that a step from any physical key leads to one of the next or of the previous item (`Steps`), and that
a seek is aimed at the first physical key whose item does not stand before the one sought (`Seeks`).
Then every call answers as on the course, from every spot (`Stands.respond`). The place of the raw
iterator matters only while the cursor rests on an item, and then any physical key of the item will do.
-/

namespace SecondaryIndex

namespace Cursor

variable {α : Type} {cursor : Cursor α} {course : Course α} {items : List α} {number : Nat → Nat}

/-- The cursor with its iterator at a place. -/
def placed (cursor : Cursor α) (place : Option Nat) (position : Position) : Cursor α :=
  { cursor with iterator := { cursor.iterator with place }, position }

/-- The physical keys under a cursor stand for items, in their order and leaving none out. -/
structure Numbers (cursor : Cursor α) (items : List α) (number : Nat → Nat) : Prop where
  reads : ∀ {i p}, cursor.iterator.keys[i]? = some p →
    ∃ x, items[number i]? = some x ∧ cursor.decode p = .ok x
  mono : ∀ {i j}, i ≤ j → j < cursor.iterator.keys.length → number i ≤ number j
  onto : ∀ {n}, n < items.length → ∃ i, i < cursor.iterator.keys.length ∧ number i = n

/-- A cursor stands at a spot of a course. -/
inductive Stands (cursor : Cursor α) (items : List α) (number : Nat → Nat) :
    Spot items.length → Cursor α → Prop
  | unopened (place : Option Nat) : Stands cursor items number .unopened (cursor.placed place .unopened)
  | beforeFirst (place : Option Nat) :
    Stands cursor items number .beforeFirst (cursor.placed place .beforeStart)
  | item {i : Nat} (n : Fin items.length) (hi : i < cursor.iterator.keys.length) (hn : number i = n) :
    Stands cursor items number (.item n) (cursor.placed (some i) .resting)
  | afterLast (place : Option Nat) :
    Stands cursor items number .afterLast (cursor.placed place .pastEnd)
  | closed (place : Option Nat) : Stands cursor items number .closed (cursor.placed place .closed)

/-- A move lands on an item, or goes off the list at an edge. -/
inductive Lands (cursor : Cursor α) (items : List α) (number : Nat → Nat) (edge : Spot items.length) :
    Spot items.length → Except IndexError Move → Prop
  | stays : Lands cursor items number edge edge (.ok .edge)
  | off : Lands cursor items number edge edge (.ok (.to { cursor.iterator with place := none }))
  | item {i : Nat} (n : Fin items.length) (hi : i < cursor.iterator.keys.length) (hn : number i = n) :
    Lands cursor items number edge (.item n) (.ok (.to { cursor.iterator with place := some i }))

/-- A step from a physical key leads to one of the next or of the previous item. -/
structure Steps (cursor : Cursor α) (items : List α) (number : Nat → Nat) : Prop where
  forward : ∀ {i} (n : Fin items.length), i < cursor.iterator.keys.length → number i = n →
    Lands cursor items number .afterLast (Spot.item n).next (cursor.placed (some i) .resting).forward
  backward : ∀ {i} (n : Fin items.length), i < cursor.iterator.keys.length → number i = n →
    Lands cursor items number .beforeFirst (Spot.item n).prev
      (cursor.placed (some i) .resting).backward

/-- The physical key to seek for an item, whatever the position of the cursor. -/
def goal (cursor : Cursor α) (item : α) : Except IndexError (Bytes × Bool) :=
  match cursor.seeking with
  | .exact encode => ((encode item).mapError .encoding).map (·, false)
  | .byGroup encode => ((encode item).mapError .encoding).map (·, true)
  | .impossible => .error .cannotSeek

/-- A physical key is the one to seek for an item. -/
structure Aims (cursor : Cursor α) (course : Course α) (number : Nat → Nat) (target : α)
    (goal : Bytes) (group : Bool) : Prop where
  below : ∀ {i : Nat} {p : Bytes} {x : α}, cursor.iterator.keys[i]? = some p → course.items[number i]? = some x →
    (p < goal ↔ course.before x target)
  /-- The first physical key that is not below the goal tells whether the item is there. -/
  hit : ∀ {m : Nat} {p : Bytes}, cursor.iterator.keys[m]? = some p → ¬ p < goal →
    (∀ (j : Nat) (q : Bytes), j < m → cursor.iterator.keys[j]? = some q → q < goal) →
    (hits goal group p = true ↔ target ∈ course.items)
  miss : (∀ p ∈ cursor.iterator.keys, p < goal) → target ∉ course.items

/-- What a seek for an item does. -/
def Seeks (cursor : Cursor α) (course : Course α) (number : Nat → Nat) (target : α) : Prop :=
  match course.refuses target with
  | some err => cursor.goal target = .error err
  | none => ∃ goal group, cursor.goal target = .ok (goal, group) ∧
    Aims cursor course number target goal group

/-- A cursor that was just opened follows a course. -/
structure Follows (cursor : Cursor α) (course : Course α) (number : Nat → Nat) : Prop where
  fresh : cursor.position = .unopened
  numbers : Numbers cursor course.items number
  steps : Steps cursor course.items number
  seeks : ∀ target, Seeks cursor course number target

/-! ### Numbers -/

namespace Numbers

theorem lt (h : Numbers cursor items number) {i : Nat} (hi : i < cursor.iterator.keys.length) :
    number i < items.length := by
  obtain ⟨x, hx, -⟩ := h.reads (List.getElem?_eq_getElem hi)
  exact (List.getElem?_eq_some_iff.1 hx).1

/-- The first key has the first item. -/
theorem first (h : Numbers cursor items number) (hkeys : 0 < cursor.iterator.keys.length) :
    number 0 = 0 := by
  obtain ⟨i, hi, hn⟩ := h.onto (Nat.lt_of_le_of_lt (Nat.zero_le _) (h.lt hkeys))
  have hle := h.mono (Nat.zero_le i) hi
  omega

/-- The last key has the last number. -/
theorem last (h : Numbers cursor items number) (hkeys : 0 < cursor.iterator.keys.length) :
    number (cursor.iterator.keys.length - 1) = items.length - 1 := by
  have hlast : cursor.iterator.keys.length - 1 < cursor.iterator.keys.length := by omega
  have hlt := h.lt hlast
  have hitem : items.length - 1 < items.length := by omega
  obtain ⟨i, hi, hn⟩ := h.onto hitem
  have hle := h.mono (Nat.le_sub_one_of_lt hi) hlast
  omega

theorem items_eq_nil (h : Numbers cursor items number) (hkeys : cursor.iterator.keys = []) :
    items = [] := by
  by_contra hne
  obtain ⟨i, hi, -⟩ := h.onto (List.length_pos_iff.2 hne)
  rw [hkeys] at hi
  exact Nat.not_lt_zero i hi

/-- A seek to a physical key that lies above the first `t` items finds the first one that stands for
item `t`, or none if there is no such item. -/
theorem seek_place (h : Numbers cursor items number) {goal : Bytes} {t : Nat}
    (hgoal : ∀ {i p}, cursor.iterator.keys[i]? = some p → (p < goal ↔ number i < t)) :
    (items.length ≤ t ∧ (cursor.iterator.seek goal).place = none) ∨
      ∃ m, m < cursor.iterator.keys.length ∧ number m = t ∧
        (cursor.iterator.seek goal).place = some m ∧ ∀ j, j < m → number j < t := by
  rcases cursor.iterator.seek_cases goal with ⟨hplace, hbelow⟩ | ⟨m, p, hp, hplace, hreached, hpassed⟩
  · refine .inl ⟨?_, hplace⟩
    by_contra hlt
    obtain ⟨i, hi, hn⟩ := h.onto (Nat.lt_of_not_le hlt)
    have habove := (hgoal (List.getElem?_eq_getElem hi)).1 (hbelow _ (List.getElem_mem hi))
    omega
  · obtain ⟨hm, -⟩ := List.getElem?_eq_some_iff.1 hp
    have hle : t ≤ number m := Nat.le_of_not_lt (mt (hgoal hp).2 hreached)
    have hbefore : ∀ j, j < m → number j < t := by
      intro j hj
      have hj' := List.getElem?_eq_getElem (Nat.lt_trans hj hm)
      exact (hgoal hj').1 (hpassed j _ hj hj')
    -- no item is skipped, so the first physical key at or beyond item `t` is one of that item
    have heq : number m = t := by
      obtain ⟨i, hi, hn⟩ := h.onto (Nat.lt_of_le_of_lt hle (h.lt hm))
      have hmi : m ≤ i := by
        by_contra hlt
        have := hbefore i (Nat.lt_of_not_le hlt)
        omega
      have := h.mono hmi hi
      omega
    exact .inr ⟨m, hm, heq, hplace, hbefore⟩

end Numbers

/-! ### Where steps lead -/

/-- The first item is reached from in front of the list. -/
theorem lands_first (h : Numbers cursor items number) :
    Lands cursor items number .afterLast (.ofNat .afterLast 0)
      (.ok (.to cursor.iterator.seekFirst)) := by
  by_cases hkeys : cursor.iterator.keys = []
  · have hitems := h.items_eq_nil hkeys
    subst hitems
    have hnone : cursor.iterator.seekFirst = { cursor.iterator with place := none } := by
      simp [RawIterator.seekFirst, hkeys]
    rw [hnone]
    exact .off
  · have hpos := List.length_pos_iff.2 hkeys
    have hsome : cursor.iterator.seekFirst = { cursor.iterator with place := some 0 } := by
      simp [RawIterator.seekFirst, hkeys]
    have hlt : 0 < items.length := by
      have := h.lt hpos
      omega
    rw [hsome, Spot.ofNat_of_lt hlt]
    exact .item _ hpos (h.first hpos)

/-- The last item is reached from behind the list. -/
theorem lands_last (h : Numbers cursor items number) :
    Lands cursor items number .beforeFirst (.ofNat .beforeFirst (items.length - 1))
      (.ok (.to cursor.iterator.seekLast)) := by
  by_cases hkeys : cursor.iterator.keys = []
  · have hitems := h.items_eq_nil hkeys
    subst hitems
    have hnone : cursor.iterator.seekLast = { cursor.iterator with place := none } := by
      simp [RawIterator.seekLast, hkeys]
    rw [hnone]
    exact .off
  · have hpos := List.length_pos_iff.2 hkeys
    have hsome : cursor.iterator.seekLast =
        { cursor.iterator with place := some (cursor.iterator.keys.length - 1) } := by
      simp [RawIterator.seekLast, hkeys]
    have hlast : cursor.iterator.keys.length - 1 < cursor.iterator.keys.length := by omega
    have hlt : items.length - 1 < items.length := by
      have := h.lt hpos
      omega
    rw [hsome, Spot.ofNat_of_lt hlt]
    exact .item _ hlast (h.last hpos)

/-- A step that lands gives the item there, and the cursor stands at it. -/
theorem Lands.stepped (hnumbers : Numbers cursor course.items number) {edge spot : course.Spot}
    {position : Position} {move : Except IndexError Move}
    (h : Lands cursor course.items number edge spot move)
    (hedge : ∀ place, Stands cursor course.items number edge (cursor.placed place position))
    (hnone : course.item? edge = none) (place : Option Nat) (from_ : Position) :
    ((cursor.placed place from_).stepped move position).1 = .ok (course.item? spot) ∧
      Stands cursor course.items number spot ((cursor.placed place from_).stepped move position).2 := by
  cases h with
  | stays =>
    rw [hnone]
    exact ⟨rfl, hedge place⟩
  | off =>
    rw [hnone]
    exact ⟨rfl, hedge none⟩
  | @item i n hi hn =>
    -- where the iterator lands there is a key, and it is read as the item of its number
    have hkey : cursor.iterator.keys[i]? = some cursor.iterator.keys[i] := List.getElem?_eq_getElem hi
    obtain ⟨x, hx, hdecode⟩ := hnumbers.reads hkey
    have hitem : course.item? (.item n) = some x := by
      rw [hn] at hx
      rw [← hx]
      exact (List.getElem?_eq_getElem n.isLt).symm
    have hlanded : (cursor.placed place from_).landed position { cursor.iterator with place := some i } =
        (.ok (some x), cursor.placed (some i) .resting) := by
      unfold landed
      have hrests : RawIterator.key? { cursor.iterator with place := some i } =
          some cursor.iterator.keys[i] := hkey
      have hdecode' : (cursor.placed place from_).decode cursor.iterator.keys[i] = .ok x := hdecode
      rw [hrests]
      simp only [hdecode', Except.mapError, Except.map]
      rfl
    show ((cursor.placed place from_).landed position _).1 = _ ∧ Stands _ _ _ _
      ((cursor.placed place from_).landed position _).2
    rw [hlanded, hitem]
    exact ⟨rfl, .item n hi hn⟩

/-! ### Answers -/

/-- The answer and the spot of a step are those of the course. -/
theorem stepped_eq {spot : course.Spot} {result : Except IndexError (Option α) × Cursor α}
    (h : result.1 = .ok (course.item? spot) ∧ Stands cursor course.items number spot result.2) :
    (result.map (·.map CursorAnswer.item) id).1 = .ok (.item (course.item? spot)) ∧
      Stands cursor course.items number spot (result.map (·.map CursorAnswer.item) id).2 := by
  obtain ⟨outcome, cursor'⟩ := result
  obtain ⟨houtcome, hstands⟩ := h
  have hanswer : outcome = .ok (course.item? spot) := houtcome
  subst hanswer
  exact ⟨rfl, hstands⟩

/-! ### Seeks -/

theorem target_placed {place : Option Nat} {position : Position} (hopen : position ≠ .closed)
    (target : α) : (cursor.placed place position).target target = cursor.goal target := by
  unfold Cursor.target goal placed
  cases position with
  | closed => exact absurd rfl hopen
  | _ => cases cursor.seeking <;> rfl

/-- If all physical keys are below the goal, all items stand before the one sought. -/
theorem Aims.length_le_firstFrom (hnumbers : Numbers cursor course.items number) {target : α}
    {goal : Bytes} {group : Bool} (h : Aims cursor course number target goal group)
    (hbelow : ∀ p ∈ cursor.iterator.keys, p < goal) :
    course.items.length ≤ course.firstFrom target := by
  classical
  refine (List.findIdx_eq_length.2 ?_).ge
  intro x hx
  obtain ⟨n, hn, rfl⟩ := List.getElem_of_mem hx
  obtain ⟨i, hi, rfl⟩ := hnumbers.onto hn
  have hbefore := (h.below (List.getElem?_eq_getElem hi) (List.getElem?_eq_getElem hn)).1
    (hbelow _ (List.getElem_mem hi))
  simpa using hbefore

/-- The first physical key that is not below the goal stands for the first item that does not stand
before the one sought. -/
theorem Aims.firstFrom_eq (hnumbers : Numbers cursor course.items number) {target : α} {goal : Bytes}
    {group : Bool} (h : Aims cursor course number target goal group) {m : Nat} {p : Bytes}
    (hp : cursor.iterator.keys[m]? = some p) (hreached : ¬ p < goal)
    (hpassed : ∀ j (q : Bytes), j < m → cursor.iterator.keys[j]? = some q → q < goal) :
    course.firstFrom target = number m := by
  classical
  obtain ⟨hm, -⟩ := List.getElem?_eq_some_iff.1 hp
  have hlt := hnumbers.lt hm
  refine (List.findIdx_eq hlt).2 ⟨?_, ?_⟩
  · have hnot := mt (h.below hp (List.getElem?_eq_getElem hlt)).2 hreached
    simpa using hnot
  · -- an item of a smaller number has its physical keys further in front
    intro n hn
    have hn' : n < course.items.length := Nat.lt_trans hn hlt
    obtain ⟨i, hi, rfl⟩ := hnumbers.onto hn'
    have him : i < m := by
      by_contra hle
      have := hnumbers.mono (Nat.le_of_not_lt hle) hi
      omega
    have hkey := List.getElem?_eq_getElem hi
    have hbefore := (h.below hkey (List.getElem?_eq_getElem hn')).1 (hpassed i _ him hkey)
    simpa using hbefore

open Classical in
/-- A seek that is aimed tells whether the item is there, and lands where the course says. -/
theorem Aims.soughtAt (hnumbers : Numbers cursor course.items number) {target : α} {goal : Bytes}
    {group : Bool} (h : Aims cursor course number target goal group) (place : Option Nat)
    (from_ : Position) :
    ((cursor.placed place from_).soughtAt goal group).1 = decide (target ∈ course.items) ∧
      Stands cursor course.items number (.ofNat .afterLast (course.firstFrom target))
        ((cursor.placed place from_).soughtAt goal group).2 := by
  have hseek : (cursor.placed place from_).iterator.seek goal = cursor.iterator.seek goal := rfl
  unfold Cursor.soughtAt
  rw [hseek]
  -- the iterator goes past the end, or to the first key that is not below the goal
  rcases cursor.iterator.seek_cases goal with ⟨hplace, hbelow⟩ | ⟨m, p, hp, hplace, hreached, hpassed⟩
  · have hkey : (cursor.iterator.seek goal).key? = none := by
      simp [RawIterator.key?, hplace]
    rw [hkey, Spot.ofNat_of_le (h.length_le_firstFrom hnumbers hbelow)]
    exact ⟨(decide_eq_false (h.miss hbelow)).symm, .afterLast (cursor.iterator.seek goal).place⟩
  · have hkey : (cursor.iterator.seek goal).key? = some p := by
      unfold RawIterator.key?
      rw [hplace]
      exact hp
    obtain ⟨hm, -⟩ := List.getElem?_eq_some_iff.1 hp
    have hnumber := h.firstFrom_eq hnumbers hp hreached hpassed
    have hlt : course.firstFrom target < course.items.length := hnumber ▸ hnumbers.lt hm
    rw [hkey, Spot.ofNat_of_lt hlt]
    refine ⟨?_, ?_⟩
    · show hits goal group p = decide (target ∈ course.items)
      rw [Bool.eq_iff_iff, decide_eq_true_iff]
      exact h.hit hp hreached hpassed
    · have hsame : cursor.iterator.seek goal = { cursor.iterator with place := some m } := by
        rw [← hplace]
        rfl
      rw [hsame]
      exact .item ⟨course.firstFrom target, hlt⟩ hm hnumber.symm

namespace Stands

variable {spot : course.Spot} {cursor' : Cursor α}

/-- A step forward is one along the course. -/
theorem next (hf : Follows cursor course number)
    (h : Stands cursor course.items number spot cursor') :
    (cursor'.respond .next).1 = (course.answer spot .next).1 ∧
      Stands cursor course.items number (course.answer spot .next).2 (cursor'.respond .next).2 := by
  cases h with
  | unopened place =>
    exact stepped_eq ((lands_first hf.numbers).stepped hf.numbers .afterLast rfl place .unopened)
  | beforeFirst place =>
    exact stepped_eq ((lands_first hf.numbers).stepped hf.numbers .afterLast rfl place .beforeStart)
  | @item i n hi hn =>
    exact stepped_eq ((hf.steps.forward n hi hn).stepped hf.numbers .afterLast rfl (some i) .resting)
  | afterLast place =>
    exact stepped_eq (Lands.stays.stepped hf.numbers .afterLast rfl place .pastEnd)
  | closed place => exact ⟨rfl, .closed place⟩

/-- A step backward is one back along the course. -/
theorem prev (hf : Follows cursor course number)
    (h : Stands cursor course.items number spot cursor') :
    (cursor'.respond .prev).1 = (course.answer spot .prev).1 ∧
      Stands cursor course.items number (course.answer spot .prev).2 (cursor'.respond .prev).2 := by
  cases h with
  | unopened place =>
    exact stepped_eq ((lands_last hf.numbers).stepped hf.numbers .beforeFirst rfl place .unopened)
  | beforeFirst place =>
    exact stepped_eq (Lands.stays.stepped hf.numbers .beforeFirst rfl place .beforeStart)
  | @item i n hi hn =>
    exact stepped_eq ((hf.steps.backward n hi hn).stepped hf.numbers .beforeFirst rfl (some i) .resting)
  | afterLast place =>
    exact stepped_eq ((lands_last hf.numbers).stepped hf.numbers .beforeFirst rfl place .pastEnd)
  | closed place => exact ⟨rfl, .closed place⟩

theorem current (hf : Follows cursor course number)
    (h : Stands cursor course.items number spot cursor') :
    (cursor'.respond .current).1 = (course.answer spot .current).1 ∧
      Stands cursor course.items number (course.answer spot .current).2
        (cursor'.respond .current).2 := by
  cases h with
  | unopened place => exact ⟨rfl, .unopened place⟩
  | beforeFirst place => exact ⟨rfl, .beforeFirst place⟩
  | @item i n hi hn =>
    have hkey : cursor.iterator.keys[i]? = some cursor.iterator.keys[i] := List.getElem?_eq_getElem hi
    obtain ⟨x, hx, hdecode⟩ := hf.numbers.reads hkey
    -- the item is read anew from the key the iterator rests on
    have hpresent : (cursor.placed (some i) .resting).present = .ok x := by
      have hresting : (cursor.placed (some i) .resting).iterator.key? =
          some cursor.iterator.keys[i] := hkey
      have hread : (cursor.placed (some i) .resting).decode cursor.iterator.keys[i] = .ok x := hdecode
      unfold Cursor.present
      rw [hresting]
      simp only [hread, Except.mapError]
      rfl
    have hitem : course.items[n] = x := by
      rw [hn] at hx
      exact (List.getElem?_eq_some_iff.1 hx).2
    refine ⟨?_, .item n hi hn⟩
    show (cursor.placed (some i) .resting).present.map (fun item => CursorAnswer.item (some item)) =
      .ok (.item (some course.items[n]))
    rw [hpresent, hitem]
    rfl
  | afterLast place => exact ⟨rfl, .afterLast place⟩
  | closed place => exact ⟨rfl, .closed place⟩

open Classical in
/-- A seek of a cursor that is not closed. -/
theorem seek_placed (hf : Follows cursor course number) (target : α) {place : Option Nat}
    {position : Position} (hopen : position ≠ .closed)
    (h : Stands cursor course.items number spot (cursor.placed place position)) :
    ((cursor.placed place position).respond (.seek target)).1 =
        (match course.refuses target with
        | some err => .error err
        | none => .ok (.found (decide (target ∈ course.items)))) ∧
      Stands cursor course.items number
        (match course.refuses target with
        | some _ => spot
        | none => .ofNat .afterLast (course.firstFrom target))
        ((cursor.placed place position).respond (.seek target)).2 := by
  have hseeks := hf.seeks target
  unfold Seeks at hseeks
  -- the target does not depend on where the cursor is, as long as it is not closed
  have htarget : (cursor.placed place position).target target = cursor.goal target :=
    target_placed hopen target
  dsimp only [respond]
  unfold sought
  rw [htarget]
  cases hrefuses : course.refuses target with
  | some err =>
    rw [hrefuses] at hseeks
    rw [hseeks]
    exact ⟨rfl, h⟩
  | none =>
    rw [hrefuses] at hseeks
    obtain ⟨goal, group, hgoal, haims⟩ := hseeks
    obtain ⟨hfound, hstands⟩ := haims.soughtAt hf.numbers place position
    rw [hgoal]
    refine ⟨?_, hstands⟩
    show Except.ok (CursorAnswer.found ((cursor.placed place position).soughtAt goal group).1) = _
    rw [hfound]

/-- A seek answers as the course does, and lands where that says. -/
theorem seek (hf : Follows cursor course number) (target : α)
    (h : Stands cursor course.items number spot cursor') :
    (cursor'.respond (.seek target)).1 = (course.answer spot (.seek target)).1 ∧
      Stands cursor course.items number (course.answer spot (.seek target)).2
        (cursor'.respond (.seek target)).2 := by
  classical
  have hplaced : ∃ place position, cursor' = cursor.placed place position := by
    cases h <;> exact ⟨_, _, rfl⟩
  obtain ⟨place, position, rfl⟩ := hplaced
  by_cases hclosed : position = .closed
  · subst hclosed
    cases h with
    | closed place => exact ⟨rfl, .closed place⟩
  · have hopen := seek_placed hf target hclosed h
    have hspot : course.answer spot (.seek target) =
        match course.refuses target with
        | some err => (.error err, spot)
        | none => (.ok (.found (decide (target ∈ course.items))),
          .ofNat .afterLast (course.firstFrom target)) := by
      cases h with
      | closed place => exact absurd rfl hclosed
      | _ => rfl
    rw [hspot]
    cases hrefuses : course.refuses target with
    | some err =>
      rw [hrefuses] at hopen
      exact hopen
    | none =>
      rw [hrefuses] at hopen
      exact hopen

/-- Every call answers as on the course, and leads to where the course says. -/
theorem respond (hf : Follows cursor course number)
    (h : Stands cursor course.items number spot cursor') (call : CursorCall α) :
    (cursor'.respond call).1 = (course.answer spot call).1 ∧
      Stands cursor course.items number (course.answer spot call).2 (cursor'.respond call).2 := by
  cases call with
  | next => exact h.next hf
  | prev => exact h.prev hf
  | seek target => exact h.seek hf target
  | current => exact h.current hf
  | state =>
    have hstate : cursor'.state = spot.state := by
      cases h <;> rfl
    exact ⟨congrArg (fun state => Except.ok (CursorAnswer.state state)) hstate, h⟩
  | close =>
    have hplaced : ∃ place position, cursor' = cursor.placed place position := by
      cases h <;> exact ⟨_, _, rfl⟩
    obtain ⟨place, position, rfl⟩ := hplaced
    exact ⟨rfl, .closed place⟩

/-- A cursor that was just opened stands where its course starts. -/
theorem start (hf : Follows cursor course number) :
    Stands cursor course.items number .unopened cursor := by
  have hplaced : cursor = cursor.placed cursor.iterator.place .unopened := by
    rw [← hf.fresh]
    rfl
  rw [hplaced]
  exact .unopened cursor.iterator.place

end Stands

end Cursor

end SecondaryIndex
