import Mathlib.Data.List.Forall2
import SecondaryIndex.Proofs.Cursor.Simulation

/-!
# The two strides

A cursor with the stride `entry` has one physical key for each item, and a step goes to the next one
(`steps_entries`). A cursor with the stride `group` leaves the group of its physical key by a seek.
Forward it seeks the upper bound, above which lie the items of greater numbers; backward it seeks
the lower bound, where its own group begins, and goes one further back (`Numbers.steps_groups`).
Neither depends on where in the group the iterator rests.
-/

namespace SecondaryIndex

namespace Cursor

variable {α : Type} {cursor : Cursor α} {items : List α} {number : Nat → Nat} {layout : Layout}

/-! ### Entry by entry -/

/-- A cursor over entries has one item for each of its keys. -/
theorem numbers_entries
    (h : List.Forall₂ (fun p x => cursor.decode p = .ok x) cursor.iterator.keys items) :
    Numbers cursor items id where
  reads {i p} hp := by
    obtain ⟨hi, rfl⟩ := List.getElem?_eq_some_iff.1 hp
    have hi' : i < items.length := h.length_eq ▸ hi
    exact ⟨items[i], List.getElem?_eq_getElem hi', h.get hi hi'⟩
  mono hij _ := hij
  onto {n} hn := ⟨n, h.length_eq ▸ hn, rfl⟩

/-- The steps of a cursor over entries are those of its iterator. -/
theorem steps_entries (hstride : cursor.stride = .entry)
    (hlength : cursor.iterator.keys.length = items.length) : Steps cursor items id where
  forward {i} n hi hn := by
    have hforward : (cursor.placed (some i) .resting).forward =
        .ok (.to { cursor.iterator with
          place := if i + 1 < cursor.iterator.keys.length then some (i + 1) else none }) := by
      have hentry : (cursor.placed (some i) .resting).stride = .entry := hstride
      unfold Cursor.forward
      rw [hentry]
      rfl
    obtain ⟨n, hlt⟩ := n
    have hn' : i = n := hn
    subst hn'
    rw [hforward]
    -- a step beyond the last key is one beyond the last item
    by_cases hnext : i + 1 < cursor.iterator.keys.length
    · have hlt' : i + 1 < items.length := by omega
      have hspot : (Spot.item ⟨i, hlt⟩).next = .item ⟨i + 1, hlt'⟩ := Spot.ofNat_of_lt hlt'
      rw [if_pos hnext, hspot]
      exact .item _ hnext rfl
    · have hle : items.length ≤ i + 1 := by omega
      have hspot : (Spot.item ⟨i, hlt⟩).next = .afterLast := Spot.ofNat_of_le hle
      rw [if_neg hnext, hspot]
      exact .off
  backward {i} n hi hn := by
    have hbackward : (cursor.placed (some i) .resting).backward =
        .ok (.to { cursor.iterator with place := if i = 0 then none else some (i - 1) }) := by
      have hentry : (cursor.placed (some i) .resting).stride = .entry := hstride
      unfold Cursor.backward
      rw [hentry]
      rfl
    obtain ⟨n, hlt⟩ := n
    have hn' : i = n := hn
    subst hn'
    rw [hbackward]
    cases i with
    | zero => exact .off
    | succ i => exact .item ⟨i, Nat.lt_of_succ_lt hlt⟩ (Nat.lt_of_succ_lt hi) rfl

/-! ### Group by group -/

/-- The group of a physical key, among the others: below its lower bound are the items before its own,
and within its upper bound these and its own. -/
def Groups (cursor : Cursor α) (number : Nat → Nat) (layout : Layout) : Prop :=
  ∀ {i : Nat} {p : Bytes}, cursor.iterator.keys[i]? = some p →
    ∃ lower upper, layout.spanOf p = .ok (lower, upper) ∧
      (upper = .unbounded ∨ ∃ bound, upper = .excluded bound) ∧
      ∀ {j : Nat} {q : Bytes}, cursor.iterator.keys[j]? = some q →
        (q < lower ↔ number j < number i) ∧ (upper.above q = true ↔ number j ≤ number i)

/-- Where a cursor rests, the bounds of its group are those of its key. -/
theorem spanOf_placed {i : Nat} {p : Bytes} {span : Bytes × Bound}
    (hp : cursor.iterator.keys[i]? = some p) (hspan : layout.spanOf p = .ok span) :
    (cursor.placed (some i) .resting).spanOf layout = .ok span := by
  have hkey : (cursor.placed (some i) .resting).iterator.key? = some p := hp
  unfold Cursor.spanOf
  rw [hkey]
  simp only [hspan, Except.mapError]

theorem forward_groups (hstride : cursor.stride = .group layout) {i : Nat} {p lower : Bytes}
    {upper : Bound} (hp : cursor.iterator.keys[i]? = some p)
    (hspan : layout.spanOf p = .ok (lower, upper)) :
    (cursor.placed (some i) .resting).forward =
      match upper with
      | .excluded bound | .included bound => .ok (.to (cursor.iterator.seek bound))
      | .unbounded => .ok .edge := by
  have hgroup : (cursor.placed (some i) .resting).stride = .group layout := hstride
  unfold Cursor.forward
  rw [hgroup]
  dsimp only
  rw [spanOf_placed hp hspan]
  cases upper <;> rfl

theorem backward_groups (hstride : cursor.stride = .group layout) {i : Nat} {p lower : Bytes}
    {upper : Bound} (hp : cursor.iterator.keys[i]? = some p)
    (hspan : layout.spanOf p = .ok (lower, upper)) :
    (cursor.placed (some i) .resting).backward = .ok (.to (cursor.iterator.seek lower).prev) := by
  have hgroup : (cursor.placed (some i) .resting).stride = .group layout := hstride
  unfold Cursor.backward
  rw [hgroup]
  dsimp only
  rw [spanOf_placed hp hspan]
  rfl

namespace Numbers

/-- A seek to the upper bound of a group lands on the next item. -/
theorem lands_next (h : Numbers cursor items number) {n : Fin items.length} {bound : Bytes}
    (hbound : ∀ {j q}, cursor.iterator.keys[j]? = some q → (q < bound ↔ number j < n.val + 1)) :
    Lands cursor items number .afterLast (Spot.item n).next
      (.ok (.to (cursor.iterator.seek bound))) := by
  rcases h.seek_place hbound with ⟨hle, hplace⟩ | ⟨m, hm, hnumber, hplace, -⟩
  · have hspot : (Spot.item n).next = .afterLast := Spot.ofNat_of_le hle
    have hsame : cursor.iterator.seek bound = { cursor.iterator with place := none } := by
      rw [← hplace]
      rfl
    rw [hspot, hsame]
    exact .off
  · have hlt : n.val + 1 < items.length := hnumber ▸ h.lt hm
    have hspot : (Spot.item n).next = .item ⟨n.val + 1, hlt⟩ := Spot.ofNat_of_lt hlt
    have hsame : cursor.iterator.seek bound = { cursor.iterator with place := some m } := by
      rw [← hplace]
      rfl
    rw [hspot, hsame]
    exact .item _ hm hnumber

/-- A seek to the lower bound of a group and a step back land on the previous item. -/
theorem lands_prev (h : Numbers cursor items number) {n : Fin items.length} {lower : Bytes}
    (hlower : ∀ {j q}, cursor.iterator.keys[j]? = some q → (q < lower ↔ number j < n.val)) :
    Lands cursor items number .beforeFirst (Spot.item n).prev
      (.ok (.to (cursor.iterator.seek lower).prev)) := by
  rcases h.seek_place hlower with ⟨hle, -⟩ | ⟨m, hm, hnumber, hplace, hbefore⟩
  · exact absurd n.isLt (Nat.not_lt_of_le hle)
  · have hprev : (cursor.iterator.seek lower).prev =
        { cursor.iterator with place := if m = 0 then none else some (m - 1) } := by
      unfold RawIterator.prev
      rw [hplace]
      rfl
    obtain ⟨n, hn⟩ := n
    rw [hprev]
    cases n with
    | zero =>
      -- no item is before the first, so its group begins where the list begins
      have hm0 : m = 0 := by
        by_contra hne
        exact Nat.not_lt_zero _ (hbefore 0 (Nat.pos_of_ne_zero hne))
      subst hm0
      exact .off
    | succ n =>
      have hm0 : m ≠ 0 := by
        rintro rfl
        have hfirst := h.first hm
        rw [hnumber] at hfirst
        cases hfirst
      obtain ⟨i, hi, hni⟩ := h.onto (Nat.lt_of_succ_lt hn)
      have him : i ≤ m - 1 := by
        by_contra hlt
        have hmi : m ≤ i := by omega
        have hle := h.mono hmi hi
        rw [hnumber, hni] at hle
        exact Nat.not_succ_le_self n hle
      have hm' : m - 1 < cursor.iterator.keys.length := by omega
      have hlast : number (m - 1) = n := by
        have hge := h.mono him hm'
        have hlt : number (m - 1) < n + 1 := hbefore (m - 1) (by omega)
        omega
      rw [if_neg hm0]
      exact .item ⟨n, Nat.lt_of_succ_lt hn⟩ hm' hlast

/-- A cursor from group to group steps from the items of one key to those of the next one. -/
theorem steps_groups (h : Numbers cursor items number) (hstride : cursor.stride = .group layout)
    (hgroups : Groups cursor number layout) : Steps cursor items number where
  forward {i} n hi hn := by
    have hp := List.getElem?_eq_getElem hi
    obtain ⟨lower, upper, hspan, hupper, hothers⟩ := hgroups hp
    rw [forward_groups hstride hp hspan]
    rcases hupper with rfl | ⟨bound, rfl⟩
    · -- without an upper bound every physical key lies within, so no item is left
      have hspot : (Spot.item n).next = .afterLast := by
        refine Spot.ofNat_of_le ?_
        by_contra hlt
        obtain ⟨j, hj, hnj⟩ := h.onto (Nat.lt_of_not_le hlt)
        have hle := (hothers (List.getElem?_eq_getElem hj)).2.1 rfl
        omega
      rw [hspot]
      exact .stays
    · refine h.lands_next ?_
      intro j q hq
      have habove := (hothers hq).2
      rw [hn] at habove
      simp only [Bound.above, decide_eq_true_iff] at habove
      rw [habove, Nat.lt_succ_iff]
  backward {i} n hi hn := by
    have hp := List.getElem?_eq_getElem hi
    obtain ⟨lower, upper, hspan, -, hothers⟩ := hgroups hp
    rw [backward_groups hstride hp hspan]
    refine h.lands_prev ?_
    intro j q hq
    rw [← hn]
    exact (hothers hq).1

end Numbers

end Cursor

end SecondaryIndex
