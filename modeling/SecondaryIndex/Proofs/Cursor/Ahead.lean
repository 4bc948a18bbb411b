import SecondaryIndex.Proofs.Cursor.Drain
import SecondaryIndex.Proofs.Layout.Span
import SecondaryIndex.Proofs.Store.Resting

/-!
# What is ahead of a cursor

A namespace may hold byte strings that no index has written, and a cursor walks these as well. So what a walk
does is said on byte strings, without pairs. A cursor over groups stops at the first physical key of each
group, any other cursor at each physical key (`Cursor.stops`); byte strings that cannot be split are in no
group, and the walk stops at each of them. Those of the stops that a cursor has yet to reach are ahead of it
(`Cursor.ahead`), and the cursor has yet to give what is read of them, up to the first that cannot be read
(`Cursor.remaining`).

That a step forward goes to the first of the physical keys ahead is `Cursor.Poised.sets_forward`. The bounds of
a group are found by arithmetic on the physical key, whatever that is; what carries the proof is that a group
has no gaps: a byte string between two of one group is in it (`Layout.Joins.between`). A step backward goes to
the greatest physical key below the group (`Cursor.Poised.sets_backward`).
-/

namespace SecondaryIndex

/-! ### Extremes of fewer keys -/

section Extremes

variable {S T : Bytes → Prop} {a : Option Bytes}

/-- The least key with a property is the least with a stronger one, if it has that. -/
theorem Least.restrict (h : Least S a) (hsub : ∀ key, T key → S key)
    (hkeep : ∀ key, a = some key → T key) :
    Least T a := by
  cases a with
  | none => exact fun key hkey => h key (hsub key hkey)
  | some key => exact ⟨hkeep key rfl, fun other hother => h.2 other (hsub other hother)⟩

/-- An ascending list is its least member and what is above it. -/
theorem Least.eq_cons {keys : List Bytes} {p : Bytes} (h : Least (· ∈ keys) (some p))
    (hsorted : keys.Pairwise (· < ·)) : keys = p :: keys.filter (p < ·) := by
  obtain ⟨hmem, hle⟩ := h
  cases keys with
  | nil => cases hmem
  | cons q rest =>
    obtain ⟨habove, -⟩ := List.pairwise_cons.1 hsorted
    have hqp : q ≤ p := by
      rcases List.mem_cons.1 hmem with rfl | hrest
      · exact Std.le_refl _
      · exact Std.le_of_lt (habove p hrest)
    obtain rfl : p = q := Std.le_antisymm (hle q List.mem_cons_self) hqp
    have hself : ¬ decide (p < p) = true := by simp [Std.lt_irrefl]
    rw [List.filter_cons, if_neg hself, List.filter_eq_self.2 fun r hr => decide_eq_true (habove r hr)]

/-- Without a least key there is none. -/
theorem Least.eq_nil {keys : List Bytes} (h : Least (· ∈ keys) none) : keys = [] :=
  List.eq_nil_iff_forall_not_mem.2 h

end Extremes

/-! ### Groups -/

namespace Layout

variable {layout : Layout} {key value p q r lower : Bytes} {upper : Bound}

/-- Whether two byte strings are in one group: they are physical keys of one key. -/
def Joins (layout : Layout) (p q : Bytes) : Prop :=
  ∃ key value value', layout.split p = .ok (key, value) ∧ layout.split q = .ok (key, value')

/-- Two physical keys are in one group or not, whichever is named first. -/
theorem Joins.symm (h : layout.Joins p q) : layout.Joins q p := by
  obtain ⟨key, value, value', hp, hq⟩ := h
  exact ⟨key, value', value, hq, hp⟩

theorem Joins.trans (h : layout.Joins p q) (h' : layout.Joins q r) : layout.Joins p r := by
  obtain ⟨key, value, value', hp, hq⟩ := h
  obtain ⟨_, _, _, hq', hr⟩ := h'
  obtain ⟨rfl, -⟩ := Prod.mk.inj (Except.ok.inj (hq.symm.trans hq'))
  exact ⟨_, _, _, hp, hr⟩

/-- The group of a physical key is the range between its bounds. -/
theorem joins_iff_contains (hspan : layout.spanOf p = .ok (lower, upper)) :
    layout.Joins p q ↔ Range.contains ⟨.included lower, upper⟩ q = true := by
  cases hsplit : layout.split p with
  | error err =>
    unfold spanOf at hspan
    rw [hsplit] at hspan
    cases hspan
  | ok parts =>
    rw [spanOf_of_split hsplit] at hspan
    rw [contains_iff_split hspan]
    constructor
    · rintro ⟨key, value, value', hp, hq⟩
      obtain rfl : parts = (key, value) := Except.ok.inj (hsplit.symm.trans hp)
      exact ⟨value', hq⟩
    · rintro ⟨value', hq⟩
      exact ⟨parts.1, parts.2, value', hsplit, hq⟩

/-- A physical key that can be split has bounds, and lies between them. -/
theorem exists_spanOf {parts : Bytes × Bytes} (h : layout.split p = .ok parts) :
    ∃ lower upper, layout.spanOf p = .ok (lower, upper) ∧
      (upper = .unbounded ∨ ∃ bound, upper = .excluded bound) ∧
      Range.contains ⟨.included lower, upper⟩ p = true := by
  obtain ⟨lower, upper, hspan⟩ := span_eq_ok_of_le (fits_of_split h)
  have hbounds : upper = .unbounded ∨ ∃ bound, upper = .excluded bound := by
    rcases upper_of_span hspan with ⟨-, hupper⟩ | ⟨-, hupper⟩
    · exact .inl hupper
    · exact .inr hupper
  have hspanOf : layout.spanOf p = .ok (lower, upper) := by rw [spanOf_of_split h, hspan]
  exact ⟨lower, upper, hspanOf, hbounds, (contains_iff_split hspan).2 ⟨parts.2, h⟩⟩

/-- A group has no gaps. -/
theorem Joins.between (h : layout.Joins p q) (hpr : p ≤ r) (hrq : r ≤ q) : layout.Joins p r := by
  obtain ⟨key, value, value', hp, hq⟩ := h
  obtain ⟨lower, upper, hspan, -, hself⟩ := exists_spanOf hp
  have hother := (joins_iff_contains hspan).1 ⟨key, value, value', hp, hq⟩
  rw [joins_iff_contains hspan]
  simp only [Range.contains, Bound.below, Bool.and_eq_true, decide_eq_true_eq] at hself hother ⊢
  refine ⟨Std.le_trans hself.1 hpr, ?_⟩
  rcases Std.le_iff_lt_or_eq.1 hrq with hlt | rfl
  · exact Bound.above_of_lt hlt hother.2
  · exact hother.2

/-- What lies above a physical key and outside of its group lies above all of the group. -/
theorem lt_of_not_joins (hp : layout.split p = .ok (key, value)) (hlt : p < q)
    (hnot : ¬ layout.Joins p q) (hr : ∃ value', layout.split r = .ok (key, value')) : r < q := by
  obtain ⟨value', hr⟩ := hr
  refine Std.not_le.1 fun hle => hnot ?_
  exact Joins.between ⟨key, value, value', hp, hr⟩ (Std.le_of_lt hlt) hle

/-- What lies below a physical key and outside of its group lies below all of the group. -/
theorem gt_of_not_joins (hp : layout.split p = .ok (key, value)) (hlt : q < p)
    (hnot : ¬ layout.Joins p q) (hr : ∃ value', layout.split r = .ok (key, value')) : q < r := by
  obtain ⟨value', hr⟩ := hr
  refine Std.not_le.1 fun hle => hnot ?_
  obtain ⟨_, _, _, hr', hq⟩ :=
    Joins.between ⟨key, value', value, hr, hp⟩ hle (Std.le_of_lt hlt)
  obtain ⟨rfl, -⟩ := Prod.mk.inj (Except.ok.inj (hr.symm.trans hr'))
  exact ⟨_, _, _, hp, hq⟩

end Layout

/-- Whether a walk with this stride takes two physical keys for one: those of one group, if there are
groups. -/
def Stride.Joins : Stride → Bytes → Bytes → Prop
  | .entry, _, _ => False
  | .group layout, p, q => layout.Joins p q

theorem Stride.Joins.symm {stride : Stride} {p q : Bytes} (h : stride.Joins p q) : stride.Joins q p := by
  cases stride with
  | entry => exact h
  | group layout => exact Layout.Joins.symm h

/-- A key between two of one group is in that group. -/
theorem Stride.Joins.between {stride : Stride} {p q r : Bytes} (h : stride.Joins p q) (hpr : p ≤ r)
    (hrq : r ≤ q) : stride.Joins p r := by
  cases stride with
  | entry => exact h
  | group layout => exact Layout.Joins.between h hpr hrq

/-! ### Stops -/

namespace Cursor

variable {α : Type}

/-- What is read of physical keys one after the other, up to the first that cannot be read, and why it
cannot. -/
def readUntil (decode : Bytes → Except EncodingError α) : List Bytes → List α × Option IndexError
  | [] => ([], none)
  | p :: rest =>
    match decode p with
    | .error err => ([], some (.encoding err))
    | .ok x => (x :: (readUntil decode rest).1, (readUntil decode rest).2)

section Definitions

variable (cursor : Cursor α)

/-- The physical key that a cursor rests on. -/
def underfoot? : Option Bytes :=
  match cursor.position with
  | .resting => cursor.iterator.key?
  | _ => none

open Classical in
/-- The physical keys that a walk forward stops at: those that no lesser one is in a group with. -/
noncomputable def stops : List Bytes :=
  cursor.iterator.keys.filter fun q => ∀ p ∈ cursor.iterator.keys, p < q → ¬ cursor.stride.Joins p q

open Classical in
/-- The physical keys that a walk forward has yet to stop at: all stops in front of the first of them, none
past the end, and otherwise those above the physical key that the cursor rests on. -/
noncomputable def ahead : List Bytes :=
  match cursor.position with
  | .unopened | .beforeStart => cursor.stops
  | .resting => cursor.stops.filter fun q => ∃ p, cursor.iterator.key? = some p ∧ p < q
  | .pastEnd | .closed => []

open Classical in
/-- The physical keys that a walk backward has not come to yet. -/
noncomputable def behind : List Bytes :=
  match cursor.position with
  | .unopened | .pastEnd => cursor.iterator.keys
  | .resting => cursor.iterator.keys.filter fun q =>
    ∃ p, cursor.iterator.key? = some p ∧ q < p ∧ ¬ cursor.stride.Joins p q
  | .beforeStart | .closed => []

/-- Why a cursor cannot leave the physical key that it rests on, if so: it goes from group to group, and the
physical key is in none. -/
def stuck? : Option IndexError :=
  match cursor.stride, cursor.underfoot? with
  | .group layout, some p =>
    match layout.split p with
    | .error err => some (.encoding err)
    | .ok _ => none
  | _, _ => none

/-- The items that a cursor has yet to give, and the error that comes after them, if one does. -/
noncomputable def remaining : List α × Option IndexError :=
  match cursor.stuck? with
  | some err => ([], some err)
  | none => readUntil cursor.decode cursor.ahead

end Definitions

/-- A cursor that is ready to be moved: it walks ascending physical keys and rests on one of them or on none,
and what it gives in a walk from group to group is read of physical keys that have a group. -/
structure Poised (cursor : Cursor α) : Prop where
  sorted : cursor.iterator.keys.Pairwise (· < ·)
  splits : ∀ {layout p x}, cursor.stride = .group layout → cursor.decode p = .ok x →
    ∃ parts, layout.split p = .ok parts
  unclosed : cursor.position ≠ .closed
  rests : cursor.position = .resting → ∃ i p, cursor.iterator.place = some i ∧
    cursor.iterator.keys[i]? = some p

/-- How a step forward sets out. -/
inductive SetsForward (cursor : Cursor α) : Except IndexError Move → Prop
  | stuck {err : IndexError} (h : cursor.stuck? = some err) : SetsForward cursor (.error err)
  | edge (hfree : cursor.stuck? = none) (hahead : cursor.ahead = []) : SetsForward cursor (.ok .edge)
  | goes {it : RawIterator} (hfree : cursor.stuck? = none) (hkeys : it.keys = cursor.iterator.keys)
    (hleast : Least (· ∈ cursor.ahead) it.key?) : SetsForward cursor (.ok (.to it))

/-- How a step backward sets out. -/
inductive SetsBackward (cursor : Cursor α) : Except IndexError Move → Prop
  | stuck {err : IndexError} (h : cursor.stuck? = some err) : SetsBackward cursor (.error err)
  | edge (hbehind : cursor.behind = []) : SetsBackward cursor (.ok .edge)
  | goes {it : RawIterator} (hfree : cursor.stuck? = none) (hkeys : it.keys = cursor.iterator.keys)
    (hgreatest : Greatest (· ∈ cursor.behind) it.key?) : SetsBackward cursor (.ok (.to it))

/-! ### Where steps set out -/

section Places

variable {cursor : Cursor α} {layout : Layout} {p lower : Bytes} {upper : Bound}

/-- A stop is the first key of its group. -/
theorem mem_stops_iff {q : Bytes} : q ∈ cursor.stops ↔
    q ∈ cursor.iterator.keys ∧ ∀ p ∈ cursor.iterator.keys, p < q → ¬ cursor.stride.Joins p q := by
  simp [stops]

/-- What is ahead is found among the keys of the iterator, in their order. -/
theorem ahead_sublist (cursor : Cursor α) : cursor.ahead.Sublist cursor.iterator.keys := by
  unfold ahead
  split
  · exact List.filter_sublist
  · exact List.filter_sublist
  · exact List.filter_sublist.trans List.filter_sublist
  · exact List.nil_sublist _
  · exact List.nil_sublist _

/-- What is behind a cursor is a part of its keys, in their order. -/
theorem behind_sublist (cursor : Cursor α) : cursor.behind.Sublist cursor.iterator.keys := by
  unfold behind
  split
  · exact List.Sublist.refl _
  · exact List.Sublist.refl _
  · exact List.filter_sublist
  · exact List.nil_sublist _
  · exact List.nil_sublist _

theorem underfoot?_of_resting (hposition : cursor.position = .resting) :
    cursor.underfoot? = cursor.iterator.key? := by
  unfold underfoot?
  rw [hposition]

theorem stuck?_of_not_resting (hposition : cursor.position ≠ .resting) : cursor.stuck? = none := by
  have hnone : cursor.underfoot? = none := by
    unfold underfoot?
    split
    · exact absurd ‹_› hposition
    · rfl
  unfold stuck?
  rw [hnone]
  cases cursor.stride <;> rfl

theorem stuck?_of_entry (hstride : cursor.stride = .entry) : cursor.stuck? = none := by
  unfold stuck?
  rw [hstride]

/-- Ahead of a cursor that rests are the stops beyond its key. -/
theorem mem_ahead_iff (hposition : cursor.position = .resting) (hkey : cursor.iterator.key? = some p)
    {q : Bytes} : q ∈ cursor.ahead ↔ q ∈ cursor.stops ∧ p < q := by
  unfold ahead
  rw [hposition]
  simp [hkey]

/-- Behind it are the lesser keys of other groups. -/
theorem mem_behind_iff (hposition : cursor.position = .resting) (hkey : cursor.iterator.key? = some p)
    {q : Bytes} :
    q ∈ cursor.behind ↔ q ∈ cursor.iterator.keys ∧ q < p ∧ ¬ cursor.stride.Joins p q := by
  unfold behind
  rw [hposition]
  simp [hkey]

namespace Poised

theorem placed (h : cursor.Poised) (hposition : cursor.position = .resting) : cursor.iterator.Placed := by
  obtain ⟨i, p, hplace, hkey⟩ := h.rests hposition
  intro j hj
  rw [hplace] at hj
  obtain rfl := Option.some.inj hj
  exact (List.getElem?_eq_some_iff.1 hkey).1

/-- A cursor that rests has a key. -/
theorem exists_key (h : cursor.Poised) (hposition : cursor.position = .resting) :
    ∃ p, cursor.iterator.key? = some p ∧ p ∈ cursor.iterator.keys := by
  obtain ⟨i, p, hplace, hkey⟩ := h.rests hposition
  refine ⟨p, ?_, List.mem_of_getElem? hkey⟩
  unfold RawIterator.key?
  rw [hplace]
  exact hkey

theorem mem_keys (h : cursor.Poised) (hposition : cursor.position = .resting)
    (hkey : cursor.iterator.key? = some p) : p ∈ cursor.iterator.keys := by
  obtain ⟨p', hkey', hmem⟩ := h.exists_key hposition
  obtain rfl := Option.some.inj (hkey.symm.trans hkey')
  exact hmem

/-- From in front of the first physical key a step forward goes to the first one. -/
theorem least_first (h : cursor.Poised) :
    Least (· ∈ cursor.stops) cursor.iterator.seekFirst.key? := by
  -- where the iterator was does not matter to a seek
  have hplaced : RawIterator.Placed { keys := cursor.iterator.keys } := nofun
  have hleast : Least (· ∈ cursor.iterator.keys) cursor.iterator.seekFirst.key? :=
    hplaced.leadsTo h.sorted .seekFirst
  refine hleast.restrict (fun key hkey => (mem_stops_iff.1 hkey).1) fun key hkey => ?_
  rw [hkey] at hleast
  refine mem_stops_iff.2 ⟨hleast.1, fun p hp hlt => ?_⟩
  exact absurd hlt (Std.not_lt.2 (hleast.2 p hp))

/-- Entry by entry a step forward goes to the next physical key. -/
theorem least_next (h : cursor.Poised) (hposition : cursor.position = .resting)
    (hstride : cursor.stride = .entry) : Least (· ∈ cursor.ahead) cursor.iterator.next.key? := by
  obtain ⟨p, hkey, -⟩ := h.exists_key hposition
  refine ((h.placed hposition).least_next h.sorted).congr fun q => ?_
  rw [mem_ahead_iff hposition hkey, mem_stops_iff, hstride, hkey]
  simp [Stride.Joins]

/-- From behind the last physical key a step backward goes to the last one. -/
theorem greatest_last (h : cursor.Poised) :
    Greatest (· ∈ cursor.iterator.keys) cursor.iterator.seekLast.key? := by
  have hplaced : RawIterator.Placed { keys := cursor.iterator.keys } := nofun
  exact hplaced.leadsTo h.sorted .seekLast

/-- What is above a physical key in a walk from group to group and not in its group is above the group. -/
theorem ahead_above (h : cursor.Poised) (hposition : cursor.position = .resting)
    (hstride : cursor.stride = .group layout) (hkey : cursor.iterator.key? = some p)
    (hspan : layout.spanOf p = .ok (lower, upper))
    (hself : Range.contains ⟨.included lower, upper⟩ p = true) {q : Bytes} (hq : q ∈ cursor.ahead) :
    upper.above q = false := by
  obtain ⟨hstop, hlt⟩ := (mem_ahead_iff hposition hkey).1 hq
  have hnot := (mem_stops_iff.1 hstop).2 p (h.mem_keys hposition hkey) hlt
  rw [hstride] at hnot
  rw [Bool.eq_false_iff]
  intro habove
  refine hnot ((Layout.joins_iff_contains hspan).2 ?_)
  simp only [Range.contains, Bound.below, Bool.and_eq_true, decide_eq_true_eq] at hself ⊢
  exact ⟨Std.le_trans hself.1 (Std.le_of_lt hlt), habove⟩

/-- Group by group a step forward goes to the first physical key of the next group. -/
theorem least_seek (h : cursor.Poised) (hposition : cursor.position = .resting)
    (hstride : cursor.stride = .group layout) (hkey : cursor.iterator.key? = some p) {bound : Bytes}
    (hspan : layout.spanOf p = .ok (lower, .excluded bound))
    (hself : Range.contains ⟨.included lower, .excluded bound⟩ p = true) :
    Least (· ∈ cursor.ahead) (cursor.iterator.seek bound).key? := by
  have hleast := RawIterator.least_seek h.sorted bound
  refine hleast.restrict (fun q hq => ?_) fun q hq => ?_
  · have hout := h.ahead_above hposition hstride hkey hspan hself hq
    rw [Bound.above, decide_eq_false_iff_not] at hout
    exact ⟨(mem_stops_iff.1 ((mem_ahead_iff hposition hkey).1 hq).1).1, Std.not_lt.1 hout⟩
  · rw [hq] at hleast
    obtain ⟨⟨hmem, hreached⟩, hfirst⟩ := hleast
    simp only [Range.contains, Bound.below, Bound.above, Bool.and_eq_true, decide_eq_true_eq] at hself
    have hpq : p < q := Std.lt_of_lt_of_le hself.2 hreached
    have hnot : ¬ layout.Joins p q := by
      rw [Layout.joins_iff_contains hspan]
      simp only [Range.contains, Bound.below, Bound.above, Bool.and_eq_true, decide_eq_true_eq, not_and]
      exact fun _ => Std.not_lt.2 hreached
    refine (mem_ahead_iff hposition hkey).2 ⟨mem_stops_iff.2 ⟨hmem, fun r hr hrq hjoins => ?_⟩, hpq⟩
    rw [hstride] at hjoins
    -- a lesser physical key of the group of `q` is below the bound, so `p` is in this group too
    have hbelow : r < bound :=
      Std.not_le.1 fun hle => Std.lt_irrefl (Std.lt_of_lt_of_le hrq (hfirst r ⟨hr, hle⟩))
    rcases Std.le_total (a := p) (b := r) with hpr | hrp
    · have hrjoins : layout.Joins p r := by
        rw [Layout.joins_iff_contains hspan]
        simp only [Range.contains, Bound.below, Bound.above, Bool.and_eq_true, decide_eq_true_eq]
        exact ⟨Std.le_trans hself.1 hpr, hbelow⟩
      exact hnot (hrjoins.trans hjoins)
    · exact hnot ((hjoins.between hrp (Std.le_of_lt hpq)).symm.trans hjoins)

/-- Entry by entry a step backward goes to the physical key before. -/
theorem greatest_prev (h : cursor.Poised) (hposition : cursor.position = .resting)
    (hstride : cursor.stride = .entry) : Greatest (· ∈ cursor.behind) cursor.iterator.prev.key? := by
  obtain ⟨p, hkey, -⟩ := h.exists_key hposition
  refine ((h.placed hposition).greatest_prev h.sorted).congr fun q => ?_
  rw [mem_behind_iff hposition hkey, hstride, hkey]
  simp [Stride.Joins]

/-- Group by group a step backward goes to the last physical key of the group before. -/
theorem greatest_before (h : cursor.Poised) (hposition : cursor.position = .resting)
    (hstride : cursor.stride = .group layout) (hkey : cursor.iterator.key? = some p)
    (hspan : layout.spanOf p = .ok (lower, upper))
    (hself : Range.contains ⟨.included lower, upper⟩ p = true) :
    Greatest (· ∈ cursor.behind) (cursor.iterator.seek lower).prev.key? := by
  have hplaced : (cursor.iterator.seek lower).Placed := (h.placed hposition).apply (.seek lower)
  refine (hplaced.greatest_prev h.sorted).congr fun q => ?_
  rw [mem_behind_iff hposition hkey, hstride]
  have hmem : p ∈ cursor.iterator.keys := h.mem_keys hposition hkey
  have hself' := hself
  simp only [Range.contains, Bound.below, Bool.and_eq_true, decide_eq_true_eq] at hself'
  -- the seek finds the first physical key of the group, since there is one
  have hleast := RawIterator.least_seek h.sorted lower
  cases hfound : (cursor.iterator.seek lower).key? with
  | none =>
    rw [hfound] at hleast
    exact absurd ⟨hmem, hself'.1⟩ (hleast p)
  | some first =>
    rw [hfound] at hleast
    obtain ⟨⟨-, hreached⟩, hfirst⟩ := hleast
    have hle : first ≤ p := hfirst p ⟨hmem, hself'.1⟩
    constructor
    · rintro ⟨hq, _, ⟨⟩, hlt⟩
      refine ⟨hq, Std.lt_of_lt_of_le hlt hle, fun hjoins => ?_⟩
      have hin := (Layout.joins_iff_contains hspan).1 hjoins
      simp only [Range.contains, Bound.below, Bool.and_eq_true, decide_eq_true_eq] at hin
      exact Std.lt_irrefl (Std.lt_of_lt_of_le hlt (hfirst q ⟨hq, hin.1⟩))
    · rintro ⟨hq, hlt, hnot⟩
      refine ⟨hq, first, rfl, Std.not_le.1 fun hle' => hnot ?_⟩
      rw [Stride.Joins, Layout.joins_iff_contains hspan]
      simp only [Range.contains, Bound.below, Bool.and_eq_true, decide_eq_true_eq]
      exact ⟨Std.le_trans hreached hle', Bound.above_of_lt hlt hself'.2⟩

end Poised

/-- A cursor that walks from group to group is stuck on a key that cannot be split. -/
theorem stuck?_of_group (hposition : cursor.position = .resting) (hstride : cursor.stride = .group layout)
    (hkey : cursor.iterator.key? = some p) :
    cursor.stuck? =
      match layout.split p with
      | .error err => some (.encoding err)
      | .ok _ => none := by
  unfold stuck?
  rw [hstride, underfoot?_of_resting hposition, hkey]

theorem spanOf_of_key (hkey : cursor.iterator.key? = some p) :
    cursor.spanOf layout = (layout.spanOf p).mapError .encoding := by
  unfold spanOf
  rw [hkey]

/-- A physical key that is in no group has no bounds. -/
theorem spanOf_of_split_error {err : EncodingError} (hkey : cursor.iterator.key? = some p)
    (hsplit : layout.split p = .error err) : cursor.spanOf layout = .error (.encoding err) := by
  rw [spanOf_of_key hkey]
  unfold Layout.spanOf
  rw [hsplit]
  rfl

/-- Where a step forward goes within a walk from group to group. -/
theorem forward_of_group (hposition : cursor.position = .resting) (hstride : cursor.stride = .group layout) :
    cursor.forward = (cursor.spanOf layout).map fun span =>
      match span.2 with
      | .excluded bound | .included bound => .to (cursor.iterator.seek bound)
      | .unbounded => .edge := by
  unfold forward
  rw [hposition, hstride]
  dsimp only
  rcases cursor.spanOf layout with err | ⟨lower, upper | upper | _⟩ <;> rfl

/-- Where a step backward goes within a walk from group to group. -/
theorem backward_of_group (hposition : cursor.position = .resting) (hstride : cursor.stride = .group layout) :
    cursor.backward = (cursor.spanOf layout).map fun span => .to (cursor.iterator.seek span.1).prev := by
  unfold backward
  rw [hposition, hstride]
  dsimp only
  rcases cursor.spanOf layout with err | span <;> rfl

/-- A step forward goes to the first of the physical keys ahead, unless the cursor is stuck. -/
theorem Poised.sets_forward (h : cursor.Poised) : cursor.SetsForward cursor.forward := by
  -- only a cursor at rest can be stuck, on a key that cannot be split
  have hfree (hnot : cursor.position ≠ .resting) : cursor.stuck? = none := stuck?_of_not_resting hnot
  cases hposition : cursor.position with
  | closed => exact absurd hposition h.unclosed
  | pastEnd =>
    have hforward : cursor.forward = .ok .edge := by
      unfold forward
      rw [hposition]
    rw [hforward]
    refine .edge (hfree (by simp [hposition])) ?_
    unfold ahead
    rw [hposition]
  -- either way the cursor starts from the first key
  | unopened | beforeStart =>
    have hforward : cursor.forward = .ok (.to cursor.iterator.seekFirst) := by
      unfold forward
      rw [hposition]
    have hahead : cursor.ahead = cursor.stops := by
      unfold ahead
      rw [hposition]
    rw [hforward]
    exact .goes (hfree (by simp [hposition])) rfl (hahead ▸ h.least_first)
  | resting =>
    obtain ⟨p, hkey, -⟩ := h.exists_key hposition
    cases hstride : cursor.stride with
    | entry =>
      have hforward : cursor.forward = .ok (.to cursor.iterator.next) := by
        unfold forward
        rw [hposition, hstride]
      rw [hforward]
      exact .goes (stuck?_of_entry hstride) rfl (h.least_next hposition hstride)
    | group layout =>
      have hstuck := stuck?_of_group hposition hstride hkey
      cases hsplit : layout.split p with
      | error err =>
        rw [hsplit] at hstuck
        rw [forward_of_group hposition hstride, spanOf_of_split_error hkey hsplit]
        exact .stuck hstuck
      | ok parts =>
        rw [hsplit] at hstuck
        obtain ⟨lower, upper, hspan, hupper, hself⟩ := Layout.exists_spanOf hsplit
        rw [forward_of_group hposition hstride, spanOf_of_key hkey, hspan]
        rcases hupper with rfl | ⟨bound, rfl⟩
        · -- without an upper bound there is nothing above the group
          refine .edge hstuck (List.eq_nil_iff_forall_not_mem.2 fun q hq => ?_)
          have habove := h.ahead_above hposition hstride hkey hspan hself hq
          cases habove
        · exact .goes hstuck rfl (h.least_seek hposition hstride hkey hspan hself)

/-- A step backward goes to the last of the physical keys behind, unless the cursor is stuck. -/
theorem Poised.sets_backward (h : cursor.Poised) : cursor.SetsBackward cursor.backward := by
  -- only a cursor at rest can be stuck, on a key that cannot be split
  have hfree (hnot : cursor.position ≠ .resting) : cursor.stuck? = none := stuck?_of_not_resting hnot
  cases hposition : cursor.position with
  | closed => exact absurd hposition h.unclosed
  | beforeStart =>
    have hbackward : cursor.backward = .ok .edge := by
      unfold backward
      rw [hposition]
    rw [hbackward]
    refine .edge ?_
    unfold behind
    rw [hposition]
  -- either way the cursor starts from the last key
  | unopened | pastEnd =>
    have hbackward : cursor.backward = .ok (.to cursor.iterator.seekLast) := by
      unfold backward
      rw [hposition]
    have hbehind : cursor.behind = cursor.iterator.keys := by
      unfold behind
      rw [hposition]
    rw [hbackward]
    exact .goes (hfree (by simp [hposition])) rfl (hbehind ▸ h.greatest_last)
  | resting =>
    obtain ⟨p, hkey, -⟩ := h.exists_key hposition
    cases hstride : cursor.stride with
    | entry =>
      have hbackward : cursor.backward = .ok (.to cursor.iterator.prev) := by
        unfold backward
        rw [hposition, hstride]
      rw [hbackward]
      exact .goes (stuck?_of_entry hstride) rfl (h.greatest_prev hposition hstride)
    | group layout =>
      have hstuck := stuck?_of_group hposition hstride hkey
      cases hsplit : layout.split p with
      | error err =>
        rw [hsplit] at hstuck
        rw [backward_of_group hposition hstride, spanOf_of_split_error hkey hsplit]
        exact .stuck hstuck
      | ok parts =>
        rw [hsplit] at hstuck
        obtain ⟨lower, upper, hspan, -, hself⟩ := Layout.exists_spanOf hsplit
        rw [backward_of_group hposition hstride, spanOf_of_key hkey, hspan]
        exact .goes hstuck rfl (h.greatest_before hposition hstride hkey hspan hself)

end Places

end Cursor

end SecondaryIndex
