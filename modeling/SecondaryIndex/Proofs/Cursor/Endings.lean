import SecondaryIndex.Proofs.Cursor.Ahead

/-!
# How walks end

A walk is a step that is repeated until it gives nothing or fails (`Cursor.Drains`). Each step forward that
gives an item takes the first of the physical keys ahead (`Cursor.Poised.ahead_eq_cons`), and each step backward
one of those behind, so that either walk is over after at most one step more than there are physical keys. What
a walk forward gives is what is read of the physical keys ahead, all of it or the first part of it up to a fault
of the engine (`Cursor.Delivers`); and whatever uses a cursor up gives what the walk gives
(`Cursor.Drains.exhausts`).

Both hold wherever a cursor is ready to be moved, and the calls on a cursor that go through leave it so
(`Cursor.Roams.keeps`). Nothing is asked of the physical keys.
-/

namespace SecondaryIndex

namespace Cursor

variable {α : Type} {cursor cursor' : Cursor α} {db db' : Database} {it : RawIterator} {q : Bytes}

/-! ### What a step leaves -/

/-- The cursor at rest, with its iterator moved. -/
def rested (cursor : Cursor α) (it : RawIterator) : Cursor α :=
  { cursor with iterator := it, position := .resting }

/-- A cursor stays poised if its iterator is moved over the same keys. -/
theorem Poised.moved (h : cursor.Poised) {position : Position} (hkeys : it.keys = cursor.iterator.keys)
    (hopen : position ≠ .closed) (hrests : position = .resting → ∃ q, it.key? = some q) :
    Poised { cursor with iterator := it, position } where
  sorted := hkeys ▸ h.sorted
  splits := h.splits
  unclosed := hopen
  rests hposition := by
    obtain ⟨q, hq⟩ := hrests hposition
    obtain ⟨i, hplace, hkey⟩ := Option.bind_eq_some_iff.1 hq
    exact ⟨i, q, hplace, hkey⟩

theorem Poised.rested (h : cursor.Poised) (hkeys : it.keys = cursor.iterator.keys)
    (hq : it.key? = some q) : (cursor.rested it).Poised :=
  h.moved hkeys nofun fun _ => ⟨q, hq⟩

/-- Where a cursor rests does not change its stops. -/
theorem stops_rested (hkeys : it.keys = cursor.iterator.keys) :
    (cursor.rested it).stops = cursor.stops := by
  have hsame : (cursor.rested it).iterator.keys = cursor.iterator.keys := hkeys
  unfold stops
  rw [hsame]
  rfl

/-- What is ahead of a physical key ahead are the stops above it. -/
theorem filter_ahead (hq : q ∈ cursor.ahead) :
    cursor.ahead.filter (q < ·) = cursor.stops.filter (q < ·) := by
  unfold ahead at hq ⊢
  cases hposition : cursor.position with
  | unopened | beforeStart => rfl
  | pastEnd | closed =>
    rw [hposition] at hq
    cases hq
  | resting =>
    rw [hposition] at hq
    obtain ⟨-, hq⟩ := List.mem_filter.1 hq
    obtain ⟨p, hp, hpq⟩ := of_decide_eq_true hq
    rw [List.filter_filter]
    refine List.filter_congr fun r _ => ?_
    by_cases hqr : q < r
    · have habove : ∃ p, cursor.iterator.key? = some p ∧ p < r := ⟨p, hp, Std.lt_trans hpq hqr⟩
      simp [hqr, habove]
    · simp [hqr]

/-- What is ahead of a cursor depends on the key that it rests on. -/
theorem ahead_rested (hkeys : it.keys = cursor.iterator.keys) (hq : it.key? = some q) :
    (cursor.rested it).ahead = cursor.stops.filter (q < ·) := by
  show (cursor.rested it).stops.filter _ = _
  rw [stops_rested hkeys]
  refine List.filter_congr fun r _ => ?_
  simp [rested, hq]

/-- A step forward takes the first of the physical keys ahead. -/
theorem Poised.ahead_eq_cons (h : cursor.Poised) (hkeys : it.keys = cursor.iterator.keys)
    (hq : it.key? = some q) (hleast : Least (· ∈ cursor.ahead) it.key?) :
    cursor.ahead = q :: (cursor.rested it).ahead := by
  rw [hq] at hleast
  calc cursor.ahead
      = q :: cursor.ahead.filter (q < ·) := hleast.eq_cons (h.sorted.sublist cursor.ahead_sublist)
    _ = q :: (cursor.rested it).ahead := by rw [filter_ahead hleast.1, ahead_rested hkeys hq]

/-- What is behind a place the iterator moved to is before the key there, and not joined to it. -/
theorem mem_behind_rested (hkeys : it.keys = cursor.iterator.keys) (hq : it.key? = some q) {r : Bytes} :
    r ∈ (cursor.rested it).behind ↔ r ∈ cursor.iterator.keys ∧ r < q ∧ ¬ cursor.stride.Joins q r := by
  have hposition : (cursor.rested it).position = .resting := rfl
  have hsame : (cursor.rested it).iterator.keys = cursor.iterator.keys := hkeys
  rw [mem_behind_iff hposition hq, hsame]
  rfl

/-- What is behind a physical key behind, and not in a group with it, is behind. -/
theorem mem_behind_of_lt (hmem : q ∈ cursor.behind) {r : Bytes} (hr : r ∈ cursor.iterator.keys)
    (hlt : r < q) (hnot : ¬ cursor.stride.Joins q r) : r ∈ cursor.behind := by
  unfold behind at hmem ⊢
  cases hposition : cursor.position with
  | unopened | pastEnd => exact hr
  | beforeStart | closed =>
    rw [hposition] at hmem
    cases hmem
  | resting =>
    simp only [hposition, List.mem_filter, decide_eq_true_eq] at hmem ⊢
    obtain ⟨-, p, hp, hqp, -⟩ := hmem
    refine ⟨hr, p, hp, Std.lt_trans hlt hqp, fun hjoins => ?_⟩
    -- a group that reaches from `r` to the physical key underfoot has `q` in it
    exact hnot ((hjoins.symm.between (Std.le_of_lt hlt) (Std.le_of_lt hqp)).symm)

/-- A step backward takes at least one of the physical keys behind. -/
theorem Poised.length_behind_lt (h : cursor.Poised) (hkeys : it.keys = cursor.iterator.keys)
    (hq : it.key? = some q) (hgreatest : Greatest (· ∈ cursor.behind) it.key?) :
    (cursor.rested it).behind.length < cursor.behind.length := by
  rw [hq] at hgreatest
  obtain ⟨hmem, -⟩ := hgreatest
  have hnodup : (q :: (cursor.rested it).behind).Nodup := by
    refine List.nodup_cons.2 ⟨fun hself => ?_, ?_⟩
    · exact Std.lt_irrefl ((mem_behind_rested hkeys hq).1 hself).2.1
    · have hsorted := (h.rested hkeys hq).sorted.sublist (cursor.rested it).behind_sublist
      refine hsorted.imp ?_
      rintro a b hab rfl
      exact Std.lt_irrefl hab
  have hsub : q :: (cursor.rested it).behind ⊆ cursor.behind := by
    refine List.cons_subset.2 ⟨hmem, fun r hr => ?_⟩
    obtain ⟨hr, hlt, hnot⟩ := (mem_behind_rested hkeys hq).1 hr
    exact mem_behind_of_lt hmem hr hlt hnot
  exact (List.subperm_of_subset hnodup hsub).length_le

/-! ### Walks -/

/-- A step is repeated until it gives nothing or fails, which takes one call more than items are given. -/
inductive Drains (step : CursorM α (Option α)) :
    Cursor α → Database → List α → Option IndexError → Cursor α → Database → Prop
  | done {c c' : Cursor α} {d d' : Database} (h : (step.run.run c).run d = ((.ok none, c'), d')) :
    Drains step c d [] none c' d'
  | stopped {c c' : Cursor α} {d d' : Database} {err : IndexError}
    (h : (step.run.run c).run d = ((.error err, c'), d')) : Drains step c d [] (some err) c' d'
  | item {c c' c'' : Cursor α} {d d' d'' : Database} {x : α} {items : List α} {error? : Option IndexError}
    (h : (step.run.run c).run d = ((.ok (some x), c'), d')) (rest : Drains step c' d' items error? c'' d'') :
    Drains step c d (x :: items) error? c'' d''

/-- What is given of what was expected: all of it, or the first part of it up to a fault of the engine. -/
inductive Delivers (db : Database) (expected : List α × Option IndexError) :
    List α → Option IndexError → Prop
  | all : Delivers db expected expected.1 expected.2
  | interrupted {items : List α} (hfaults : db.engine.faults ≠ .healthy)
    (hfirst : items <+: expected.1) : Delivers db expected items (some (.storage (.injected .status)))

/-- The operations that use up a cursor give what a walk gives, with the same error if there is one, and an iteration
gives nothing after that. -/
structure Exhausts (cursor : Cursor α) (db : Database) (items : List α) (error? : Option IndexError) :
    Prop where
  collected : (cursor.collect.run db).1 = outcomeOf (items, error?)
  counted : (cursor.count.run db).1 = (outcomeOf (items, error?)).map List.length
  iterated : (cursor.items.run db).1 = (items.map .ok ++ (error?.map .error).toList, true)

/-- Draining takes the steps of a walk, if these are few enough. -/
theorem Drains.run_drain {items : List α} {error? : Option IndexError} {steps : Nat}
    (h : Drains next cursor db items error? cursor' db') (hsteps : items.length < steps) :
    ((drain steps).run cursor).run db = (((items, error?), cursor'), db') := by
  -- by induction on the walk, along the steps of the drain
  induction h generalizing steps with
  | done h =>
    obtain ⟨steps, rfl⟩ := Nat.exists_eq_add_one_of_ne_zero (Nat.ne_of_gt hsteps)
    rw [run_drain_succ, h]
  | stopped h =>
    obtain ⟨steps, rfl⟩ := Nat.exists_eq_add_one_of_ne_zero (Nat.ne_of_gt hsteps)
    rw [run_drain_succ, h]
  | item h rest ih =>
    obtain ⟨steps, rfl⟩ := Nat.exists_eq_add_one_of_ne_zero (Nat.ne_zero_of_lt hsteps)
    rw [run_drain_succ, h]
    dsimp only
    rw [ih (Nat.lt_of_succ_lt_succ hsteps)]

/-- An iteration takes the steps of a walk, and one more to find that it has ended. It has closed its cursor then. -/
theorem Drains.run_items {items : List α} {error? : Option IndexError} {steps : Nat}
    (h : Drains next cursor db items error? cursor' db') (hsteps : items.length < steps) :
    ((CursorItems.collect (steps + 1)).run { cursor }).run db =
      ((items.map .ok ++ (error?.map .error).toList, ⟨{ cursor' with position := .closed }, true⟩),
        cursor'.release db') := by
  induction h generalizing steps with
  | done h =>
    rw [run_items_collect_succ, run_items_next, if_neg Bool.false_ne_true, h]
    rfl
  | stopped h =>
    obtain ⟨steps, rfl⟩ := Nat.exists_eq_add_one_of_ne_zero (Nat.ne_of_gt hsteps)
    rw [run_items_collect_succ, run_items_next, if_neg Bool.false_ne_true, h]
    dsimp only
    rw [run_items_collect_succ, run_items_next, if_pos rfl]
    rfl
  | item h rest ih =>
    obtain ⟨steps, rfl⟩ := Nat.exists_eq_add_one_of_ne_zero (Nat.ne_zero_of_lt hsteps)
    rw [run_items_collect_succ, run_items_next, if_neg Bool.false_ne_true, h]
    dsimp only
    rw [ih (Nat.lt_of_succ_lt_succ hsteps)]
    rfl

/-- Whatever uses a cursor up gives what a walk forward gives. -/
theorem Drains.exhausts {items : List α} {error? : Option IndexError}
    (h : Drains next cursor db items error? cursor' db')
    (hlength : items.length < cursor.iterator.keys.length + 1) : Exhausts cursor db items error? := by
  have hdrain := h.run_drain hlength
  have hcollect : (cursor.collect.run db).1 = outcomeOf (items, error?) := by
    rw [run_collect, hdrain]
  refine ⟨hcollect, ?_, ?_⟩
  · rw [count_eq, Program.run_map, hcollect]
  · rw [Cursor.run_items, h.run_items hlength]
    dsimp only
    rw [run_items_next, if_pos rfl]
    rfl

/-! ### Steps of a cursor that is ready to be moved -/

/-- What a step comes to that has moved the iterator. -/
inductive Arrives (cursor : Cursor α) (db : Database) (it : RawIterator) (edge : Position) :
    Except IndexError (Option α) × Cursor α → Prop
  | unhealthy (hfails : db.engine.fails .status = true) : Arrives cursor db it edge
    (.error (.storage (.injected .status)), { cursor with iterator := it })
  | off (hnone : it.key? = none) : Arrives cursor db it edge
    (.ok none, { cursor with iterator := it, position := edge })
  | unreadable {q : Bytes} {err : EncodingError} (hq : it.key? = some q)
    (hdecode : cursor.decode q = .error err) : Arrives cursor db it edge
    (.error (.encoding err), cursor.rested it)
  | item {q : Bytes} {x : α} (hq : it.key? = some q) (hdecode : cursor.decode q = .ok x) :
    Arrives cursor db it edge (.ok (some x), cursor.rested it)

/-- A step that goes somewhere has drawn the health of the iterator. -/
theorem run_arrive_goes (cursor : Cursor α) (db : Database) (it : RawIterator) (edge : Position) :
    ∃ r, ((arrive (.ok (.to it)) edge).run.run cursor).run db =
        (r, { db with engine := db.engine.drawn .status }) ∧ Arrives cursor db it edge r := by
  refine ⟨_, run_arrive_to cursor db it edge, ?_⟩
  cases hfails : db.engine.fails .status with
  | true => exact .unhealthy hfails
  | false =>
    rw [if_neg Bool.false_ne_true]
    unfold landed
    cases hq : it.key? with
    | none => exact .off hq
    | some q =>
      dsimp only
      cases hdecode : cursor.decode q with
      | error err => exact .unreadable hq hdecode
      | ok x => exact .item hq hdecode

/-- Asking for the health of an iterator brings no faults about. -/
theorem not_healthy_of_drawn {db : Database} (h : (db.engine.drawn .status).faults ≠ .healthy) :
    db.engine.faults ≠ .healthy := by
  intro hdb
  rw [Engine.drawn_of_healthy _ _ hdb] at h
  exact h hdb

theorem not_healthy_of_fails (h : db.engine.fails .status = true) : db.engine.faults ≠ .healthy := by
  intro hdb
  rw [Engine.fails_of_healthy _ _ hdb] at h
  cases h

/-- An item comes before those that are delivered after it. -/
theorem Delivers.cons {expected : List α × Option IndexError} {items : List α} {error? : Option IndexError}
    (h : Delivers db' expected items error?)
    (hfaults : db'.engine.faults ≠ .healthy → db.engine.faults ≠ .healthy) (x : α) :
    Delivers db (x :: expected.1, expected.2) (x :: items) error? := by
  cases h with
  | all => exact .all
  | interrupted hnot hfirst => exact .interrupted (hfaults hnot) (List.cons_prefix_cons.2 ⟨rfl, hfirst⟩)

/-- A cursor that is stuck gives no item. -/
theorem remaining_of_stuck {err : IndexError} (hstuck : cursor.stuck? = some err) :
    cursor.remaining = ([], some err) := by
  unfold remaining
  rw [hstuck]

theorem remaining_of_free (hfree : cursor.stuck? = none) :
    cursor.remaining = readUntil cursor.decode cursor.ahead := by
  unfold remaining
  rw [hfree]

/-- A cursor that rests on a physical key it could read is not stuck there. -/
theorem Poised.free_of_read (h : cursor.Poised) {x : α} (hq : it.key? = some q)
    (hdecode : cursor.decode q = .ok x) : (cursor.rested it).stuck? = none := by
  have hposition : (cursor.rested it).position = .resting := rfl
  cases hstride : cursor.stride with
  | entry =>
    have hentry : (cursor.rested it).stride = .entry := hstride
    exact stuck?_of_entry hentry
  | group layout =>
    have hgroup : (cursor.rested it).stride = .group layout := hstride
    obtain ⟨parts, hsplit⟩ := h.splits hstride hdecode
    rw [stuck?_of_group hposition hgroup hq, hsplit]

/-- Every walk forward ends, and gives what is read of the physical keys ahead. -/
theorem Poised.exists_drain (h : cursor.Poised) (db : Database) :
    ∃ items error? cursor' db', Drains next cursor db items error? cursor' db' ∧
      Delivers db cursor.remaining items error? ∧ items.length ≤ cursor.ahead.length := by
  -- by induction on the number of physical keys ahead, of which a step takes the first
  induction hn : cursor.ahead.length using Nat.strong_induction_on generalizing cursor db with
  | _ n ih =>
    have hrun : (next.run.run cursor).run db = ((arrive cursor.forward .pastEnd).run.run cursor).run db :=
      rfl
    have hsets := h.sets_forward
    generalize cursor.forward = move at hrun hsets
    cases hsets with
    | stuck hstuck =>
      refine ⟨[], _, cursor, db, .stopped hrun, ?_, Nat.zero_le _⟩
      rw [remaining_of_stuck hstuck]
      exact .all
    | edge hfree hahead =>
      refine ⟨[], none, _, db, .done hrun, ?_, Nat.zero_le _⟩
      rw [remaining_of_free hfree, hahead]
      exact .all
    | @goes it hfree hkeys hleast =>
      obtain ⟨r, harrive, harrives⟩ := run_arrive_goes cursor db it .pastEnd
      rw [harrive] at hrun
      cases harrives with
      | unhealthy hfails =>
        exact ⟨[], _, _, _, .stopped hrun, .interrupted (not_healthy_of_fails hfails) List.nil_prefix,
          Nat.zero_le _⟩
      | off hnone =>
        rw [hnone] at hleast
        refine ⟨[], none, _, _, .done hrun, ?_, Nat.zero_le _⟩
        rw [remaining_of_free hfree, hleast.eq_nil]
        exact .all
      | unreadable hq hdecode =>
        refine ⟨[], _, _, _, .stopped hrun, ?_, Nat.zero_le _⟩
        rw [remaining_of_free hfree, h.ahead_eq_cons hkeys hq hleast, readUntil, hdecode]
        exact .all
      | @item q x hq hdecode =>
        have hahead := h.ahead_eq_cons hkeys hq hleast
        have hless : (cursor.rested it).ahead.length < n := by
          rw [← hn, hahead]
          exact Nat.lt_succ_self _
        obtain ⟨items, error?, cursor', db', hdrain, hdelivers, hlength⟩ :=
          ih _ hless (h.rested hkeys hq) { db with engine := db.engine.drawn .status } rfl
        have hremaining : cursor.remaining =
            (x :: (cursor.rested it).remaining.1, (cursor.rested it).remaining.2) := by
          rw [remaining_of_free hfree, remaining_of_free (h.free_of_read hq hdecode), hahead, readUntil,
            hdecode]
          rfl
        refine ⟨x :: items, error?, cursor', db', .item hrun hdrain, ?_, ?_⟩
        · rw [hremaining]
          exact hdelivers.cons not_healthy_of_drawn x
        · exact Nat.lt_of_le_of_lt hlength hless

/-- Every walk backward ends. -/
theorem Poised.exists_drain_backward (h : cursor.Poised) (db : Database) :
    ∃ items error? cursor' db', Drains prev cursor db items error? cursor' db' ∧
      items.length ≤ cursor.behind.length := by
  -- by induction on the number of physical keys behind, of which a step takes some
  induction hn : cursor.behind.length using Nat.strong_induction_on generalizing cursor db with
  | _ n ih =>
    have hrun : (prev.run.run cursor).run db =
        ((arrive cursor.backward .beforeStart).run.run cursor).run db := rfl
    have hsets := h.sets_backward
    generalize cursor.backward = move at hrun hsets
    cases hsets with
    | stuck hstuck => exact ⟨[], _, cursor, db, .stopped hrun, Nat.zero_le _⟩
    | edge hbehind => exact ⟨[], none, _, db, .done hrun, Nat.zero_le _⟩
    | @goes it hfree hkeys hgreatest =>
      obtain ⟨r, harrive, harrives⟩ := run_arrive_goes cursor db it .beforeStart
      rw [harrive] at hrun
      cases harrives with
      | unhealthy hfails => exact ⟨[], _, _, _, .stopped hrun, Nat.zero_le _⟩
      | off hnone => exact ⟨[], none, _, _, .done hrun, Nat.zero_le _⟩
      | unreadable hq hdecode => exact ⟨[], _, _, _, .stopped hrun, Nat.zero_le _⟩
      | @item q x hq hdecode =>
        have hless : (cursor.rested it).behind.length < n := hn ▸ h.length_behind_lt hkeys hq hgreatest
        obtain ⟨items, error?, cursor', db', hdrain, hlength⟩ :=
          ih _ hless (h.rested hkeys hq) { db with engine := db.engine.drawn .status } rfl
        exact ⟨x :: items, error?, cursor', db', .item hrun hdrain, Nat.lt_of_le_of_lt hlength hless⟩

/-! ### Leaving a group -/

/-- Where a step has led that leaves the group of a physical key: to a physical key that stands on one side of
all byte strings of the group. -/
def Leaves (cursor cursor' : Cursor α) (layout : Layout) (p : Bytes) (side : Bytes → Bytes → Prop) : Prop :=
  ∃ key value q, layout.split p = .ok (key, value) ∧ cursor'.underfoot? = some q ∧
    q ∈ cursor.iterator.keys ∧ ∀ r value', layout.split r = .ok (key, value') → side r q

section Leaving

variable {layout : Layout} {p : Bytes} {x : α}

theorem resting_of_underfoot? (hp : cursor.underfoot? = some p) :
    cursor.position = .resting ∧ cursor.iterator.key? = some p := by
  unfold underfoot? at hp
  split at hp
  · exact ⟨‹_›, hp⟩
  · cases hp

theorem exists_split_of_free (hfree : cursor.stuck? = none) (hstride : cursor.stride = .group layout)
    (hp : cursor.underfoot? = some p) : ∃ key value, layout.split p = .ok (key, value) := by
  unfold stuck? at hfree
  rw [hstride, hp] at hfree
  cases hsplit : layout.split p with
  | error err => simp [hsplit] at hfree
  | ok parts => exact ⟨parts.1, parts.2, rfl⟩

/-- A step that gives an item has moved the iterator to where the item was read. -/
theorem exists_rested_of_arrive {move : Except IndexError Move} {edge : Position}
    (hrun : ((arrive move edge).run.run cursor).run db = ((.ok (some x), cursor'), db')) :
    ∃ it q, move = .ok (.to it) ∧ it.key? = some q ∧ cursor' = cursor.rested it := by
  rcases move with err | _ | it
  · cases hrun
  · cases hrun
  · obtain ⟨r, harrive, harrives⟩ := run_arrive_goes cursor db it edge
    rw [harrive] at hrun
    obtain rfl : r = (.ok (some x), cursor') := (Prod.mk.inj hrun).1
    cases harrives with
    | @item q x hq hdecode => exact ⟨it, q, rfl, hq, rfl⟩

/-- A step forward that goes through leads beyond the group that it leaves. -/
theorem Poised.next_leaves (h : cursor.Poised) (hstride : cursor.stride = .group layout)
    (hp : cursor.underfoot? = some p)
    (hrun : (next.run.run cursor).run db = ((.ok (some x), cursor'), db')) :
    cursor.Leaves cursor' layout p fun r q => r < q := by
  obtain ⟨hposition, hkey⟩ := resting_of_underfoot? hp
  have harrive : ((arrive cursor.forward .pastEnd).run.run cursor).run db = ((.ok (some x), cursor'), db') :=
    hrun
  obtain ⟨it, q, hmove, hq, rfl⟩ := exists_rested_of_arrive harrive
  have hsets := h.sets_forward
  rw [hmove] at hsets
  cases hsets with
  | goes hfree hkeys hleast =>
    rw [hq] at hleast
    obtain ⟨hstop, hlt⟩ := (mem_ahead_iff hposition hkey).1 hleast.1
    obtain ⟨hmem, hfirst⟩ := mem_stops_iff.1 hstop
    have hnot := hfirst p (h.mem_keys hposition hkey) hlt
    rw [hstride] at hnot
    obtain ⟨key, value, hsplit⟩ := exists_split_of_free hfree hstride hp
    exact ⟨key, value, q, hsplit, hq, hmem,
      fun r value' hr => Layout.lt_of_not_joins hsplit hlt hnot ⟨value', hr⟩⟩

/-- A step backward that goes through leads below the group that it leaves. -/
theorem Poised.prev_leaves (h : cursor.Poised) (hstride : cursor.stride = .group layout)
    (hp : cursor.underfoot? = some p)
    (hrun : (prev.run.run cursor).run db = ((.ok (some x), cursor'), db')) :
    cursor.Leaves cursor' layout p fun r q => q < r := by
  obtain ⟨hposition, hkey⟩ := resting_of_underfoot? hp
  have harrive : ((arrive cursor.backward .beforeStart).run.run cursor).run db =
      ((.ok (some x), cursor'), db') := hrun
  obtain ⟨it, q, hmove, hq, rfl⟩ := exists_rested_of_arrive harrive
  have hsets := h.sets_backward
  rw [hmove] at hsets
  cases hsets with
  | goes hfree hkeys hgreatest =>
    rw [hq] at hgreatest
    obtain ⟨hmem, hlt, hnot⟩ := (mem_behind_iff hposition hkey).1 hgreatest.1
    rw [hstride] at hnot
    obtain ⟨key, value, hsplit⟩ := exists_split_of_free hfree hstride hp
    exact ⟨key, value, q, hsplit, hq, hmem,
      fun r value' hr => Layout.gt_of_not_joins hsplit hlt hnot ⟨value', hr⟩⟩

end Leaving

/-! ### Calls that go through -/

/-- What a cursor can be after calls on it that went through, none of which closed it. The calls may have been
made in any databases. -/
inductive Roams (cursor : Cursor α) : Cursor α → Prop
  | refl : Roams cursor cursor
  | call {c c' : Cursor α} {call : CursorCall α} {answer : CursorAnswer α} {d d' : Database}
    (h : Roams cursor c) (hopen : call ≠ .close)
    (hrun : ((perform call).run.run c).run d = ((.ok answer, c'), d')) : Roams cursor c'

/-- A step that goes through has led where it leads with a healthy iterator. -/
theorem stepped_of_ok {move : Except IndexError Move} {edge : Position} {answer : CursorAnswer α}
    (hrun : ((CursorAnswer.item <$> arrive move edge).run.run cursor).run db =
      ((.ok answer, cursor'), db')) : cursor' = (cursor.stepped move edge).2 := by
  rw [run_map] at hrun
  cases hstep : (((arrive move edge).run.run cursor).run db).1.1 with
  | error err =>
    rw [hstep] at hrun
    cases hrun
  | ok item? =>
    rw [← run_arrive_of_ok hstep]
    exact (congrArg (fun r => r.1.2) hrun).symm

/-- A call that succeeded has moved its cursor as one without faults would. -/
theorem cursor_of_ok {call : CursorCall α} {answer : CursorAnswer α}
    (hrun : ((perform call).run.run cursor).run db = ((.ok answer, cursor'), db')) :
    cursor' = (cursor.respond call).2 := by
  cases call with
  | next => exact stepped_of_ok hrun
  | prev => exact stepped_of_ok hrun
  | seek item =>
    have hrun' : ((CursorAnswer.found <$> seek item).run.run cursor).run db =
        ((.ok answer, cursor'), db') := hrun
    show cursor' = (cursor.sought item).2
    rw [run_map, run_seek] at hrun'
    unfold sought
    -- a seek that succeeded was given a target, and the iterator was healthy
    generalize cursor.target item = target at hrun' ⊢
    generalize db.engine.fails .status = fails at hrun'
    rcases target with err | ⟨goal, group⟩
    · cases hrun'
    · cases fails with
      | true => cases hrun'
      | false => exact (congrArg (fun r => r.1.2) hrun').symm
  | current =>
    have hrun' : (((fun item => CursorAnswer.item (some item)) <$> current).run.run cursor).run db =
        ((.ok answer, cursor'), db') := hrun
    rw [run_map, run_current] at hrun'
    exact (congrArg (fun r => r.1.2) hrun').symm
  | state => exact (congrArg (fun r => r.1.2) hrun).symm
  | close => exact (congrArg (fun r => r.1.2) hrun).symm

/-- What calls leave as it is. -/
structure Keeps (cursor cursor' : Cursor α) : Prop where
  poised : cursor'.Poised
  keys : cursor'.iterator.keys = cursor.iterator.keys
  stride : cursor'.stride = cursor.stride

/-- A step that goes over the same keys keeps a cursor poised, and its keys. -/
theorem Poised.keeps_stepped (h : cursor.Poised) {move : Except IndexError Move} {edge : Position}
    (hmove : ∀ it, move = .ok (.to it) → it.keys = cursor.iterator.keys) (hopen : edge ≠ .closed)
    (hedge : edge ≠ .resting) : cursor.Keeps (cursor.stepped move edge).2 := by
  unfold stepped
  rcases move with err | _ | it
  · exact ⟨h, rfl, rfl⟩
  · exact ⟨h.moved rfl hopen fun hposition => absurd hposition hedge, rfl, rfl⟩
  · have hkeys := hmove it rfl
    dsimp only
    unfold landed
    cases hq : it.key? with
    | none => exact ⟨h.moved hkeys hopen fun hposition => absurd hposition hedge, hkeys, rfl⟩
    | some q => exact ⟨h.rested hkeys hq, hkeys, rfl⟩

theorem SetsForward.keys {move : Except IndexError Move} (h : cursor.SetsForward move) :
    ∀ it, move = .ok (.to it) → it.keys = cursor.iterator.keys := by
  rintro it rfl
  cases h with
  | goes _ hkeys _ => exact hkeys

theorem SetsBackward.keys {move : Except IndexError Move} (h : cursor.SetsBackward move) :
    ∀ it, move = .ok (.to it) → it.keys = cursor.iterator.keys := by
  rintro it rfl
  cases h with
  | goes _ hkeys _ => exact hkeys

/-- No call but the one that closes it leaves a cursor where it cannot be moved. -/
theorem Poised.keeps_respond (h : cursor.Poised) {call : CursorCall α} (hopen : call ≠ .close) :
    cursor.Keeps (cursor.respond call).2 := by
  cases call with
  | next => exact h.keeps_stepped h.sets_forward.keys nofun nofun
  | prev => exact h.keeps_stepped h.sets_backward.keys nofun nofun
  | seek item =>
    show cursor.Keeps (cursor.sought item).2
    unfold sought
    rcases cursor.target item with err | ⟨goal, group⟩
    · exact ⟨h, rfl, rfl⟩
    · show cursor.Keeps (cursor.soughtAt goal group).2
      unfold soughtAt
      cases hq : (cursor.iterator.seek goal).key? with
      | none => exact ⟨h.moved rfl nofun nofun, rfl, rfl⟩
      | some q => exact ⟨h.rested rfl hq, rfl, rfl⟩
  | current => exact ⟨h, rfl, rfl⟩
  | state => exact ⟨h, rfl, rfl⟩
  | close => exact absurd rfl hopen

/-- Wherever calls that go through have led a cursor, it is ready to be moved. -/
theorem Roams.keeps (h : cursor.Roams cursor') (hpoised : cursor.Poised) : cursor.Keeps cursor' := by
  -- by induction on the calls
  induction h with
  | refl => exact ⟨hpoised, rfl, rfl⟩
  | call h hopen hrun ih =>
    have hkeeps := ih.poised.keeps_respond hopen
    rw [← cursor_of_ok hrun] at hkeeps
    exact ⟨hkeeps.poised, hkeeps.keys.trans ih.keys, hkeeps.stride.trans ih.stride⟩

/-! ### Walks from anywhere -/

/-- Walks from a cursor end in both directions, with no more items than there are physical keys. Whatever uses
the cursor up gives what a walk forward gives, and that is what is read of the physical keys ahead. A walk from
group to group leaves each group as a whole. -/
structure Terminates (cursor : Cursor α) : Prop where
  forward : ∀ db, ∃ items error? cursor' db', Drains next cursor db items error? cursor' db' ∧
    items.length ≤ cursor.iterator.keys.length ∧ Exhausts cursor db items error? ∧
    Delivers db cursor.remaining items error?
  backward : ∀ db, ∃ items error? cursor' db', Drains prev cursor db items error? cursor' db' ∧
    items.length ≤ cursor.iterator.keys.length
  leaves_forward : ∀ {layout p db x cursor' db'}, cursor.stride = .group layout →
    cursor.underfoot? = some p → (next.run.run cursor).run db = ((.ok (some x), cursor'), db') →
    cursor.Leaves cursor' layout p fun r q => r < q
  leaves_backward : ∀ {layout p db x cursor' db'}, cursor.stride = .group layout →
    cursor.underfoot? = some p → (prev.run.run cursor).run db = ((.ok (some x), cursor'), db') →
    cursor.Leaves cursor' layout p fun r q => q < r

/-- From wherever a poised cursor stands, it comes to an end in either direction. -/
theorem Poised.terminates (h : cursor.Poised) : cursor.Terminates where
  forward db := by
    obtain ⟨items, error?, cursor', db', hdrain, hdelivers, hlength⟩ := h.exists_drain db
    have hle : items.length ≤ cursor.iterator.keys.length := hlength.trans cursor.ahead_sublist.length_le
    exact ⟨items, error?, cursor', db', hdrain, hle, hdrain.exhausts (Nat.lt_succ_of_le hle), hdelivers⟩
  backward db := by
    obtain ⟨items, error?, cursor', db', hdrain, hlength⟩ := h.exists_drain_backward db
    exact ⟨items, error?, cursor', db', hdrain, hlength.trans cursor.behind_sublist.length_le⟩
  leaves_forward hstride hp hrun := h.next_leaves hstride hp hrun
  leaves_backward hstride hp hrun := h.prev_leaves hstride hp hrun

end Cursor

end SecondaryIndex
