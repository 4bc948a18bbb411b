import SecondaryIndex.Proofs.Debt.Basic

/-!
# What cursors and operations owe

A cursor owes the release of its iterator and the notice of its closing, until it is closed
(`Cursor.debt`). Steps of a cursor leave its debt as it is, whether the iterator is healthy or not; closing
pays it, and so does whatever uses the cursor up (`Cursor.owes_collect`). An iteration owes what its cursor
does. It is paid at the end, at the first error, or when the iteration is given up before
(`CursorItems.owes_next`).

An operation of an index that gives a cursor hands its debt on with it (`accounts_openCursor`). Every
other operation owes nothing when it is over, however it ends.
-/

namespace SecondaryIndex

open Program

variable {α β K V : Type} {n : Nat}

/-! ### Cursors -/

namespace Position

theorem resting_ne_closed : resting ≠ closed := nofun

theorem pastEnd_ne_closed : pastEnd ≠ closed := nofun

theorem beforeStart_ne_closed : beforeStart ≠ closed := nofun

end Position

namespace Cursor

/-- What a cursor owes. -/
def debt (cursor : Cursor α) : Debt :=
  if cursor.isClosed then 0 else Debt.iterator + Debt.notice cursor.metrics

/-- A cursor is as open as another one, and counted by the same counters. -/
structure OwesAs (cursor cursor' : Cursor α) : Prop where
  isClosed : cursor'.isClosed = cursor.isClosed
  metrics : cursor'.metrics = cursor.metrics

variable {cursor cursor' : Cursor α} {db : Database} {rest : Debt}

theorem isClosed_eq_false_iff : cursor.isClosed = false ↔ cursor.position ≠ .closed := by
  simp [isClosed]

/-- For a cursor that is not closed two things are owed, the release of its iterator and the notice of its closing. -/
theorem debt_of_open (h : cursor.isClosed = false) :
    cursor.debt = Debt.iterator + Debt.notice cursor.metrics := by
  rw [debt, h]
  rfl

theorem OwesAs.refl (cursor : Cursor α) : cursor.OwesAs cursor := ⟨rfl, rfl⟩

theorem OwesAs.trans {cursor'' : Cursor α} (h : cursor.OwesAs cursor') (h' : cursor'.OwesAs cursor'') :
    cursor.OwesAs cursor'' := ⟨h'.isClosed.trans h.isClosed, h'.metrics.trans h.metrics⟩

/-- Cursors that owe alike have the same debt. -/
theorem OwesAs.debt_eq (h : cursor.OwesAs cursor') : cursor'.debt = cursor.debt := by
  rw [debt, debt, h.isClosed, h.metrics]

/-- A cursor that is open still is open in another position. -/
theorem owesAs_of_open (hopen : cursor.isClosed = false) {position : Position}
    (hposition : position ≠ .closed) (it : RawIterator) :
    cursor.OwesAs { cursor with iterator := it, position } := by
  refine ⟨?_, rfl⟩
  rw [hopen]
  exact isClosed_eq_false_iff.2 hposition

/-! ### Steps of a cursor -/

/-- A program of a cursor after which as much is owed as before. -/
def Balances (x : CursorM α β) : Prop :=
  ∀ (n : Nat) (rest : Debt) (cursor : Cursor α) (db : Database), db.Owes n (cursor.debt + rest) →
    ((x.run.run cursor).run db).2.Owes n (((x.run.run cursor).run db).1.2.debt + rest)

/-- To rename what a program on a cursor gives changes nothing of what is owed. -/
theorem Balances.map {x : CursorM α β} {γ : Type} (f : β → γ) (h : Balances x) : Balances (f <$> x) := by
  intro n rest cursor db hdb
  rw [run_map]
  exact h n rest cursor db hdb

/-- Wherever a cursor lands that was not closed, it is not closed there. -/
theorem owesAs_landed (hopen : cursor.isClosed = false) {edge : Position} (hedge : edge ≠ .closed)
    (it : RawIterator) : cursor.OwesAs (cursor.landed edge it).2 := by
  unfold landed
  cases it.key? with
  | none => exact owesAs_of_open hopen hedge it
  | some physical => exact owesAs_of_open hopen Position.resting_ne_closed it

/-- A step that is not refused is one of an open cursor, which stays open. -/
theorem owesAs_arrive {move : Except IndexError Move} {edge : Position} (hedge : edge ≠ .closed)
    (hopen : ∀ m, move = .ok m → cursor.isClosed = false) (db : Database) :
    cursor.OwesAs (((arrive move edge).run.run cursor).run db).1.2 := by
  rw [run_arrive]
  rcases move with err | _ | it
  · exact .refl cursor
  · exact owesAs_of_open (hopen _ rfl) hedge cursor.iterator
  · show cursor.OwesAs (if db.engine.fails .status then _ else cursor.landed edge it).2
    split
    · exact ⟨rfl, rfl⟩
    · exact owesAs_landed (hopen _ rfl) hedge it

/-- A move asks for the status and takes notice of nothing, so no book shows it. -/
theorem owes_arrive (h : db.Owes n rest) (move : Except IndexError Move) (edge : Position) :
    (((arrive move edge).run.run cursor).run db).2.Owes n rest := by
  rw [run_arrive]
  rcases move with err | _ | it
  · exact h
  · exact h
  · exact h.withEngine rfl

/-! A closed cursor refuses to move. -/

/-- A cursor that is closed refuses to move forward. -/
theorem isClosed_of_forward {m : Move} (h : cursor.forward = .ok m) : cursor.isClosed = false := by
  refine isClosed_eq_false_iff.2 fun hclosed => ?_
  rw [forward, hclosed] at h
  cases h

/-- A cursor that is closed refuses to move back. -/
theorem isClosed_of_backward {m : Move} (h : cursor.backward = .ok m) : cursor.isClosed = false := by
  refine isClosed_eq_false_iff.2 fun hclosed => ?_
  rw [backward, hclosed] at h
  cases h

/-- A cursor that is closed refuses to seek, whatever the item is. -/
theorem isClosed_of_target {item : α} {goal : Bytes × Bool} (h : cursor.target item = .ok goal) :
    cursor.isClosed = false := by
  refine isClosed_eq_false_iff.2 fun hclosed => ?_
  rw [target, hclosed] at h
  cases h

/-- A step forward neither closes a cursor nor opens it again, whatever comes of the step. -/
theorem owesAs_next (cursor : Cursor α) (db : Database) :
    cursor.OwesAs ((next.run.run cursor).run db).1.2 :=
  owesAs_arrive Position.pastEnd_ne_closed (fun _ => isClosed_of_forward) db

/-- A step back neither closes a cursor nor opens it again. -/
theorem owesAs_prev (cursor : Cursor α) (db : Database) :
    cursor.OwesAs ((prev.run.run cursor).run db).1.2 :=
  owesAs_arrive Position.beforeStart_ne_closed (fun _ => isClosed_of_backward) db

/-- A seek that is not refused leaves the cursor open, whether it finds anything or not. -/
theorem owesAs_seek (item : α) (cursor : Cursor α) (db : Database) :
    cursor.OwesAs (((seek item).run.run cursor).run db).1.2 := by
  rw [run_seek]
  cases htarget : cursor.target item with
  | error err => exact .refl cursor
  | ok goal =>
    have hopen := isClosed_of_target htarget
    show cursor.OwesAs (if db.engine.fails .status then
      ((.error (.storage (.injected .status)),
        { cursor with iterator := cursor.iterator.seek goal.1 }) : Except IndexError Bool × Cursor α)
      else (cursor.soughtAt goal.1 goal.2).map .ok id).2
    split
    -- the iterator has moved even if it is found not to be healthy then
    · exact ⟨rfl, rfl⟩
    · unfold soughtAt
      cases (cursor.iterator.seek goal.1).key? with
      | none => exact owesAs_of_open hopen Position.pastEnd_ne_closed _
      | some physical => exact owesAs_of_open hopen Position.resting_ne_closed _

/-- What is owed for a cursor is owed after a step forward, also if the step fails. -/
theorem balances_next : Balances (next (α := α)) := by
  intro n rest cursor db hdb
  rw [(owesAs_next cursor db).debt_eq]
  exact owes_arrive hdb cursor.forward .pastEnd

/-- What is owed for a cursor is owed after a step back. -/
theorem balances_prev : Balances (prev (α := α)) := by
  intro n rest cursor db hdb
  rw [(owesAs_prev cursor db).debt_eq]
  exact owes_arrive hdb cursor.backward .beforeStart

/-- To look at the item that a cursor rests on does not move it. -/
theorem balances_current : Balances (current (α := α)) := by
  intro n rest cursor db hdb
  rw [run_current]
  exact hdb

/-- What is owed for a cursor is owed after seeking. An item that cannot be encoded leaves the cursor where it was,
and an error of the engine does not close it. -/
theorem balances_seek (item : α) : Balances (seek item) := by
  intro n rest cursor db hdb
  rw [(owesAs_seek item cursor db).debt_eq, run_seek]
  cases cursor.target item with
  | error err => exact hdb
  | ok goal => exact Database.Owes.withEngine (e := db.engine.drawn .status) hdb rfl

/-- Releasing a cursor pays what it owes. -/
theorem owes_release (h : db.Owes n (cursor.debt + rest)) : (cursor.release db).Owes n rest := by
  unfold release
  split
  · next hclosed =>
    rwa [debt, if_pos hclosed, zero_add] at h
  · next hopen =>
    rw [debt, if_neg hopen, add_assoc] at h
    exact h.released.closed

/-- To close a cursor pays what is owed for it, which is nothing if it was closed already. -/
theorem balances_close : Balances (close (α := α)) := by
  intro n rest cursor db hdb
  -- a closed cursor owes nothing, and is not released again
  have hpaid : (cursor.release db).Owes n (0 + rest) := by
    rw [zero_add]
    exact owes_release hdb
  exact hpaid

/-! ### Using a cursor up -/

/-- The loop that uses a cursor up leaves the books alone, and leaves it to what comes after to close the cursor. -/
theorem owes_drain (cursor : Cursor α) (steps : Nat) (h : db.Owes n rest) :
    (((drain (α := α) steps).run cursor).run db).2.Owes n rest ∧
      cursor.OwesAs (((drain steps).run cursor).run db).1.2 := by
  -- by induction on the steps, each from where the last one led
  induction steps generalizing cursor db with
  | zero => exact ⟨h, .refl cursor⟩
  | succ steps ih =>
    have hdb : ((next.run.run cursor).run db).2.Owes n rest := owes_arrive h cursor.forward .pastEnd
    have howes := owesAs_next cursor db
    rw [run_drain_succ]
    rcases hrun : (next.run.run cursor).run db with ⟨⟨_ | _ | item, cursor'⟩, db'⟩
    · rw [hrun] at hdb howes
      exact ⟨hdb, howes⟩
    · rw [hrun] at hdb howes
      exact ⟨hdb, howes⟩
    · rw [hrun] at hdb howes
      obtain ⟨hdb', howes'⟩ := ih cursor' hdb
      exact ⟨hdb', howes.trans howes'⟩

/-- A closed cursor cannot be drained. -/
theorem drain_of_closed (h : cursor.isClosed = true) (steps : Nat) (db : Database) :
    (((drain (α := α) (steps + 1)).run cursor).run db).1.1.2.isNone = false := by
  have hposition : cursor.position = .closed := by simpa [isClosed] using h
  have hnext : ((next (α := α)).run.run cursor).run db =
      ((.error (.invalidState .closed), cursor), db) := by
    show ((arrive cursor.forward .pastEnd).run.run cursor).run db = _
    rw [run_arrive, forward, hposition]
  rw [run_drain_succ, hnext]
  rfl

/-- Whatever uses a cursor up pays what it owes, and no more. -/
theorem owes_collect (h : db.Owes n (cursor.debt + rest)) : (cursor.collect.run db).2.Owes n rest := by
  obtain ⟨hdb, howes⟩ := owes_drain cursor (cursor.iterator.keys.length + 1) h
  have hended (hclosed : cursor.isClosed = true) :=
    drain_of_closed hclosed cursor.iterator.keys.length db
  rw [run_collect]
  generalize ((drain (cursor.iterator.keys.length + 1)).run cursor).run db = r at hdb howes hended ⊢
  obtain ⟨⟨⟨items, error?⟩, cursor'⟩, db'⟩ := r
  refine owes_release ?_
  rw [howes.debt_eq]
  dsimp only at hdb hended ⊢
  split
  · next hnone =>
    -- only an open cursor reaches the end, so its counters are installed
    have hopen : cursor.isClosed = false := by
      cases hc : cursor.isClosed with
      | false => rfl
      | true =>
        rw [hended hc] at hnone
        cases hnone
    rw [debt_of_open hopen, add_comm Debt.iterator, add_assoc] at hdb
    rw [debt_of_open hopen, add_comm Debt.iterator, add_assoc, howes.metrics]
    exact hdb.observe hdb.installed_of_notice (Counters.countsAside_scan _)
  · exact hdb

/-- Whoever collects the items of a cursor pays for the cursor, whether all steps go through or one fails. -/
theorem accounts_collect (cursor : Cursor α) :
    Accounts (Database.Owes n) cursor.debt (fun _ => 0) cursor.collect := by
  intro rest db hdb
  have hpaid := owes_collect hdb
  have hnothing : Debt.after (fun _ => 0) (cursor.collect.run db).1 + rest = rest := by
    cases (cursor.collect.run db).1 <;> exact zero_add rest
  rw [hnothing]
  exact hpaid

/-- Whoever counts the items of a cursor pays for it just the same. -/
theorem accounts_count (cursor : Cursor α) :
    Accounts (Database.Owes n) cursor.debt (fun _ => 0) cursor.count := by
  rw [count_eq]
  exact .map (accounts_collect cursor)

end Cursor

/-! ### Iterations -/

namespace CursorItems

variable {iteration : CursorItems α} {db : Database} {rest : Debt}

/-- What an iteration owes is what its cursor does. -/
def debt (iteration : CursorItems α) : Debt := iteration.cursor.debt

/-- A step of an iteration pays in full if it is the last one, and nothing if it is not. -/
theorem owes_next (iteration : CursorItems α) (h : db.Owes n (iteration.debt + rest)) :
    ((next.run iteration).run db).2.Owes n (((next.run iteration).run db).1.2.debt + rest) := by
  rw [Cursor.run_items_next]
  split
  · exact h
  · have hnext := Cursor.balances_next n rest iteration.cursor db h
    have hpaid {cursor' : Cursor α} {db' : Database} (h : db'.Owes n (cursor'.debt + rest)) :
        (cursor'.release db').Owes n (Cursor.debt { cursor' with position := .closed } + rest) := by
      show (cursor'.release db').Owes n (0 + rest)
      rw [zero_add]
      exact Cursor.owes_release h
    rcases hrun : (Cursor.next.run.run iteration.cursor).run db with ⟨⟨_ | _ | item, cursor'⟩, db'⟩ <;>
      rw [hrun] at hnext
    · exact hpaid hnext
    · exact hpaid hnext
    · exact hnext

/-- Over any number of its steps, an iteration pays once at most for its cursor. -/
theorem owes_collect (steps : Nat) (h : db.Owes n (iteration.debt + rest)) :
    (((collect steps).run iteration).run db).2.Owes n
      ((((collect steps).run iteration).run db).1.2.debt + rest) := by
  induction steps generalizing iteration db with
  | zero => exact h
  | succ steps ih =>
    have hnext := owes_next _ h
    rw [Cursor.run_items_collect_succ]
    rcases hrun : (next.run iteration).run db with ⟨⟨_ | outcome, iteration'⟩, db'⟩ <;> rw [hrun] at hnext
    · exact hnext
    · exact ih hnext

end CursorItems

/-- To give an iteration up that is not done pays what is left to pay. -/
theorem Cursor.owes_items {cursor : Cursor α} {db : Database} {rest : Debt}
    (h : db.Owes n (cursor.debt + rest)) : (cursor.items.run db).2.Owes n rest := by
  rw [run_items]
  exact owes_release (CursorItems.owes_next _ (CursorItems.owes_collect _ h))

/-! ### Indexes -/

namespace Index

variable (index : Index K V) {ctx : Context}

theorem balances_insertWithin (id : TransactionId) (key : K) (value : V) :
    Balances (Database.Owes n) (index.insertWithin id key value) :=
  (Accounts.encoding _).bind fun _ => .engine (Engine.balances_put _ _ _ _)

/-- To remove a pair looks it up first, and opens no iterator for that. -/
theorem balances_eraseWithin (id : TransactionId) (key : K) (value : V) :
    Balances (Database.Owes n) (index.eraseWithin id key value) := by
  refine (Accounts.encoding _).bind fun physical => ?_
  refine (Accounts.engine (Engine.balances_lookup _ _ _)).bind fun found? => ?_
  cases found? with
  | none => exact .done _
  | some _ => exact (Accounts.engine (Engine.balances_delete _ _ _)).bind fun _ => .done _

theorem balances_keyRange (key : K) : Balances (Database.Owes n) (index.keyRange key) :=
  (Accounts.encoding _).bind fun _ => .done _

/-- The iterator that lists the pairs of a key is released before the first of them is removed, so a removal that
fails leaves none open. -/
theorem balances_eraseAllWithin (id : TransactionId) (key : K) :
    Balances (Database.Owes n) (index.eraseAllWithin id key) := by
  refine (index.balances_keyRange key).bind fun range => ?_
  refine (Accounts.withIterator fun it => ?_).bind fun doomed => ?_
  · exact (Accounts.engine Engine.balances_status).bind fun _ => .done _
  · exact (Accounts.forM fun _ => .engine (Engine.balances_delete _ _ _)).bind fun _ => .done _

/-- An iterator is opened in a transaction. If that one cannot be ended nobody is given the iterator, so it is
released. -/
theorem accounts_openIterator (range : Range) :
    Accounts (Database.Owes n) 0 (fun _ => Debt.iterator) (index.openIterator ctx range) := by
  refine .transactionally (fun id => ?_) fun _ => ?_
  · exact (Engine.accounts_openIterator id index.ns range).ofEngine fun _ => rfl
  · have hrelease := Accounts.release (n := n) 0
    rwa [add_zero] at hrelease

variable (hinstalled : Database.Installed n index.options.metrics)

include hinstalled

/-- Whoever is given a cursor owes what the cursor does. -/
theorem accounts_openCursor (range : Range) (decode : Bytes → Except EncodingError α)
    (seeking : Seeking α) (stride : Stride) :
    Accounts (Database.Owes n) 0 Cursor.debt (index.openCursor ctx range decode seeking stride) := by
  refine (index.accounts_openIterator range).bind fun iterator => ?_
  have hnotice : Accounts (Database.Owes n) Debt.iterator
      (fun _ => Debt.iterator + Debt.notice index.options.metrics)
      (IndexM.observe index.options.metrics Counters.countOpened) := by
    intro rest db hdb
    have hopened := hdb.opened hinstalled
    rwa [← add_assoc, add_comm (Debt.notice _)] at hopened
  exact hnotice.bind fun _ _ _ hdb => hdb

/-- Whoever is given the cursor over the values of a key owes what that cursor does. -/
theorem accounts_find (key : K) : Accounts (Database.Owes n) 0 Cursor.debt (index.find ctx key) :=
  (index.balances_keyRange key).bind fun range => index.accounts_openCursor hinstalled range _ _ _

/-- The cursor that is opened to count the pairs is used up by counting them. -/
theorem balances_count : Balances (Database.Owes n) (index.count ctx) :=
  (index.accounts_openCursor hinstalled _ _ _ _).bind Cursor.accounts_count

/-- The cursor that is opened to count the values of a key is used up by counting them. -/
theorem balances_countKey (key : K) : Balances (Database.Owes n) (index.countKey ctx key) :=
  (index.accounts_find hinstalled key).bind Cursor.accounts_count

/-- An estimate is made without any iterator, and counted apart from cursors. -/
theorem balances_estimateRange (range : Range) :
    Balances (Database.Owes n) (index.estimateRange range) := by
  refine (Accounts.engine (Engine.balances_recentTally _ _)).bind fun recent => ?_
  refine (Accounts.engine (Engine.balances_olderSize _ _)).bind fun older => ?_
  exact (Accounts.observe hinstalled Counters.countsAside_estimate).bind fun _ => .done _

theorem balances_estimateKey (key : K) : Balances (Database.Owes n) (index.estimateKey key) :=
  (index.balances_keyRange key).bind fun range => index.balances_estimateRange hinstalled range

/-- An addition is counted after its transaction was ended, and not at all if that failed. -/
theorem balances_add (key : K) (value : V) : Balances (Database.Owes n) (index.add ctx key value) :=
  (Accounts.within fun id => index.balances_insertWithin id key value).bind fun _ =>
    .observe hinstalled Counters.countsAside_added

/-- A removal that has found nothing is not counted. -/
theorem balances_remove (key : K) (value : V) :
    Balances (Database.Owes n) (index.remove ctx key value) := by
  refine (Accounts.within fun id => index.balances_eraseWithin id key value).bind fun removed => ?_
  cases removed with
  | true => exact .observe hinstalled (Counters.countsAside_removed 1)
  | false => exact .done _

/-- All removals are counted at once, after their transaction was ended. -/
theorem balances_removeAll (key : K) : Balances (Database.Owes n) (index.removeAll ctx key) :=
  (Accounts.within fun id => .map (index.balances_eraseAllWithin id key)).bind fun _ =>
    (Accounts.observe hinstalled (Counters.countsAside_removed _)).bind fun _ => .done _

omit hinstalled

/-- The iterator that finds the first value of a key is released in any case, also where there is no such value. -/
theorem balances_findFirst (key : K) : Balances (Database.Owes n) (index.findFirst ctx key) := by
  refine (index.balances_keyRange key).bind fun range => ?_
  refine (Accounts.within fun id => .withIterator fun it => ?_).bind fun physical? => ?_
  · exact (Accounts.engine Engine.balances_status).bind fun _ => .done _
  · cases physical? with
    | none => exact .throw _
    | some physical => exact .encoding _

end Index

/-! ### Two-way indexes -/

namespace TwoWayIndex

variable (index : TwoWayIndex K V) {ctx : Context}

/-- The pairs that are removed from the reverse half are known already, so no iterator is needed to list them. -/
theorem balances_eraseReverseWithin (id : TransactionId) (key : K) (doomed : List Bytes) :
    Balances (Database.Owes n) (index.eraseReverseWithin id key doomed) :=
  .forM fun _ => (Accounts.encoding _).bind fun value =>
    (index.reverse.balances_eraseWithin id value key).bind fun _ => .done _

variable (hinstalled : Database.Installed n index.forward.options.metrics)

include hinstalled

/-- The two halves are written in one transaction, and counted as one addition. -/
theorem balances_add (key : K) (value : V) : Balances (Database.Owes n) (index.add ctx key value) := by
  refine (Accounts.within fun id => ?_).bind fun _ => .observe hinstalled Counters.countsAside_added
  exact (index.forward.balances_insertWithin id key value).bind fun _ =>
    index.reverse.balances_insertWithin id value key

/-- A removal from both halves is counted as that of one pair. -/
theorem balances_remove (key : K) (value : V) :
    Balances (Database.Owes n) (index.remove ctx key value) := by
  refine (Accounts.within fun id => ?_).bind fun removed => ?_
  · exact (index.forward.balances_eraseWithin id key value).bind fun _ =>
      (index.reverse.balances_eraseWithin id value key).bind fun _ => .done _
  · cases removed with
    | true => exact .observe hinstalled (Counters.countsAside_removed 1)
    | false => exact .done _

/-- The pairs of a key are removed from both halves, and counted once. -/
theorem balances_removeAll (key : K) : Balances (Database.Owes n) (index.removeAll ctx key) := by
  refine (Accounts.within fun id => ?_).bind fun _ =>
    (Accounts.observe hinstalled (Counters.countsAside_removed _)).bind fun _ => .done _
  exact (index.forward.balances_eraseAllWithin id key).bind fun doomed =>
    (index.balances_eraseReverseWithin id key doomed).bind fun _ => .done _

end TwoWayIndex

/-! ### Indexes of either form -/

namespace AnyIndex

/-- The counters of an index, those of its halves included, are installed. -/
structure Installed (n : Nat) (index : AnyIndex K V) : Prop where
  forward : Database.Installed n index.forward.options.metrics
  reverse : ∀ reverse, index.reverse? = some reverse → Database.Installed n reverse.options.metrics

section Made

variable {name : String} {ns reverseNs : Namespace} {keys : Codec K} {values : Codec V}
  {options : IndexOptions}

/-- An index has its counters installed if they are those that its options name. -/
theorem Installed.create (h : Database.Installed n options.metrics) :
    Installed n (.oneWay (Index.create name ns keys values options)) := ⟨h, nofun⟩

/-- The halves of a two-way index share the counters that the options name. -/
theorem Installed.createTwoWay (h : Database.Installed n options.metrics) :
    Installed n (.twoWay (TwoWayIndex.create name ns reverseNs keys values options)) := by
  refine ⟨h, fun reverse hreverse => ?_⟩
  cases hreverse
  exact h

end Made

variable {index : AnyIndex K V} {ctx : Context}

/-- An addition balances with an index of either form. -/
theorem Installed.add (h : index.Installed n) (key : K) (value : V) :
    Balances (Database.Owes n) (index.add ctx key value) := by
  cases index with
  | oneWay index => exact index.balances_add h.forward key value
  | twoWay index => exact index.balances_add h.forward key value

/-- Many additions balance, also those before one that fails. -/
theorem Installed.addMany (h : index.Installed n) (pairs : List (K × V)) :
    Balances (Database.Owes n) (index.addMany ctx pairs) := by
  have hadd (pair : K × V) : Balances (Database.Owes n) (index.add ctx pair.1 pair.2) :=
    h.add pair.1 pair.2
  exact (Accounts.forM hadd).bind fun _ => .done _

/-- A removal balances with an index of either form. -/
theorem Installed.remove (h : index.Installed n) (key : K) (value : V) :
    Balances (Database.Owes n) (index.remove ctx key value) := by
  cases index with
  | oneWay index => exact index.balances_remove h.forward key value
  | twoWay index => exact index.balances_remove h.forward key value

/-- The removal of a key balances with an index of either form. -/
theorem Installed.removeAll (h : index.Installed n) (key : K) :
    Balances (Database.Owes n) (index.removeAll ctx key) := by
  cases index with
  | oneWay index => exact index.balances_removeAll h.forward key
  | twoWay index => exact index.balances_removeAll h.forward key

end AnyIndex

/-! ### Counts -/

namespace Statistics

variable {stats : Statistics K V} {count : Count} {budget : Budget} {estimateOk : Bool}

/-- A count that is only given by scanning balances if the scan does. -/
theorem balances_of_scanning {value : IndexM Nat} (h : Balances (Database.Owes n) value)
    (hcount : scanning budget value = some count) : Balances (Database.Owes n) count.value := by
  unfold scanning at hcount
  split at hcount
  · cases hcount
    exact h
  · cases hcount

/-- A count is a scan or an estimate, and balances if both do. -/
theorem balances_of_estimable {value estimate : IndexM Nat} (h : Balances (Database.Owes n) value)
    (h' : Balances (Database.Owes n) estimate)
    (hcount : estimable budget estimateOk value estimate = some count) :
    Balances (Database.Owes n) count.value := by
  unfold estimable at hcount
  split at hcount
  · cases hcount
    exact h
  · split at hcount
    · cases hcount
      exact h'
    · cases hcount

/-- To compute a count is to open a cursor and to use it up, or to estimate. -/
theorem balances_count (hforward : Database.Installed n stats.forward.options.metrics)
    (hreverse : ∀ reverse, stats.reverse? = some reverse → Database.Installed n reverse.options.metrics)
    {question : Question K V} (hcount : stats.count? budget estimateOk question = some count) :
    Balances (Database.Owes n) count.value := by
  cases question with
  | entries =>
    exact balances_of_estimable (stats.forward.balances_count hforward)
      (stats.forward.balances_estimateRange hforward _) hcount
  | keys =>
    exact balances_of_scanning ((stats.forward.accounts_openCursor hforward _ _ _ _).bind
      Cursor.accounts_count) hcount
  | valuesOfKey key =>
    exact balances_of_estimable (stats.forward.balances_countKey hforward key)
      (stats.forward.balances_estimateKey hforward key) hcount
  | values =>
    exact balances_of_scanning ((stats.forward.accounts_openCursor hforward _ _ _ _).bind
      Cursor.accounts_count) hcount
  | keysWithValue value =>
    simp only [count?, keysWithValue] at hcount
    split at hcount
    · obtain ⟨reverse, hr, rfl⟩ := Option.map_eq_some_iff.1 hcount
      exact (reverse.accounts_find (hreverse reverse hr) value).bind Cursor.accounts_count
    · cases hcount

end Statistics

end SecondaryIndex
