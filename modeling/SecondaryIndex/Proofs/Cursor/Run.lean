import SecondaryIndex.Cursor.Drain
import SecondaryIndex.Proofs.Index.Context

/-!
# Running cursors

What the programs of a cursor do when they are run, and what they leave alone. A step forward moves as
`Cursor.forward` says and lands where that leads (`run_arrive`). Whatever uses a cursor up takes one
step after the other (`drain`, `CursorItems.next`) and releases the cursor once. No transaction notices any of it,
however the steps turn out (`arrive_idles`, `collect_idle`, `items_idles`).
-/

namespace SecondaryIndex

namespace Cursor

open Program

variable {α β γ : Type} (cursor : Cursor α) (db : Database)

/-! ### Programs of a cursor -/

/-- The rest of a program starts with the cursor that its first part has left. -/
theorem run_bind (x : CursorM α β) (f : β → CursorM α γ) :
    ((x >>= f).run.run cursor).run db =
      match (x.run.run cursor).run db with
      | ((.ok b, cursor'), db') => ((f b).run.run cursor').run db'
      | ((.error err, cursor'), db') => ((.error err, cursor'), db') := by
  show StateT.bind (x.run.run cursor) (fun r => (ExceptT.bindCont f r.1).run r.2) db = _
  unfold StateT.bind ExceptT.run StateT.run
  change (match x cursor db with | (r, db') => ((ExceptT.bindCont f r.1) r.2) db') = _
  rcases x cursor db with ⟨⟨_ | b, cursor'⟩, db'⟩ <;> rfl

/-- A result that is mapped leaves the same cursor. -/
theorem run_map (f : β → γ) (x : CursorM α β) :
    ((f <$> x).run.run cursor).run db =
      ((((x.run.run cursor).run db).1.1.map f, ((x.run.run cursor).run db).1.2),
        ((x.run.run cursor).run db).2) := by
  rw [map_eq_pure_bind, run_bind]
  rcases (x.run.run cursor).run db with ⟨⟨_ | b, cursor'⟩, db'⟩ <;> rfl

theorem run_read (physical : Bytes) :
    ((read (α := α) physical).run.run cursor).run db =
      (((cursor.decode physical).mapError .encoding, cursor), db) := rfl

/-! ### Steps -/

/-- Where a step lands that has moved the iterator. -/
def landed (edge : Position) (it : RawIterator) : Except IndexError (Option α) × Cursor α :=
  match it.key? with
  | some physical =>
    (((cursor.decode physical).mapError .encoding).map some,
      { cursor with iterator := it, position := .resting })
  | none => (.ok none, { cursor with iterator := it, position := edge })

/-- The health of the iterator is drawn from the fates of the engine. -/
theorem run_status :
    ((ofIndex (α := α) (IndexM.ofEngine Engine.status)).run.run cursor).run db =
      (((if db.engine.fails .status then .error (.storage (.injected .status)) else .ok ⟨⟩ :
        Except IndexError Unit), cursor), { db with engine := db.engine.drawn .status }) := by
  show ((((IndexM.ofEngine Engine.status).run db).1, _),
    ((IndexM.ofEngine Engine.status).run db).2) = _
  rw [IndexM.run_ofEngine, Engine.run_status]
  split <;> rfl

/-- A step that has a place for its iterator asks for its health once it is there. -/
theorem run_arrive_to (it : RawIterator) (edge : Position) :
    ((arrive (α := α) (.ok (.to it)) edge).run.run cursor).run db =
      (if db.engine.fails .status then
        (.error (.storage (.injected .status)), { cursor with iterator := it })
      else cursor.landed edge it, { db with engine := db.engine.drawn .status }) := by
  show ((walk it >>= fun _ => ofIndex (IndexM.ofEngine Engine.status) >>= fun _ => _ :
    CursorM α (Option α)).run.run cursor).run db = _
  rw [run_bind]
  show ((ofIndex (IndexM.ofEngine Engine.status) >>= fun _ => _ :
    CursorM α (Option α)).run.run { cursor with iterator := it }).run db = _
  rw [run_bind, run_status]
  cases db.engine.fails .status with
  -- the iterator has moved all the same
  | true => rfl
  | false =>
    unfold landed
    cases it.key? with
    | none => rfl
    | some physical =>
      show ((stand .resting >>= fun _ => (some <$> read physical) :
        CursorM α (Option α)).run.run _).run _ = _
      rw [run_bind]
      show ((some <$> read physical : CursorM α (Option α)).run.run
        { cursor with iterator := it, position := .resting }).run _ = _
      rw [run_map, run_read]
      rfl

/-- A step that fails at once, or is at the edge, has not asked for anything. -/
theorem run_arrive (move : Except IndexError Move) (edge : Position) :
    ((arrive (α := α) move edge).run.run cursor).run db =
      match move with
      | .error err => ((.error err, cursor), db)
      | .ok .edge => ((.ok none, { cursor with position := edge }), db)
      | .ok (.to it) =>
        (if db.engine.fails .status then
          (.error (.storage (.injected .status)), { cursor with iterator := it })
        else cursor.landed edge it, { db with engine := db.engine.drawn .status }) := by
  rcases move with err | _ | it
  · rfl
  · rfl
  · exact run_arrive_to cursor db it edge

/-- A cursor that is closed has nothing left to release. -/
theorem release_closed : ({ cursor with position := .closed } : Cursor α).release db = db := rfl

/-! ### Draining -/

/-- The items of at most `steps` steps up to the end, and the error that stopped them early. -/
def drain : (steps : Nat) → StateT (Cursor α) (StateM Database) (List α × Option IndexError)
  | 0 => pure ([], none)
  | steps + 1 => do
    match ← ExceptT.run next with
    | .error e => pure ([], some e)
    | .ok none => pure ([], none)
    | .ok (some item) => do
      let (items, error?) ← drain steps
      pure (item :: items, error?)

/-- Draining keeps errors as values, so its parts are run one after the other in any case. -/
theorem run_drain_bind {δ : Type} (x : StateT (Cursor α) (StateM Database) β)
    (f : β → StateT (Cursor α) (StateM Database) δ) :
    ((x >>= f).run cursor).run db =
      ((f ((x.run cursor).run db).1.1).run ((x.run cursor).run db).1.2).run
        ((x.run cursor).run db).2 := rfl

/-- A drain is a step and the drain of the rest. -/
theorem run_drain_succ (steps : Nat) :
    ((drain (α := α) (steps + 1)).run cursor).run db =
      match (next.run.run cursor).run db with
      | ((.error err, cursor'), db') => ((([], some err), cursor'), db')
      | ((.ok none, cursor'), db') => ((([], none), cursor'), db')
      | ((.ok (some item), cursor'), db') =>
        let r := ((drain steps).run cursor').run db'
        (((item :: r.1.1.1, r.1.1.2), r.1.2), r.2) := by
  rw [drain, run_drain_bind]
  rcases (next.run.run cursor).run db with ⟨⟨_ | _ | b, cursor'⟩, db'⟩ <;> rfl

/-- What is told of a drain: its items, or the error that stopped it. -/
def outcomeOf (r : List α × Option IndexError) : Except IndexError (List α) :=
  match r.2 with
  | none => .ok r.1
  | some err => .error err

theorem observe_eq (id? : Option MetricsId) (f : Counters → Counters) :
    db.observe id? f = { db with metrics := (db.observe id? f).metrics } := by
  cases id? <;> rfl

/-- The loop of a drain accumulates its items, and an error leaves it. -/
theorem run_fold (f : β → α → β) (steps : Nat) (total : β) :
    ((fold f steps total).run.run cursor).run db =
      let r := ((drain steps).run cursor).run db
      (((outcomeOf r.1.1).map (List.foldl f total), r.1.2), r.2) := by
  induction steps generalizing cursor db total with
  | zero => rfl
  | succ steps ih =>
    rw [fold, run_bind, run_drain_succ]
    rcases (next.run.run cursor).run db with ⟨⟨err | _ | item, cursor'⟩, db'⟩
    · rfl
    · rfl
    · dsimp only
      rw [ih]
      rcases ((drain steps).run cursor').run db' with ⟨⟨⟨items, _ | err⟩, cursor''⟩, db''⟩ <;> rfl

/-- What is left of a cursor and a database when a cursor was drained: the counters are told of a drain that
reached the end, and the cursor is released. -/
def released (r : ((List α × Option IndexError) × Cursor α) × Database) : Database :=
  r.1.2.release
    (if r.1.1.2.isNone then r.2.observe r.1.2.metrics (Counters.countScan r.1.1.1.length) else r.2)

/-- A cursor that is used up has been drained, and it was released once: a drain that reached the end has closed the
cursor, so that to drop it releases nothing more, and one that was stopped has not. -/
theorem run_consume_exhaust (f : β → α → β) (start : β) (size : β → Nat)
    (hsize : ∀ items, size (List.foldl f start items) = items.length) :
    (cursor.consume (exhaust f start size)).run db =
      let r := ((drain (cursor.iterator.keys.length + 1)).run cursor).run db
      ((outcomeOf r.1.1).map (List.foldl f start), released r) := by
  have hconsume : (cursor.consume (exhaust f start size)).run db =
      let r := ((exhaust f start size).run.run cursor).run db
      (r.1.1, r.1.2.release r.2) := rfl
  have hexhaust : ((exhaust f start size).run.run cursor).run db =
      match ((fold f (cursor.iterator.keys.length + 1) start).run.run cursor).run db with
      | ((.ok total, cursor'), db') => ((.ok total, { cursor' with position := .closed }),
          cursor'.release (db'.observe cursor'.metrics (Counters.countScan (size total))))
      | ((.error err, cursor'), db') => ((.error err, cursor'), db') := by
    show ((fold f (cursor.iterator.keys.length + 1) start >>= fun total => _ : CursorM α β).run.run cursor).run db = _
    rw [run_bind]
    rfl
  rw [hconsume, hexhaust, run_fold]
  rcases ((drain (cursor.iterator.keys.length + 1)).run cursor).run db with
    ⟨⟨⟨items, _ | err⟩, cursor'⟩, db'⟩
  · show (_, ({ cursor' with position := .closed } : Cursor α).release _) = _
    rw [release_closed]
    dsimp only [outcomeOf, Except.map, released, Option.isNone_none, if_true]
    rw [hsize, if_pos rfl]
  · rfl

/-- To collect the items is to drain the cursor and to release it. -/
theorem run_collect :
    cursor.collect.run db =
      let r := ((drain (cursor.iterator.keys.length + 1)).run cursor).run db
      (outcomeOf r.1.1, released r) := by
  have hpush (items : List α) : (List.foldl Array.push #[] items).toList = items := by simp
  unfold collect
  rw [Program.run_map, run_consume_exhaust _ _ _ _ _ fun items => by
    rw [← Array.length_toList, hpush]]
  dsimp only
  generalize ((drain (cursor.iterator.keys.length + 1)).run cursor).run db = r
  obtain ⟨⟨⟨items, _ | err⟩, cursor'⟩, db'⟩ := r
  · exact congrArg (fun items => (Except.ok items, _)) (hpush items)
  · rfl

/-- To count the remaining items is the same as to collect them and to take the length. -/
theorem count_eq : cursor.count = List.length <$> cursor.collect := by
  have hlength (items : List α) (n : Nat) : List.foldl (fun n _ => n + 1) n items = n + items.length := by
    induction items generalizing n with
    | nil => rfl
    | cons item items ih => rw [List.foldl_cons, ih, List.length_cons, Nat.add_right_comm, Nat.add_assoc]
  refine funext fun db => ?_
  show cursor.count.run db = (List.length <$> cursor.collect).run db
  unfold count
  rw [Program.run_map, run_collect, run_consume_exhaust _ _ _ _ _ fun items => by
    rw [id, hlength, Nat.zero_add]]
  dsimp only
  generalize ((drain (cursor.iterator.keys.length + 1)).run cursor).run db = r
  obtain ⟨⟨⟨items, _ | err⟩, cursor'⟩, db'⟩ := r
  · exact congrArg (fun n => (Except.ok n, _)) ((hlength items 0).trans (Nat.zero_add _))
  · rfl

/-! ### Iterating -/

/-- A step of an iteration that is not done is one of its cursor, which is closed unless there was an item. -/
theorem run_items_next (iteration : CursorItems α) :
    (CursorItems.next.run iteration).run db =
      if iteration.done then ((none, iteration), db)
      else
        let r := (next.run.run iteration.cursor).run db
        match r.1.1 with
        | .ok (some item) => ((some (.ok item), ⟨r.1.2, false⟩), r.2)
        | .ok none => ((none, ⟨{ r.1.2 with position := .closed }, true⟩), r.1.2.release r.2)
        | .error err => ((some (.error err), ⟨{ r.1.2 with position := .closed }, true⟩), r.1.2.release r.2) := by
  obtain ⟨cursor, _ | _⟩ := iteration
  · have hstep : (CursorItems.next.run ⟨cursor, false⟩).run db =
        let r := (next.run.run cursor).run db
        ((match r.1.1 with
          | .ok (some item) => pure (some (.ok item))
          | .ok none => do
            CursorItems.finish
            pure none
          | .error err => do
            CursorItems.finish
            pure (some (.error err)) : CursorItemsM α _).run ⟨r.1.2, false⟩).run r.2 := rfl
    rw [hstep]
    rcases (next.run.run cursor).run db with ⟨⟨err | _ | item, cursor'⟩, db'⟩ <;> rfl
  · rfl

/-- To collect what an iteration gives is to take a step, and to go on if it gave something. -/
theorem run_items_collect_succ (iteration : CursorItems α) (steps : Nat) :
    ((CursorItems.collect (steps + 1)).run iteration).run db =
      let r := (CursorItems.next.run iteration).run db
      match r.1.1 with
      | none => (([], r.1.2), r.2)
      | some outcome =>
        let rest := ((CursorItems.collect steps).run r.1.2).run r.2
        ((outcome :: rest.1.1, rest.1.2), rest.2) := by
  have hstep : ((CursorItems.collect (steps + 1)).run iteration).run db =
      let r := (CursorItems.next.run iteration).run db
      ((match r.1.1 with
        | none => pure []
        | some outcome => do pure (outcome :: (← CursorItems.collect steps)) : CursorItemsM α _).run
          r.1.2).run r.2 := rfl
  rw [hstep]
  rcases (CursorItems.next.run iteration).run db with ⟨⟨_ | outcome, iteration'⟩, db'⟩ <;> rfl

/-- To iterate to the end is to take steps up to the end and one beyond it, and to drop the cursor then. -/
theorem run_items :
    cursor.items.run db =
      let r := ((CursorItems.collect (cursor.iterator.keys.length + 2)).run { cursor }).run db
      let last := (CursorItems.next.run r.1.2).run r.2
      ((r.1.1, last.1.1.isNone), last.1.2.cursor.release last.2) := rfl

/-! ### What is left alone -/

/-- A step asks for the health of the iterator at most. -/
theorem arrive_idles (move : Except IndexError Move) (edge : Position) :
    db.engine.Idles (((arrive move edge).run.run cursor).run db).2.engine := by
  rw [run_arrive]
  rcases move with err | _ | it
  · exact .refl _
  · exact .refl _
  · exact Engine.idles_drawn _ _

theorem release_idles : db.engine.Idles (cursor.release db).engine := by
  unfold release
  split
  · exact .refl _
  · rw [observe_eq]
    exact Engine.idles_releaseIterator _

/-- What every step of a cursor, its release and a count of a scan keep is kept by collecting its items. -/
theorem collect_keeps (inv : Database → Prop) (hdb : inv db)
    (hnext : ∀ (cursor : Cursor α) db, inv db → inv ((next.run.run cursor).run db).2)
    (hrelease : ∀ (cursor : Cursor α) db, inv db → inv (cursor.release db))
    (hscan : ∀ db id? n, inv db → inv (db.observe id? (Counters.countScan n))) :
    inv (cursor.collect.run db).2 := by
  have hdrain (steps : Nat) : inv (((drain steps).run cursor).run db).2 := by
    -- by induction on the steps, each from the cursor and the database that the last one left
    induction steps generalizing cursor db with
    | zero => exact hdb
    | succ steps ih =>
      have hstep := hnext cursor db hdb
      rw [run_drain_succ]
      rcases hrun : (next.run.run cursor).run db with ⟨⟨_ | _ | item, cursor'⟩, db'⟩ <;> rw [hrun] at hstep
      · exact hstep
      · exact hstep
      · exact ih cursor' db' hstep
  rw [run_collect]
  refine hrelease _ _ ?_
  split
  · exact hscan _ _ _ (hdrain _)
  · exact hdrain _

/-- What every step of a cursor and its release keep is kept by a step of an iteration. -/
theorem items_next_keeps (inv : Database → Prop) (iteration : CursorItems α) (hdb : inv db)
    (hnext : ∀ (cursor : Cursor α) db, inv db → inv ((next.run.run cursor).run db).2)
    (hrelease : ∀ (cursor : Cursor α) db, inv db → inv (cursor.release db)) :
    inv ((CursorItems.next.run iteration).run db).2 := by
  rw [run_items_next]
  split
  · exact hdb
  · have hnext' := hnext iteration.cursor db hdb
    rcases hrun : (next.run.run iteration.cursor).run db with ⟨⟨_ | _ | item, cursor'⟩, db'⟩ <;>
      rw [hrun] at hnext'
    · exact hrelease _ _ hnext'
    · exact hrelease _ _ hnext'
    · exact hnext'

/-- What every step and the release of a cursor keep is kept by a whole iteration. -/
theorem items_keeps (inv : Database → Prop) (hdb : inv db)
    (hnext : ∀ (cursor : Cursor α) db, inv db → inv ((next.run.run cursor).run db).2)
    (hrelease : ∀ (cursor : Cursor α) db, inv db → inv (cursor.release db)) :
    inv (cursor.items.run db).2 := by
  have hstep (iteration : CursorItems α) (db : Database) (hdb : inv db) :=
    items_next_keeps db inv iteration hdb hnext hrelease
  have hcollect (steps : Nat) (iteration : CursorItems α) (db : Database) (hdb : inv db) :
      inv (((CursorItems.collect steps).run iteration).run db).2 := by
    induction steps generalizing iteration db with
    | zero => exact hdb
    | succ steps ih =>
      have hstep' := hstep iteration db hdb
      rw [run_items_collect_succ]
      rcases hrun : (CursorItems.next.run iteration).run db with ⟨⟨_ | outcome, iteration'⟩, db'⟩ <;>
        rw [hrun] at hstep'
      · exact hstep'
      · exact ih iteration' db' hstep'
  rw [run_items]
  exact hrelease _ _ (hstep _ _ (hcollect _ _ _ hdb))

theorem next_idles : db.engine.Idles ((next.run.run cursor).run db).2.engine :=
  arrive_idles cursor db cursor.forward .pastEnd

theorem collect_idle : IndexM.Idle cursor.collect := fun db =>
  collect_keeps cursor db (fun db' => db.engine.Idles db'.engine) (.refl _)
    (fun cursor db' h => h.trans (next_idles cursor db')) (fun cursor db' h => h.trans (release_idles cursor db'))
    fun db' _ _ h => by rwa [observe_eq]

theorem items_next_idles (iteration : CursorItems α) :
    db.engine.Idles ((CursorItems.next.run iteration).run db).2.engine :=
  items_next_keeps db (fun db' => db.engine.Idles db'.engine) iteration (.refl _)
    (fun cursor db' h => h.trans (next_idles cursor db')) fun cursor db' h => h.trans (release_idles cursor db')

theorem items_idles : db.engine.Idles (cursor.items.run db).2.engine :=
  items_keeps cursor db (fun db' => db.engine.Idles db'.engine) (.refl _)
    (fun cursor db' h => h.trans (next_idles cursor db')) fun cursor db' h => h.trans (release_idles cursor db')

end Cursor

end SecondaryIndex
