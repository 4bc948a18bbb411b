import SecondaryIndex.Proofs.Cursor.Interrupted
import SecondaryIndex.Proofs.Index.Limits

/-!
# Keys that are too long

Whatever takes a key that is longer than its layout allows fails for that reason and does nothing: an
operation of an index (`AnyIndex.operate_rejects`), and a seek of a cursor over keys. With a key that is
within the limit, no length is complained about (`AnyIndex.operate_withinLimits`).
`Database.Runs.oversized_rejected` states both, wherever a run leads in which no fault is to come. Nothing is
asked of the ambient transaction, which may be over, or of the namespaces, which need not exist.

A cursor over keys may have been called in any way before (`Index.KeyCursor`). A call changes where it stands
and nothing else, so it goes on to encode what it seeks as it did when it was opened.
-/

namespace SecondaryIndex

variable {K V : Type}

/-! ### Cursors over keys -/

/-- The cursors over the keys of an index, entry by entry or group by group: opened in any context of any database,
and called in any databases, whatever came of the calls. -/
inductive Index.KeyCursor (index : Index K V) : Cursor K → Prop
  | opened {ctx : Context} {stride : Stride} {cursor : Cursor K} {db db' : Database}
    (hrun : (index.cursorOverKeys ctx stride).run db = (.ok cursor, db')) : KeyCursor index cursor
  | called {cursor : Cursor K} (h : KeyCursor index cursor) (call : CursorCall K) (db : Database) :
    KeyCursor index (((Cursor.perform call).run.run cursor).run db).1.2

namespace Index.KeyCursor

open Cursor

variable {index : Index K V} {cursor : Cursor K} {key : K} {db : Database}

/-- Along its calls, a cursor over keys seeks the stem of a key. -/
theorem seeking (h : index.KeyCursor cursor) : cursor.seeking = .byGroup index.codec.stem := by
  induction h with
  | opened hrun => exact (opened_of_openCursor hrun).seeking
  | called h call db ih =>
    obtain ⟨place, position, hplaced⟩ := exists_placed_of_perform _ call db
    rw [hplaced]
    exact ih

theorem target_eq (h : index.KeyCursor cursor) (hopen : cursor.position ≠ .closed) (key : K) :
    cursor.target key = ((index.codec.stem key).mapError .encoding).map (·, true) := by
  unfold target
  rw [h.seeking]
  cases hposition : cursor.position with
  | closed => exact absurd hposition hopen
  | unopened | resting | pastEnd | beforeStart => rfl

/-- A seek of a key that is too long fails, and moves nothing. -/
theorem seek_rejected (h : index.KeyCursor cursor) (hopen : cursor.position ≠ .closed)
    (hlong : ¬ index.codec.Fits key) :
    ((seek key).run.run cursor).run db = ((.error (index.codec.tooLong key), cursor), db) := by
  have htarget : cursor.target key = .error (index.codec.tooLong key) := by
    rw [h.target_eq hopen, EntryCodec.stem_of_not_fits hlong]
    rfl
  rw [run_seek, htarget]

/-- A seek of a key within the limit does not complain about its length. -/
theorem seek_not_tooLong (h : index.KeyCursor cursor) (hfits : index.codec.Fits key) {err : IndexError}
    (herr : (((seek key).run.run cursor).run db).1.1 = .error err) : ¬ err.TooLong := by
  by_cases hclosed : cursor.position = .closed
  · have htarget : cursor.target key = .error (.invalidState .closed) := by
      unfold target
      rw [hclosed]
    rw [run_seek, htarget] at herr
    cases herr
    exact nofun
  · have hstem := Layout.stem_eq_ok_iff.2 ⟨hfits, rfl⟩
    obtain ⟨goal, htarget⟩ : ∃ goal, cursor.target key = .ok goal := by
      rw [h.target_eq hclosed]
      unfold EntryCodec.stem
      rw [hstem]
      exact ⟨_, rfl⟩
    rw [run_seek, htarget] at herr
    -- what can still go wrong is the health of the iterator
    cases hfails : db.engine.fails .status with
    | true =>
      rw [hfails] at herr
      cases herr
      exact nofun
    | false =>
      rw [hfails] at herr
      cases herr

end Index.KeyCursor

/-! ### Along a run -/

/-- The reverse half of a two-way index takes values of less than 2^32 bytes. -/
theorem TwoWayIndex.fitsReverse_create_iff {name : String} {forwardNs reverseNs : Namespace} {keys : Codec K}
    {values : Codec V} {options : IndexOptions} {value : V} :
    (AnyIndex.twoWay (.create name forwardNs reverseNs keys values options)).FitsReverse value ↔
      (values.encode value).length < 2 ^ 32 := by
  have hlimit : Layout.wide.keyLimit = 2 ^ 32 - 1 := by decide
  constructor
  · intro h
    have hle : (values.encode value).length ≤ Layout.wide.keyLimit := h _ rfl
    omega
  · rintro hlt reverse ⟨⟩
    show (values.encode value).length ≤ Layout.wide.keyLimit
    omega

namespace Database.Runs

variable {permits : Action → Prop} {options : StoreOptions} {db : Database}

/-- Oversized keys are rejected before anything happens. Wherever a run leads, as long as no fault is to come: an
operation that takes a key that is longer than the forward half of its index allows fails with that length, and the
database is as it was, but for the number of a transaction that the operation may have begun for itself; and a cursor
over keys that is not closed fails so to seek the key, and stays where it is. This is so in any context, also in one
whose transaction is over, and whether or not the namespaces exist. With a key within the limit, no operation and no
seek tells of a key that is too long, provided that the values are short enough that the operation must write as keys
of a reverse half, and that the codec of the values does not do so of its own accord. -/
theorem oversized_rejected (runs : Runs permits (.ofOptions options) db)
    (hhealthy : db.engine.faults = .healthy) (index : AnyIndex K V) (ctx : Context) (key : K) :
    (¬ index.forward.codec.Fits key →
      (∀ operation : IndexOperation K V, operation.key? = some key →
        IndexM.Rejects ctx db (index.operate ctx operation) (index.forward.codec.tooLong key)) ∧
      ∀ cursor, index.forward.KeyCursor cursor → cursor.position ≠ .closed →
        ((Cursor.seek key).run.run cursor).run db =
          ((.error (index.forward.codec.tooLong key), cursor), db)) ∧
    (index.forward.codec.Fits key → index.forward.codec.values.Unlimited →
      (∀ operation : IndexOperation K V, operation.key? = some key →
        (∀ value, operation.Turns index (db.engine.ledger.view ctx) value → index.FitsReverse value) →
        ∀ err, ((index.operate ctx operation).run db).1 = .error err → ¬ err.TooLong) ∧
      ∀ cursor, index.forward.KeyCursor cursor →
        ∀ err, (((Cursor.seek key).run.run cursor).run db).1.1 = .error err → ¬ err.TooLong) := by
  have hsound : db.engine.Sound := runs.sound (Engine.sound_ofOptions options)
  refine ⟨fun hlong => ⟨?_, ?_⟩, fun hfits hvalues => ⟨?_, ?_⟩⟩
  · exact fun operation hkey => AnyIndex.operate_rejects hsound hhealthy hlong hkey
  · exact fun cursor hcursor hopen => hcursor.seek_rejected hopen hlong
  · exact fun operation hkey hturns => AnyIndex.operate_withinLimits hfits hvalues hkey hturns
  · exact fun cursor hcursor err herr => hcursor.seek_not_tooLong hfits herr

/-- Additions to a two-way index without a reverse namespace, in a transaction that was committed: of a key of 256
bytes, and of one that is short. -/
theorem oversized_rejected_after_commit :
    ∃ (index : AnyIndex Bytes UInt64) (db : Database) (key : Bytes),
      Runs (fun _ => True) (.ofOptions {}) db ∧ db.engine.faults = .healthy ∧
      db.engine.ledger.pending 0 = none ∧ db.engine.store.hasNamespace "reverse" = false ∧
      ¬ index.forward.codec.Fits key ∧
      IndexM.Rejects (some 0) db (index.operate (some 0) (.call (.add key 1)))
        (index.forward.codec.tooLong key) ∧
      ∀ err, ((index.operate (some 0) (.call (.add [7] 1))).run db).1 = .error err → ¬ err.TooLong := by
  let index : AnyIndex Bytes UInt64 :=
    .twoWay (.create "pairs" "forward" "reverse" .verbatim .unsigned {})
  let key : Bytes := List.replicate 256 0
  have hlong : ¬ index.forward.codec.Fits key := by
    show ¬ (List.replicate 256 0 : Bytes).length ≤ Layout.compact.keyLimit
    decide +kernel
  have hshort : index.forward.codec.Fits [7] := by
    show ([7] : Bytes).length ≤ Layout.compact.keyLimit
    decide
  obtain ⟨db, runs, hhealthy, hover, hmissing⟩ : ∃ db, Runs (fun _ => True) (.ofOptions {}) db ∧
      db.engine.faults = .healthy ∧ db.engine.ledger.pending 0 = none ∧
      db.engine.store.hasNamespace "reverse" = false := by
    have hbegun : Runs (fun _ => True) (.ofOptions {}) _ :=
      (Runs.refl.step (.store (.createNamespace "forward")) trivial).step (.store .begin) trivial
    exact ⟨_, hbegun.step (.store (.commit 0)) trivial,
      FaultPlan.eq_healthy fun call => by cases call <;> decide +kernel, by decide +kernel, by decide +kernel⟩
  refine ⟨index, db, key, runs, hhealthy, hover, hmissing, hlong, ?_, ?_⟩
  · exact ((runs.oversized_rejected hhealthy index (some 0) key).1 hlong).1 _ rfl
  · refine ((runs.oversized_rejected hhealthy index (some 0) [7]).2 hshort
      (ItemKind.codec_unlimited .unsigned)).1 _ rfl ?_
    rintro value rfl
    exact TwoWayIndex.fitsReverse_create_iff.2 (by decide +kernel)

end Database.Runs

end SecondaryIndex
