import SecondaryIndex.Proofs.Cursor.Drain
import SecondaryIndex.Proofs.Cursor.InStep
import SecondaryIndex.Proofs.Index.Confined
import SecondaryIndex.Proofs.Twin.Engine

/-!
# Programs beside a namespace

Programs over databases are compared that are alike but for a namespace, which only the second program uses
(`Database.AlikeBut`). What is done in other namespaces is in step, and what the second program does in the
namespace goes unnoticed. Both are shown rule by rule, as programs are built, and then of what the halves of
an index do within a transaction: the forward half is in step (`tracks_insertWithin` and so on), and the
reverse half goes unnoticed (`unnoticed_insertWithin` and so on).
-/

namespace SecondaryIndex

open Program IndexM

/-- Databases that count the same, over engines that are related. -/
structure Database.Alike (R : Engine → Engine → Prop) (db db' : Database) : Prop where
  engines : R db.engine db'.engine
  metrics : db'.metrics = db.metrics

/-- Databases that are the same but for what is in a namespace. -/
abbrev Database.AlikeBut (extra : Namespace) : Database → Database → Prop :=
  Database.Alike (Engine.AlikeBut extra)

namespace Database.Alike

variable {R : Engine → Engine → Prop} {db db' : Database} {α α' β : Type} {A : α → α' → Prop}
  {extra ns : Namespace}

/-- Databases over related engines are so over engines that are related more loosely. -/
theorem mono {R' : Engine → Engine → Prop} (h : Alike R db db') (himp : ∀ e e', R e e' → R' e e') :
    Alike R' db db' := ⟨himp _ _ h.engines, h.metrics⟩

/-- What keeps engines related keeps the databases around them alike. -/
theorem mapEngine {f f' : Engine → Engine} (h : Alike R db db')
    (hf : R (f db.engine) (f' db'.engine)) : Alike R (db.mapEngine f) (db'.mapEngine f') :=
  ⟨hf, h.metrics⟩

/-- What is noticed in both databases is counted alike. -/
theorem observe (h : Alike R db db') (m : Option MetricsId) (f : Counters → Counters) :
    Alike R (db.observe m f) (db'.observe m f) := by
  cases m with
  | none => exact h
  | some id =>
    refine ⟨h.engines, ?_⟩
    show db'.metrics.insert id _ = db.metrics.insert id _
    rw [h.metrics]

/-! ### In step -/

/-- Calls that are in step on engines are so on the databases around them. -/
theorem tracks_ofEngine {x : EngineM α} {x' : EngineM α'} (h : Tracks R A x x') :
    Tracks (Alike R) A (ofEngine x) (ofEngine x') := by
  intro db db' hdb
  obtain ⟨hagree, hengines⟩ := h _ _ hdb.engines
  exact ⟨hagree.mapError _, hengines, hdb.metrics⟩

/-- Whether something can be encoded does not depend on a database. -/
theorem tracks_ofEncoding (outcome : Except EncodingError α) :
    Tracks (Alike R) Eq (ofEncoding outcome) (ofEncoding outcome) := fun _ _ hdb => ⟨.of_eq rfl, hdb⟩

theorem tracks_observe (m : Option MetricsId) (f : Counters → Counters) :
    Tracks (Alike R) Eq (IndexM.observe m f) (IndexM.observe m f) :=
  fun _ _ hdb => ⟨.ok rfl, hdb.observe m f⟩

/-- An iterator elsewhere, and what is read from it. -/
theorem tracks_withIterator (hns : ns ≠ extra) (id : TransactionId) (range : Range)
    {program : RawIterator → IndexM α}
    (h : ∀ it, Tracks (Database.AlikeBut extra) Eq (program it) (program it)) :
    Tracks (Database.AlikeBut extra) Eq (withIterator id ns range program)
      (withIterator id ns range program) := by
  refine .bind (tracks_ofEngine (Engine.AlikeBut.tracks_openIterator hns id range)) ?_
  rintro it _ rfl
  -- it is released whatever comes of the program
  have hattempt : Tracks (Database.AlikeBut extra) (Agree Eq) (attempt (program it))
      (attempt (program it)) := by
    intro db db' hdb
    rw [run_attempt, run_attempt]
    exact ⟨.ok (h it db db' hdb).1, (h it db db' hdb).2⟩
  have hreleased : Tracks (Database.AlikeBut extra) (fun _ _ => True) releaseIterator releaseIterator :=
    .modify fun _ _ hdb => hdb.mapEngine (hdb.engines.withStore hdb.engines.store.iteratorReleased)
  exact hattempt.bind fun _ _ houtcome => hreleased.bind fun _ _ _ => fun _ _ hdb => ⟨houtcome, hdb⟩

/-- To look at the keys of a range elsewhere gives the same, and the iterator is released in both databases. -/
theorem tracks_look (hns : ns ≠ extra) (id : TransactionId) (range : Range) (look : RawIterator → α) :
    Tracks (Database.AlikeBut extra) Eq
      (withIterator id ns range fun it => do
        ofEngine Engine.status
        pure (look it))
      (withIterator id ns range fun it => do
        ofEngine Engine.status
        pure (look it)) :=
  tracks_withIterator hns id range fun _ =>
    .bind (tracks_ofEngine Engine.AlikeBut.tracks_status) fun _ _ _ => .pure rfl

/-! ### Unnoticed -/

/-- What goes unnoticed by an engine goes unnoticed by a database, since no counter takes notice of it. -/
theorem unnoticed_ofEngine {y : EngineM α} (h : Unnoticed R y) : Unnoticed (Alike R) (ofEngine y) :=
  fun _ _ hdb => ⟨h _ _ hdb.engines, hdb.metrics⟩

theorem unnoticed_ofEncoding (outcome : Except EncodingError α) :
    Unnoticed (Alike R) (ofEncoding outcome) := fun _ _ hdb => hdb

end Database.Alike

namespace Index

open Database.Alike

variable {K V : Type} (index : Index K V) (id : TransactionId) (key : K) (value : V)

/-! ### Another half -/

section Elsewhere

variable {extra : Namespace}

/-- The range of a key is that of its codec, in any two databases. -/
theorem tracks_keyRange {R : Engine → Engine → Prop} :
    Tracks (Database.Alike R) Eq (index.keyRange key) (index.keyRange key) := by
  refine .bind (tracks_ofEncoding _) ?_
  rintro ⟨lower, upper⟩ _ rfl
  exact .pure rfl

variable (hns : index.ns ≠ extra)

include hns

/-- A pair that is added elsewhere is added, or refused, in both databases. -/
theorem tracks_insertWithin :
    Tracks (Database.AlikeBut extra) Eq (index.insertWithin id key value)
      (index.insertWithin id key value) := by
  refine .bind (tracks_ofEncoding _) ?_
  rintro physical _ rfl
  exact tracks_ofEngine (Engine.AlikeBut.tracks_put hns id physical emptyValue)

/-- A pair that is removed elsewhere is found in both databases or in neither. -/
theorem tracks_eraseWithin :
    Tracks (Database.AlikeBut extra) Eq (index.eraseWithin id key value)
      (index.eraseWithin id key value) := by
  refine .bind (tracks_ofEncoding _) ?_
  rintro physical _ rfl
  refine .bind (tracks_ofEngine (Engine.AlikeBut.tracks_lookup hns id physical)) ?_
  rintro (_ | _) _ rfl
  · exact .pure rfl
  · exact .bind (tracks_ofEngine (Engine.AlikeBut.tracks_delete hns id physical)) fun _ _ _ => .pure rfl

/-- The pairs of a key that are removed elsewhere are the same ones in both databases. -/
theorem tracks_eraseAllWithin :
    Tracks (Database.AlikeBut extra) Eq (index.eraseAllWithin id key)
      (index.eraseAllWithin id key) := by
  refine .bind (index.tracks_keyRange key) ?_
  rintro range _ rfl
  refine .bind (tracks_look hns id range _) ?_
  rintro doomed _ rfl
  refine .bind (.forM fun physical => ?_) fun _ _ _ => .pure rfl
  exact (tracks_ofEngine (Engine.AlikeBut.tracks_delete hns id physical)).mono fun _ _ _ => trivial

/-- An estimate elsewhere is made of the same statistics. -/
theorem tracks_estimateRange (range : Range) :
    Tracks (Database.AlikeBut extra) Eq (index.estimateRange range) (index.estimateRange range) := by
  refine .bind (tracks_ofEngine (Engine.AlikeBut.tracks_recentTally hns range)) ?_
  rintro recent _ rfl
  refine .bind (tracks_ofEngine (Engine.AlikeBut.tracks_olderSize hns range)) ?_
  rintro older _ rfl
  exact .bind (tracks_observe _ _) fun _ _ _ => .pure rfl

end Elsewhere

/-! ### The half that only one of the two has -/

/-- An index may write to its own namespace without being noticed elsewhere. -/
theorem unnoticed_insertWithin :
    Unnoticed (Database.AlikeBut index.ns) (index.insertWithin id key value) :=
  .bind (unnoticed_ofEncoding _) fun physical =>
    unnoticed_ofEngine (Engine.AlikeBut.unnoticed_put id physical emptyValue)

theorem unnoticed_eraseWithin :
    Unnoticed (Database.AlikeBut index.ns) (index.eraseWithin id key value) := by
  refine .bind (unnoticed_ofEncoding _) fun physical =>
    .bind (unnoticed_ofEngine (Engine.AlikeBut.unnoticed_lookup id physical)) fun slot => ?_
  cases slot with
  | none => exact .pure _
  | some bytes =>
    exact .bind (unnoticed_ofEngine (Engine.AlikeBut.unnoticed_delete id physical)) fun _ => .pure _

end Index

/-- The removal of counterparts is not noticed outside the reverse half, wherever it stops. -/
theorem TwoWayIndex.unnoticed_eraseReverseWithin {K V : Type} (index : TwoWayIndex K V)
    (id : TransactionId) (key : K) (doomed : List Bytes) :
    Unnoticed (Database.AlikeBut index.reverse.ns) (index.eraseReverseWithin id key doomed) :=
  .forM fun _ => .bind (Database.Alike.unnoticed_ofEncoding _) fun value =>
    .bind (index.reverse.unnoticed_eraseWithin id value key) fun _ => .pure _

/-! ### Cursors -/

namespace Cursor

variable {α : Type} {extra : Namespace} {db db' : Database} (cursor : Cursor α)

/-- A cursor that is released is released in both databases, and counted by the same counters. -/
theorem alike_release (h : Database.AlikeBut extra db db') :
    Database.AlikeBut extra (cursor.release db) (cursor.release db') := by
  unfold release
  split
  · exact h
  · exact (h.mapEngine (h.engines.withStore h.engines.store.iteratorReleased)).observe _ _

/-- Without faults a call is answered by the cursor alone. -/
theorem alike_perform (h : Database.AlikeBut extra db db') (call : CursorCall α) :
    (((perform call).run.run cursor).run db').1 = (((perform call).run.run cursor).run db).1 ∧
      Database.AlikeBut extra (((perform call).run.run cursor).run db).2
        (((perform call).run.run cursor).run db').2 := by
  constructor
  · rw [run_perform cursor db (Engine.fails_of_healthy _ _ h.engines.healthy),
      run_perform cursor db' (Engine.fails_of_healthy _ _ h.engines.healthy')]
  · by_cases hclose : call = .close
    · subst hclose
      exact cursor.alike_release h
    · rw [perform_leaves cursor db h.engines.healthy hclose,
        perform_leaves cursor db' h.engines.healthy' hclose]
      exact h

/-- Without faults a cursor takes the same steps in both databases. -/
theorem inStep_alikeBut (extra : Namespace) : InStep (α := α) Eq (Database.AlikeBut extra) where
  keys h := by rw [h]
  next {cursor _ db db'} h hdb := by
    subst h
    rw [run_next_of_healthy hdb.engines.healthy, run_next_of_healthy hdb.engines.healthy']
    exact ⟨rfl, rfl, hdb⟩
  closed h := by rw [h]
  released {cursor _ _ _} h hdb := by
    subst h
    exact cursor.alike_release hdb
  scanned _ h hdb := by
    subst h
    exact hdb.observe _ _

end Cursor

/-! ### Transactions that are not open -/

/-- A program fails in a transaction that is not open. -/
def Refuses {α : Type} (id : TransactionId) (program : IndexM α) : Prop :=
  ∀ db : Database, db.engine.ledger.pending id = none → ∃ err, (program.run db).1 = .error err

namespace Refuses

variable {α β : Type} {id : TransactionId}

/-- A program that refuses a finished transaction was not given one if it succeeds. -/
theorem usable_of_ok {program : IndexM α} (h : Refuses id program) {db : Database} {a : α}
    (hok : (program.run db).1 = .ok a) : db.engine.ledger.Usable (some id) := by
  by_contra hclosed
  obtain ⟨err, herr⟩ := h db (Option.not_isSome_iff_eq_none.1 hclosed)
  rw [hok] at herr
  cases herr

/-- A program that refuses a finished transaction at its beginning never comes to the rest. -/
theorem bind {program : IndexM α} (h : Refuses id program) (rest : α → IndexM β) :
    Refuses id (program >>= rest) := by
  intro db hclosed
  obtain ⟨err, herr⟩ := h db hclosed
  have hrun : program.run db = (.error err, (program.run db).2) := Prod.ext herr rfl
  exact ⟨err, by rw [run_bind_error hrun]⟩

/-- What is worked out first may fail as well. -/
theorem after {outcome : Except IndexError α} {first : IndexM α} {rest : α → IndexM β}
    (hfirst : ∀ db, first.run db = (outcome, db)) (h : ∀ a, Refuses id (rest a)) :
    Refuses id (first >>= rest) := by
  intro db hclosed
  cases outcome with
  | error err => exact ⟨err, by rw [run_bind_error (hfirst db)]⟩
  | ok a =>
    rw [run_bind_ok (hfirst db)]
    exact h a db hclosed

/-- A call refuses a transaction that is not open. -/
theorem ofEngine {program : EngineM α}
    (h : ∀ e : Engine, e.ledger.pending id = none → ∃ err, (program.run e).1 = .error err) :
    Refuses id (IndexM.ofEngine program) := by
  intro db hclosed
  obtain ⟨err, herr⟩ := h db.engine hclosed
  exact ⟨.storage err, by rw [run_ofEngine, herr]; rfl⟩

/-- A write refuses a transaction that is not open. -/
theorem put (ns : Namespace) (key value : Bytes) :
    Refuses id (IndexM.ofEngine (Engine.put id ns key value)) := by
  refine ofEngine fun e hclosed => ?_
  rw [Engine.run_put, Engine.writtenTo_eq_of_closed hclosed]
  split
  · exact ⟨_, rfl⟩
  · exact ⟨_, rfl⟩

/-- A look-up refuses a transaction that is not open. -/
theorem lookup (ns : Namespace) (key : Bytes) :
    Refuses id (IndexM.ofEngine (Engine.lookup id ns key)) := by
  refine ofEngine fun e hclosed => ?_
  rw [Engine.run_lookup, Engine.recordOf_eq_of_closed hclosed]
  split
  · exact ⟨_, rfl⟩
  · exact ⟨_, rfl⟩

/-- An iterator is not opened in a transaction that is not open. -/
theorem openIterator (ns : Namespace) (range : Range) :
    Refuses id (IndexM.ofEngine (Engine.openIterator id ns range)) := by
  refine ofEngine fun e hclosed => ?_
  rw [Engine.run_openIterator, Engine.keysOf_eq_of_closed hclosed]
  split
  · exact ⟨_, rfl⟩
  · exact ⟨_, rfl⟩

end Refuses

namespace Index

variable {K V : Type} (index : Index K V) (id : TransactionId) (key : K) (value : V)

/-- Nothing is added in a finished transaction, not even something that could not be encoded. -/
theorem insertWithin_refuses : Refuses id (index.insertWithin id key value) :=
  .after (run_ofEncoding _) fun physical => .put index.ns physical emptyValue

theorem eraseWithin_refuses : Refuses id (index.eraseWithin id key value) :=
  .after (run_ofEncoding _) fun physical => .bind (.lookup index.ns physical) _

theorem eraseAllWithin_refuses : Refuses id (index.eraseAllWithin id key) :=
  .after (run_keyRange index key) fun range =>
    .bind (.bind (.openIterator index.ns range) _) _

end Index

end SecondaryIndex
