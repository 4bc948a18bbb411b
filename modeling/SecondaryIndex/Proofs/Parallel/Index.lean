import SecondaryIndex.Index.AnyIndex
import SecondaryIndex.Proofs.Index.Program
import SecondaryIndex.Proofs.Parallel.Engine

/-!
# Index operations side by side

Operations on an index are in step if they are run in the same context, up to the numbers of
transactions, on the same index, up to its counters. First come the rules for programs over a
database, which end in one for operations in a context (`tracks_transactionally`); then each operation
is in step by the rules for what it is built from.
-/

namespace SecondaryIndex

/-- An index that counts into other counters, or into none. -/
def Index.counting {K V : Type} (index : Index K V) (m : Option MetricsId) : Index K V :=
  { index with options := { index.options with metrics := m } }

namespace Comparison

open Program IndexM

variable (c : Comparison) {α α' β K V : Type} {A : α → α' → Prop}

/-- Databases that count as alike. -/
structure Databases (db db' : Database) : Prop where
  engines : c.engines db.engine db'.engine
  metrics : c.counters → db'.metrics = db.metrics

/-- Something is counted in both runs or in neither, and into the same counters if these are
compared. -/
structure Counts (m m' : Option MetricsId) : Prop where
  isSome : m'.isSome = m.isSome
  eq : c.counters → m' = m

theorem Counts.refl (m : Option MetricsId) : c.Counts m m := ⟨rfl, fun _ => rfl⟩

/-! ### Programs over a database -/

/-- What is in step on the engines is so on the databases. -/
theorem tracks_ofEngine {x : EngineM α} {x' : EngineM α'} (h : Tracks c.engines A x x') :
    Tracks c.Databases A (ofEngine x) (ofEngine x') := by
  intro db db' hdb
  obtain ⟨hagree, hengines⟩ := h _ _ hdb.engines
  exact ⟨hagree.mapError _, hengines, hdb.metrics⟩

/-- The failure of an index that is asked for too large a size. -/
abbrev IndexStops : IndexError → Prop := c.Stops (· = .storage .overflow)

theorem tracksUnless_ofEngine {x : EngineM α} {x' : EngineM α'}
    (h : TracksUnless c.EngineStops c.engines A x x') :
    TracksUnless c.IndexStops c.Databases A (ofEngine x) (ofEngine x') := by
  have hstops (err : EngineError) (h : c.EngineStops err) : c.IndexStops (.storage err) :=
    ⟨h.1, congrArg IndexError.storage h.2⟩
  intro db db' hdb hgo hgo'
  obtain ⟨hagree, hengines⟩ := h _ _ hdb.engines (fun hfails => hgo (hfails.mapError hstops))
    fun hfails => hgo' (hfails.mapError hstops)
  exact ⟨hagree.mapError _, hengines, hdb.metrics⟩

theorem tracks_ofEncoding (outcome : Except EncodingError α) :
    Tracks c.Databases Eq (ofEncoding outcome) (ofEncoding outcome) :=
  fun _ _ hdb => ⟨.of_eq rfl, hdb⟩

theorem tracks_ofOutcome {outcome : Except IndexError α} {outcome' : Except IndexError α'}
    (h : Agree A outcome outcome') :
    Tracks c.Databases A (ofOutcome outcome) (ofOutcome outcome') :=
  fun _ _ hdb => ⟨h, hdb⟩

/-- A failure that is caught is caught on both sides. -/
theorem tracks_attempt {x : IndexM α} {x' : IndexM α'} (h : Tracks c.Databases A x x') :
    Tracks c.Databases (Agree A) (attempt x) (attempt x') := by
  intro db db' hdb
  rw [run_attempt, run_attempt]
  exact ⟨.ok (h db db' hdb).1, (h db db' hdb).2⟩

/-- Databases stay alike if only their engines are changed, and these stay alike. -/
theorem Databases.mapEngine {c : Comparison} {db db' : Database} (hdb : c.Databases db db')
    {f f' : Engine → Engine} (h : c.engines (f db.engine) (f' db'.engine)) :
    c.Databases (db.mapEngine f) (db'.mapEngine f') := ⟨h, hdb.metrics⟩

/-- An event is counted by either index under the metrics that it has, or not at all. -/
theorem Databases.observe {c : Comparison} {db db' : Database} (hdb : c.Databases db db')
    {m m' : Option MetricsId} (hm : c.Counts m m') (f : Counters → Counters) :
    c.Databases (db.observe m f) (db'.observe m' f) := by
  refine ⟨?_, fun hcounters => ?_⟩
  · cases m <;> cases m' <;> exact hdb.engines
  · rw [hm.eq hcounters]
    cases m with
    | none => exact hdb.metrics hcounters
    | some id =>
      show db'.metrics.insert id _ = db.metrics.insert id _
      rw [hdb.metrics hcounters]

/-- An iterator is given back on both sides. -/
theorem tracks_releaseIterator :
    Tracks c.Databases (fun _ _ => True) releaseIterator releaseIterator :=
  .modify fun _ _ hdb => hdb.mapEngine (c.released hdb.engines)

/-- To count an event gives no result that could differ. -/
theorem tracks_observe {m m' : Option MetricsId} (hm : c.Counts m m') (f : Counters → Counters) :
    Tracks c.Databases (fun _ _ => True) (IndexM.observe m f) (IndexM.observe m' f) :=
  .modify fun _ _ hdb => hdb.observe hm f

theorem tracks_status : Tracks c.Databases Eq (ofEngine Engine.status) (ofEngine Engine.status) :=
  c.tracks_ofEngine c.tracks_engine_status

/-- An iterator is open for as long as the program that uses it runs, on both sides. -/
theorem tracks_withIterator (id : TransactionId) (ns : Namespace) (range : Range)
    {program program' : RawIterator → IndexM α}
    (h : ∀ it, Tracks c.Databases Eq (program it) (program' it)) :
    Tracks c.Databases Eq (withIterator id ns range program)
      (withIterator (c.rename id) ns range program') := by
  refine .bind (c.tracks_ofEngine (c.tracks_openIterator id ns range)) ?_
  rintro it _ rfl
  refine .bind (c.tracks_attempt (h it)) fun outcome outcome' houtcome => ?_
  exact .bind c.tracks_releaseIterator fun _ _ _ => c.tracks_ofOutcome houtcome

section Contexts

variable {operation : TransactionId → IndexM α} {operation' : TransactionId → IndexM α'}
  {undo : α → IndexM Unit} {undo' : α' → IndexM Unit}

/-- A transaction that was opened for one call is ended in the same way on both sides, and what the call opened is
undone on both. -/
theorem tracks_settle (id : TransactionId) {outcome : Except IndexError α}
    {outcome' : Except IndexError α'} (h : Agree A outcome outcome')
    (hundo : ∀ a a', A a a' → Tracks c.Databases (fun _ _ => True) (undo a) (undo' a')) :
    Tracks c.Databases A (settle id outcome undo) (settle (c.rename id) outcome' undo') := by
  cases h with
  | error err =>
    refine .bind (c.tracks_attempt (c.tracks_ofEngine (c.tracks_rollback id))) fun _ _ _ => ?_
    exact .throw err
  | @ok a a' related =>
    refine .bind (c.tracks_attempt (c.tracks_ofEngine (c.tracks_commit id))) ?_
    rintro _ _ (_ | err)
    · exact .pure related
    · exact .bind (hundo a a' related) fun _ _ _ => .throw err

/-- An operation in a context is in step if it is within every transaction. -/
theorem tracks_transactionally (ctx : Context)
    (h : ∀ id, Tracks c.Databases A (operation id) (operation' (c.rename id)))
    (hundo : ∀ a a', A a a' → Tracks c.Databases (fun _ _ => True) (undo a) (undo' a')) :
    Tracks c.Databases A (transactionally ctx operation undo)
      (transactionally (ctx.map c.rename) operation' undo') := by
  cases ctx with
  | some id => exact h id
  | none =>
    -- the transaction that begins here goes by two numbers until it is dropped
    refine .bind (c.tracks_ofEngine c.tracks_begin) ?_
    rintro id _ rfl
    refine .bind (c.tracks_attempt (h id)) fun outcome outcome' houtcome => ?_
    refine .bind (c.tracks_attempt (c.tracks_settle id houtcome hundo)) fun result result' hresult => ?_
    exact .bind (.modify fun _ _ hdb => hdb.mapEngine (c.discarded hdb.engines id)) fun _ _ _ =>
      c.tracks_ofOutcome hresult

/-- An operation is in step in corresponding contexts if it is so in corresponding transactions. -/
theorem tracks_within (ctx : Context)
    (h : ∀ id, Tracks c.Databases A (operation id) (operation' (c.rename id))) :
    Tracks c.Databases A (within ctx operation) (within (ctx.map c.rename) operation') :=
  c.tracks_transactionally ctx h fun _ _ _ => .pure trivial

end Contexts

/-! ### One index -/

section Index

variable (index : Index K V) {m : Option MetricsId} (hm : c.Counts index.options.metrics m)
  (id : TransactionId) (ctx : Context) (key : K) (value : V)

/-- The range of a key does not depend on the metrics, nor on the state. -/
theorem tracks_keyRange :
    Tracks c.Databases Eq (index.keyRange key) ((index.counting m).keyRange key) := by
  refine .bind (c.tracks_ofEncoding _) ?_
  rintro ⟨lower, upper⟩ _ rfl
  exact .pure rfl

/-- A record is put on both sides, or refused with the same error. -/
theorem tracks_insertWithin :
    Tracks c.Databases Eq (index.insertWithin id key value)
      ((index.counting m).insertWithin (c.rename id) key value) := by
  refine .bind (c.tracks_ofEncoding _) ?_
  rintro physical _ rfl
  exact c.tracks_ofEngine (c.tracks_put id index.ns physical Index.emptyValue)

/-- A record is looked up and, if it is there, deleted on both sides. -/
theorem tracks_eraseWithin :
    Tracks c.Databases Eq (index.eraseWithin id key value)
      ((index.counting m).eraseWithin (c.rename id) key value) := by
  refine .bind (c.tracks_ofEncoding _) ?_
  rintro physical _ rfl
  refine .bind (c.tracks_ofEngine (c.tracks_lookup id index.ns physical)) ?_
  rintro (_ | _) _ rfl
  · exact .pure rfl
  · exact .bind (c.tracks_ofEngine (c.tracks_delete id index.ns physical)) fun _ _ _ => .pure rfl

/-- The keys that are collected are the same, and so are the deletions that follow. -/
theorem tracks_eraseAllWithin :
    Tracks c.Databases Eq (index.eraseAllWithin id key)
      ((index.counting m).eraseAllWithin (c.rename id) key) := by
  rw [Index.eraseAllWithin_eq, Index.eraseAllWithin_eq]
  refine .bind (c.tracks_keyRange index key) ?_
  rintro range _ rfl
  refine .bind (c.tracks_withIterator id index.ns range fun it =>
    .bind c.tracks_status fun _ _ _ => .pure rfl) ?_
  rintro doomed _ rfl
  refine .bind (.forM fun physical => ?_) fun _ _ _ => .pure rfl
  exact (c.tracks_ofEngine (c.tracks_delete id index.ns physical)).mono fun _ _ _ => trivial

include hm

/-- Additions are in step, whether or not they are counted. -/
theorem tracks_add :
    Tracks c.Databases Eq (index.add ctx key value)
      ((index.counting m).add (ctx.map c.rename) key value) :=
  .bind (c.tracks_within ctx fun id => c.tracks_insertWithin index id key value) fun _ _ _ =>
    (c.tracks_observe hm _).mono fun _ _ _ => rfl

/-- What was removed is counted if there was something. -/
theorem tracks_countRemoved (removed : Bool) :
    Tracks c.Databases Eq
      (if removed then IndexM.observe index.options.metrics (Counters.countRemoved 1) else pure ⟨⟩)
      (if removed then IndexM.observe m (Counters.countRemoved 1) else pure ⟨⟩) := by
  cases removed with
  | false => exact .pure rfl
  | true => exact (c.tracks_observe hm _).mono fun _ _ _ => rfl

/-- Removals are tracked. -/
theorem tracks_remove :
    Tracks c.Databases Eq (index.remove ctx key value)
      ((index.counting m).remove (ctx.map c.rename) key value) := by
  refine .bind (c.tracks_within ctx fun id => c.tracks_eraseWithin index id key value) ?_
  rintro removed _ rfl
  exact c.tracks_countRemoved index hm removed

/-- Removals of all the values of a key are tracked. -/
theorem tracks_removeAll :
    Tracks c.Databases Eq (index.removeAll ctx key)
      ((index.counting m).removeAll (ctx.map c.rename) key) := by
  refine .bind (c.tracks_within ctx fun id =>
    .map (c.tracks_eraseAllWithin index id key) fun _ _ h => congrArg List.length h) ?_
  rintro removed _ rfl
  exact .bind (c.tracks_observe hm _) fun _ _ _ => .pure rfl

/-- An estimate of a range comes from sizes. It agrees if these are compared and none of them is too large. -/
theorem tracks_estimateRange (range : Range) :
    TracksUnless c.IndexStops c.Databases c.Near (index.estimateRange range)
      ((index.counting m).estimateRange range) := by
  refine .bind (c.tracksUnless_ofEngine (c.tracks_recentTally index.ns range)) fun recent recent' hrecent => ?_
  refine .bind (c.tracksUnless_ofEngine (c.tracks_olderSize index.ns range)) fun older older' holder => ?_
  refine .of_tracks (.bind (c.tracks_observe hm _) fun _ _ _ => .pure fun hs => ?_)
  rw [hrecent hs, holder hs]
  rfl

/-- The estimate for a key is that of its range. -/
theorem tracks_estimateKey :
    TracksUnless c.IndexStops c.Databases c.Near (index.estimateKey key)
      ((index.counting m).estimateKey key) := by
  refine .bind (.of_tracks (c.tracks_keyRange index key)) ?_
  rintro range _ rfl
  exact c.tracks_estimateRange index hm range

/-- The estimate for the index is that of the whole namespace. -/
theorem tracks_estimateSize :
    TracksUnless c.IndexStops c.Databases c.Near index.estimateSize (index.counting m).estimateSize :=
  c.tracks_estimateRange index hm Index.fullRange

end Index

end Comparison

/-! ### Two halves -/

/-- A two-way index that counts into other counters, or into none. -/
def TwoWayIndex.counting {K V : Type} (index : TwoWayIndex K V) (m m' : Option MetricsId) :
    TwoWayIndex K V :=
  { forward := index.forward.counting m, reverse := index.reverse.counting m' }

namespace Comparison

open Program IndexM

variable (c : Comparison) {K V : Type}

section TwoWay

variable (index : TwoWayIndex K V) {m m' : Option MetricsId}
  (hm : c.Counts index.forward.options.metrics m) (ctx : Context) (key : K) (value : V)

/-- The reverse entries that are deleted are those of the same values. -/
theorem tracks_eraseReverseWithin (id : TransactionId) (doomed : List Bytes) :
    Tracks c.Databases (fun _ _ => True) (index.eraseReverseWithin id key doomed)
      ((index.counting m m').eraseReverseWithin (c.rename id) key doomed) := by
  refine .forM fun physical => .bind (c.tracks_ofEncoding _) ?_
  rintro value _ rfl
  exact .bind (c.tracks_eraseWithin index.reverse id value key) fun _ _ _ => .pure trivial

include hm

/-- The two halves are written one after the other, in step. -/
theorem tracks_twoWay_add :
    Tracks c.Databases Eq (index.add ctx key value)
      ((index.counting m m').add (ctx.map c.rename) key value) :=
  .bind (c.tracks_within (A := Eq) ctx fun id =>
      .bind (c.tracks_insertWithin index.forward id key value) fun _ _ _ =>
        c.tracks_insertWithin index.reverse id value key) fun _ _ _ =>
    (c.tracks_observe hm _).mono fun _ _ _ => rfl

theorem tracks_twoWay_remove :
    Tracks c.Databases Eq (index.remove ctx key value)
      ((index.counting m m').remove (ctx.map c.rename) key value) := by
  refine .bind (c.tracks_within (A := Eq) ctx fun id => ?_) ?_
  · refine .bind (c.tracks_eraseWithin index.forward id key value) ?_
    rintro removed _ rfl
    exact .bind (c.tracks_eraseWithin index.reverse id value key) fun _ _ _ => .pure rfl
  · rintro removed _ rfl
    exact c.tracks_countRemoved index.forward hm removed

/-- The values that were removed decide which reverse entries go. -/
theorem tracks_twoWay_removeAll :
    Tracks c.Databases Eq (index.removeAll ctx key)
      ((index.counting m m').removeAll (ctx.map c.rename) key) := by
  refine .bind (c.tracks_within (A := Eq) ctx fun id => ?_) ?_
  · refine .bind (c.tracks_eraseAllWithin index.forward id key) ?_
    rintro doomed _ rfl
    exact .bind (c.tracks_eraseReverseWithin index key id doomed) fun _ _ _ => .pure rfl
  · rintro removed _ rfl
    exact .bind (c.tracks_observe hm _) fun _ _ _ => .pure rfl

end TwoWay

/-! ### Indexes of either form -/

/-- The same index, up to its counters. -/
inductive Indexes : AnyIndex K V → AnyIndex K V → Prop
  | oneWay {index : Index K V} {m : Option MetricsId} (counts : c.Counts index.options.metrics m) :
    Indexes (.oneWay index) (.oneWay (index.counting m))
  | twoWay {index : TwoWayIndex K V} {m m' : Option MetricsId}
    (forward : c.Counts index.forward.options.metrics m)
    (reverse : c.Counts index.reverse.options.metrics m') :
    Indexes (.twoWay index) (.twoWay (index.counting m m'))

variable {c} {index index' : AnyIndex K V} (h : c.Indexes index index') (ctx : Context) (key : K)
  (value : V)

include h

/-- Two indexes that are alike have the same forward half up to its metrics. -/
theorem Indexes.exists_forward :
    ∃ m, index'.forward = index.forward.counting m ∧ c.Counts index.forward.options.metrics m := by
  cases h with
  | oneWay counts => exact ⟨_, rfl, counts⟩
  | twoWay forward reverse => exact ⟨_, rfl, forward⟩

/-- Neither of them has a reverse half, or both have the same one up to its metrics. -/
theorem Indexes.reverse_cases :
    (index.reverse? = none ∧ index'.reverse? = none) ∨
      ∃ reverse m, index.reverse? = some reverse ∧ index'.reverse? = some (reverse.counting m) ∧
        c.Counts reverse.options.metrics m := by
  cases h with
  | oneWay counts => exact .inl ⟨rfl, rfl⟩
  | twoWay forward reverse => exact .inr ⟨_, _, rfl, rfl, reverse⟩

/-- An addition is in step for one-way and for two-way indexes. -/
theorem Indexes.tracks_add :
    Tracks c.Databases Eq (index.add ctx key value) (index'.add (ctx.map c.rename) key value) := by
  cases h with
  | oneWay counts => exact c.tracks_add _ counts ctx key value
  | twoWay forward reverse => exact c.tracks_twoWay_add _ forward ctx key value

/-- Several additions are in step as one program. -/
theorem Indexes.tracks_addMany (pairs : List (K × V)) :
    Tracks c.Databases Eq (index.addMany ctx pairs) (index'.addMany (ctx.map c.rename) pairs) :=
  .bind (.forM fun pair => (h.tracks_add ctx pair.1 pair.2).mono fun _ _ _ => trivial) fun _ _ _ =>
    .pure rfl

/-- A removal is in step for one-way and for two-way indexes. -/
theorem Indexes.tracks_remove :
    Tracks c.Databases Eq (index.remove ctx key value)
      (index'.remove (ctx.map c.rename) key value) := by
  cases h with
  | oneWay counts => exact c.tracks_remove _ counts ctx key value
  | twoWay forward reverse => exact c.tracks_twoWay_remove _ forward ctx key value

/-- The removal of all the values of a key is tracked on indexes of either kind. -/
theorem Indexes.tracks_removeAll :
    Tracks c.Databases Eq (index.removeAll ctx key) (index'.removeAll (ctx.map c.rename) key) := by
  cases h with
  | oneWay counts => exact c.tracks_removeAll _ counts ctx key
  | twoWay forward reverse => exact c.tracks_twoWay_removeAll _ forward ctx key

end Comparison

end SecondaryIndex
