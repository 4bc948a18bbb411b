import SecondaryIndex.Database
import SecondaryIndex.Proofs.Engine.Steady
import SecondaryIndex.Proofs.Store.Iterator

/-!
# Programs within a transaction

An operation on an index is a program that runs within a transaction: it reads what the transaction
sees, and it writes. `Acts live spaces id view program post` describes such a program. Started where
the transaction `id` sees `view`, it makes some writes in that transaction and leaves everything else
steady; if it gives a result, `post` holds of the writes and the result. It does give one, if it was
promised that it can (`live`), the transaction is open, no faults are to come, and the namespaces
`spaces` exist. Without `live` nothing is promised, so that one description serves for runs with faults
and without.

What is known of a failed program is that it has made some writes, no matter which. Where the
transaction is not open they come to nothing, since a ledger takes no writes of such a transaction;
where none of the namespaces exists there are none.

There is one rule for each way of building programs. A sequence makes the writes of its second part
over those of its first, and its second part sees what the first has written (`Acts.bind`).
-/

namespace SecondaryIndex

variable {α β : Type}

namespace IndexM

open Program

/-- A call of the engine leaves the rest of the database as it is. -/
theorem run_ofEngine (program : EngineM α) (db : Database) :
    (ofEngine program).run db =
      ((program.run db.engine).1.mapError .storage,
        { db with engine := (program.run db.engine).2 }) := rfl

theorem run_ofEngine_ok {program : EngineM α} {db : Database} {a : α} {e : Engine}
    (h : program.run db.engine = (.ok a, e)) :
    (ofEngine program).run db = (.ok a, { db with engine := e }) := by
  rw [run_ofEngine, h]
  rfl

theorem run_ofEngine_error {program : EngineM α} {db : Database} {err : EngineError} {e : Engine}
    (h : program.run db.engine = (.error err, e)) :
    (ofEngine program).run db = (.error (.storage err), { db with engine := e }) := by
  rw [run_ofEngine, h]
  rfl

/-- An encoding leaves the whole database as it is. -/
theorem run_ofEncoding (outcome : Except EncodingError α) (db : Database) :
    (ofEncoding outcome).run db = (outcome.mapError .encoding, db) := rfl

/-- An attempt always succeeds, with the outcome of what is attempted. -/
theorem run_attempt (program : IndexM α) (db : Database) :
    (attempt program).run db = (.ok (program.run db).1, (program.run db).2) := rfl

theorem run_ofOutcome (outcome : Except IndexError α) (db : Database) :
    (ofOutcome outcome).run db = (outcome, db) := rfl

end IndexM

/-- The removal of keys of a namespace. -/
def Changes.removing (ns : Namespace) (keys : List Bytes) : Changes Place Bytes :=
  fun x => if x.1 = ns ∧ x.2 ∈ keys then some none else none

theorem Changes.removing_nil (ns : Namespace) : Changes.removing ns [] = .nothing := by
  funext x
  simp [removing, nothing]

/-- Removing a key first and others afterwards removes all of them. -/
theorem Changes.removing_after_single (ns : Namespace) (key : Bytes) (keys : List Bytes) :
    (Changes.removing ns keys).after (.single (ns, key) none) = .removing ns (key :: keys) := by
  funext x
  obtain ⟨n, k⟩ := x
  -- a key that is removed twice is removed
  simp only [removing, after, single, Prod.mk.injEq, List.mem_cons]
  by_cases hn : n = ns
  · by_cases hmem : k ∈ keys <;> simp [hn, hmem]
  · simp [hn]

/-- The keys of a namespace in a range that a view shows, in their order. -/
structure Listing (view : Place → Option Bytes) (ns : Namespace) (range : Range)
    (keys : List Bytes) : Prop where
  sorted : keys.Pairwise (· < ·)
  mem_iff : ∀ key, key ∈ keys ↔ range.contains key = true ∧ (view (ns, key)).isSome

/-- What is asked of an engine so that nothing fails in it: no faults, and all namespaces there. -/
structure Engine.Ready (spaces : List Namespace) (e : Engine) : Prop where
  healthy : e.faults = .healthy
  hasNamespace : ∀ ns ∈ spaces, e.store.hasNamespace ns = true

/-- An engine that is ready stays so under all that persists. -/
theorem Engine.Ready.persists {spaces : List Namespace} {e e' : Engine} (h : e.Ready spaces)
    (hp : e.Persists e') : e'.Ready spaces :=
  ⟨hp.healthy h.healthy, fun ns hns => hp.hasNamespace (h.hasNamespace ns hns)⟩

/-- None of some namespaces is there. -/
def Engine.Lacks (spaces : List Namespace) (e : Engine) : Prop :=
  ∀ ns ∈ spaces, e.store.hasNamespace ns = false

/-- A namespace that is missing stays missing under all that is steady. -/
theorem Engine.Lacks.steady {spaces : List Namespace} {e e' : Engine} (h : e.Lacks spaces)
    (hs : e.Steady e') : e'.Lacks spaces :=
  fun ns hns => (hs.namespaces ns).trans (h ns hns)

/-- What a program has done within a transaction. -/
structure Acted (id : TransactionId) (c : Changes Place Bytes) (db db' : Database) : Prop where
  ledger : db'.engine.ledger = db.engine.ledger.write c (some id)
  steady : db.engine.Steady db'.engine

/-- What running a program from a database comes to. -/
def ActsFrom (live : Prop) (spaces : List Namespace) (id : TransactionId) (program : IndexM α)
    (post : Changes Place Bytes → α → Prop) (db : Database) : Prop :=
  ∃ c, Acted id c db (program.run db).2 ∧
    (∀ a, (program.run db).1 = .ok a → post c a) ∧
    (live → db.engine.ledger.Usable (some id) → db.engine.Ready spaces →
      ∃ a, (program.run db).1 = .ok a) ∧
    (db.engine.Lacks spaces → c = .nothing)

/-- What a program does within a transaction that, if it is open, sees a view. -/
def Acts (live : Prop) (spaces : List Namespace) (id : TransactionId) (view : Place → Option Bytes)
    (program : IndexM α) (post : Changes Place Bytes → α → Prop) : Prop :=
  ∀ db : Database, (db.engine.ledger.Usable (some id) → db.engine.ledger.view (some id) = view) →
    ActsFrom live spaces id program post db

theorem Acted.refl (id : TransactionId) (db : Database) : Acted id .nothing db db :=
  ⟨(Ledger.write_nothing _ _).symm, .refl _⟩

/-- Acting within a transaction leaves it as usable as it was. -/
theorem Acted.usable_iff {id : TransactionId} {c : Changes Place Bytes} {db db' : Database}
    (h : Acted id c db db') :
    db'.engine.ledger.Usable (some id) ↔ db.engine.ledger.Usable (some id) := by
  show (db'.engine.ledger.pending id).isSome = true ↔ (db.engine.ledger.pending id).isSome = true
  rw [h.ledger, Ledger.write_some_pending, if_pos rfl, Option.isSome_map]

/-- Two actions within a transaction are one, of the changes of both in their order. -/
theorem Acted.trans {id : TransactionId} {c c' : Changes Place Bytes} {db db' db'' : Database}
    (h : Acted id c db db') (h' : Acted id c' db' db'') : Acted id (c'.after c) db db'' :=
  ⟨by rw [h'.ledger, h.ledger, Ledger.write_write], h.steady.trans h'.steady⟩

/-- A change of the engine that no transaction notices. -/
theorem Acted.of_ledger_eq {id : TransactionId} {db db' : Database}
    (hledger : db'.engine.ledger = db.engine.ledger) (hsteady : db.engine.Steady db'.engine) :
    Acted id .nothing db db' :=
  ⟨by rw [hledger, Ledger.write_nothing], hsteady⟩

namespace Acts

open Program IndexM

variable {live : Prop} {spaces : List Namespace} {id : TransactionId} {view : Place → Option Bytes}
  {post : Changes Place Bytes → α → Prop}

/-- A program acts if it succeeded and did nothing but give its result. -/
theorem of_ok {program : IndexM α} {db db' : Database} {a : α}
    (hrun : program.run db = (.ok a, db')) (hacted : Acted id .nothing db db')
    (hpost : post .nothing a) : ActsFrom live spaces id program post db := by
  unfold ActsFrom
  rw [hrun]
  refine ⟨.nothing, hacted, fun a' ha => ?_, fun _ _ _ => ⟨a, rfl⟩, fun _ => rfl⟩
  cases ha
  exact hpost

/-- A program that failed and did nothing acts too, if there was no reason for it to succeed. -/
theorem of_error {program : IndexM α} {db db' : Database} {err : IndexError}
    (hrun : program.run db = (.error err, db')) (hacted : Acted id .nothing db db')
    (hnot : live → db.engine.ledger.Usable (some id) → ¬ db.engine.Ready spaces) :
    ActsFrom live spaces id program post db := by
  unfold ActsFrom
  rw [hrun]
  refine ⟨.nothing, hacted, fun a ha => ?_, fun hl hu hr => absurd hr (hnot hl hu), fun _ => rfl⟩
  cases ha

/-! ### Building programs -/

/-- What is said of the changes and the result can be weakened. -/
theorem mono {program : IndexM α} {post' : Changes Place Bytes → α → Prop}
    (h : Acts live spaces id view program post) (himp : ∀ c a, post c a → post' c a) :
    Acts live spaces id view program post' := by
  intro db hv
  obtain ⟨c, hacted, hok, hrest⟩ := h db hv
  exact ⟨c, hacted, fun a ha => himp c a (hok a ha), hrest⟩

theorem pure {a : α} (h : post .nothing a) :
    Acts live spaces id view (Pure.pure a : IndexM α) post :=
  fun db _ => of_ok (run_pure a db) (.refl id db) h

/-- The rest acts on the view the first part has changed, and the changes are put together. -/
theorem bind {program : IndexM α} {rest : α → IndexM β} {post' : Changes Place Bytes → β → Prop}
    (h : Acts live spaces id view program post)
    (hrest : ∀ c a, post c a → Acts live spaces id (c.applyTo view) (rest a)
      fun c' b => post' (c'.after c) b) :
    Acts live spaces id view (program >>= rest) post' := by
  intro db hv
  obtain ⟨c, hacted, hok, hlive, hlacks⟩ := h db hv
  cases hrun : program.run db with
  | mk outcome db' =>
    rw [hrun] at hacted hok hlive
    unfold ActsFrom
    cases outcome with
    | error err =>
      -- the rest is not run; the writes of the first part stay
      rw [run_bind_error hrun]
      refine ⟨c, hacted, fun b hb => ?_, fun hl hu hr => ?_, hlacks⟩
      · cases hb
      · obtain ⟨a, ha⟩ := hlive hl hu hr
        cases ha
    | ok a =>
      rw [run_bind_ok hrun]
      -- the rest starts where the transaction sees the writes of the first part
      have hview : db'.engine.ledger.Usable (some id) →
          db'.engine.ledger.view (some id) = c.applyTo view := by
        intro hu'
        have hu := hacted.usable_iff.1 hu'
        rw [hacted.ledger, Ledger.view_write _ _ hu, hv hu]
      obtain ⟨c', hacted', hok', hlive', hlacks'⟩ := hrest c a (hok a rfl) db' hview
      refine ⟨c'.after c, hacted.trans hacted', hok', fun hl hu hr => ?_, fun hl => ?_⟩
      · exact hlive' hl (hacted.usable_iff.2 hu) (hr.persists hacted.steady.toPersists)
      · rw [hlacks hl, hlacks' (hl.steady hacted.steady), Changes.after_nothing]

theorem map {program : IndexM α} {g : α → β} {post' : Changes Place Bytes → β → Prop}
    (h : Acts live spaces id view program post) (himp : ∀ c a, post c a → post' c (g a)) :
    Acts live spaces id view (g <$> program) post' := by
  rw [map_eq_pure_bind]
  refine bind h fun c a hca => pure ?_
  rw [Changes.nothing_after]
  exact himp c a hca

/-- An encoding that succeeds changes nothing. -/
theorem encoding {outcome : Except EncodingError α} (h : ∀ a, outcome = .ok a → post .nothing a)
    (hlive : live → ∃ a, outcome = .ok a) :
    Acts live spaces id view (ofEncoding outcome) post := by
  intro db hv
  cases outcome with
  | ok a => exact of_ok (run_ofEncoding _ db) (.refl id db) (h a rfl)
  | error err =>
    refine of_error (run_ofEncoding _ db) (.refl id db) fun hl _ _ => ?_
    obtain ⟨a, ha⟩ := hlive hl
    cases ha

/-! ### Calls of the engine -/

variable {ns : Namespace} {key : Bytes}

/-- A call that drew a failure has done nothing. -/
theorem of_fails {program : EngineM α} {call : EngineCall} {db : Database}
    (hrun : program.run db.engine = (.error (.injected call), db.engine.drawn call))
    (hfails : db.engine.fails call = true) :
    ActsFrom live spaces id (ofEngine program) post db := by
  refine of_error (run_ofEngine_error hrun) (.of_ledger_eq rfl (Engine.steady_drawn _ _))
    fun _ _ hr => ?_
  rw [Engine.fails_of_healthy _ _ hr.healthy] at hfails
  cases hfails

/-- A call that was refused has done nothing. -/
theorem of_refused {program : EngineM α} {call : EngineCall} {err : EngineError} {db : Database}
    (hrun : program.run db.engine = (.error err, db.engine.drawn call))
    (hnot : ∀ changes, db.engine.ledger.pending id = some changes →
      ¬ ∀ ns ∈ spaces, db.engine.store.hasNamespace ns = true) :
    ActsFrom live spaces id (ofEngine program) post db := by
  refine of_error (run_ofEngine_error hrun) (.of_ledger_eq rfl (Engine.steady_drawn _ _))
    fun _ hu hr => ?_
  obtain ⟨changes, hp⟩ := Option.isSome_iff_exists.1 hu
  exact hnot changes hp hr.hasNamespace

/-- A lookup gives what the view has under the key. -/
theorem lookup {post : Changes Place Bytes → Option Bytes → Prop} (hns : ns ∈ spaces)
    (h : post .nothing (view (ns, key))) :
    Acts live spaces id view (ofEngine (Engine.lookup id ns key)) post := by
  intro db hv
  have hrun := Engine.run_lookup db.engine id ns key
  cases hfails : db.engine.fails .get with
  | true => exact of_fails (by rw [hrun, hfails]; rfl) hfails
  | false =>
    rw [hfails, if_neg Bool.false_ne_true] at hrun
    cases hrecord : db.engine.recordOf id ns key with
    | error err =>
      rw [hrecord] at hrun
      refine of_refused hrun fun changes hp hall => ?_
      rw [Engine.recordOf_eq_of_open hp (hall ns hns)] at hrecord
      cases hrecord
    | ok value? =>
      rw [hrecord] at hrun
      -- something was read, so the transaction is open and the view is what it sees
      refine of_ok (run_ofEngine_ok hrun) (.of_ledger_eq rfl (Engine.steady_drawn _ _)) ?_
      obtain ⟨⟨changes, hp⟩, hview⟩ := Engine.view_of_recordOf hrecord
      rw [← hview, hv (Option.isSome_iff_exists.2 ⟨changes, hp⟩)]
      exact h

/-- A write, whichever of the two calls makes it. -/
theorem of_write {program : EngineM Unit} {call : EngineCall} {slot : Slot}
    (hrun : ∀ e : Engine, program.run e =
      if e.fails call then (.error (.injected call), e.drawn call)
      else match e.writtenTo id ns key slot with
        | .ok tx => (.ok ⟨⟩, (e.drawn call).keeping id tx)
        | .error err => (.error err, e.drawn call))
    {post : Changes Place Bytes → Unit → Prop} (hns : ns ∈ spaces)
    (h : post (.single (ns, key) slot) ()) :
    Acts live spaces id view (ofEngine program) post := by
  intro db hv
  have hrun := hrun db.engine
  cases hfails : db.engine.fails call with
  | true => exact of_fails (by rw [hrun, hfails]; rfl) hfails
  | false =>
    rw [hfails, if_neg Bool.false_ne_true] at hrun
    cases hwritten : db.engine.writtenTo id ns key slot with
    | error err =>
      rw [hwritten] at hrun
      refine of_refused hrun fun changes hp hall => ?_
      obtain ⟨tx, htx⟩ := Engine.writtenTo_eq_of_open hp (hall ns hns) key slot
      rw [hwritten] at htx
      cases htx
    | ok tx =>
      rw [hwritten] at hrun
      have hdrawn : (db.engine.drawn call).writtenTo id ns key slot = .ok tx := hwritten
      unfold ActsFrom
      rw [run_ofEngine_ok hrun]
      refine ⟨_, ⟨Engine.ledger_keeping hdrawn,
        (Engine.steady_drawn _ _).trans (Engine.steady_keeping hdrawn)⟩, fun _ _ => h,
        fun _ _ _ => ⟨(), rfl⟩, fun hlacks => ?_⟩
      -- what was written to was there
      obtain ⟨tx, -, hthere, -⟩ := Engine.of_writtenTo hwritten
      rw [hlacks ns hns] at hthere
      cases hthere

/-- A buffered write is one change. -/
theorem put {value : Bytes} {post : Changes Place Bytes → Unit → Prop} (hns : ns ∈ spaces)
    (h : post (.single (ns, key) (some value)) ()) :
    Acts live spaces id view (ofEngine (Engine.put id ns key value)) post :=
  of_write (fun e => Engine.run_put e id ns key value) hns h

/-- A buffered deletion is one change. -/
theorem delete {post : Changes Place Bytes → Unit → Prop} (hns : ns ∈ spaces)
    (h : post (.single (ns, key) none) ()) :
    Acts live spaces id view (ofEngine (Engine.delete id ns key)) post :=
  of_write (fun e => Engine.run_delete e id ns key) hns h

/-- An iterator runs over the keys that the view has in the range. -/
theorem openIterator {range : Range} {post : Changes Place Bytes → RawIterator → Prop}
    (hns : ns ∈ spaces) (h : ∀ keys, Listing view ns range keys → post .nothing { keys }) :
    Acts live spaces id view (ofEngine (Engine.openIterator id ns range)) post := by
  intro db hv
  have hrun := Engine.run_openIterator db.engine id ns range
  cases hfails : db.engine.fails .iterator with
  | true => exact of_fails (by rw [hrun, hfails]; rfl) hfails
  | false =>
    rw [hfails, if_neg Bool.false_ne_true] at hrun
    cases hkeys : db.engine.keysOf id ns range with
    | error err =>
      rw [hkeys] at hrun
      refine of_refused hrun fun changes hp hall => ?_
      obtain ⟨keys, hok⟩ := Engine.keysOf_eq_of_open hp (hall ns hns) range
      rw [hkeys] at hok
      cases hok
    | ok keys =>
      rw [hkeys] at hrun
      obtain ⟨⟨changes, hp⟩, -, hsorted, hmem⟩ := Engine.of_keysOf hkeys
      rw [hv (Option.isSome_iff_exists.2 ⟨changes, hp⟩)] at hmem
      exact of_ok (run_ofEngine_ok hrun)
        (.of_ledger_eq rfl ((Engine.steady_drawn _ _).trans (Engine.steady_iterating _)))
        (h keys ⟨hsorted, hmem⟩)

theorem status {post : Changes Place Bytes → Unit → Prop} (h : post .nothing ()) :
    Acts live spaces id view (ofEngine Engine.status) post := by
  intro db hv
  have hrun := Engine.run_status db.engine
  cases hfails : db.engine.fails .status with
  | true => exact of_fails (by rw [hrun, hfails]; rfl) hfails
  | false =>
    rw [hfails, if_neg Bool.false_ne_true] at hrun
    exact of_ok (run_ofEngine_ok hrun) (.of_ledger_eq rfl (Engine.steady_drawn _ _)) h

/-- What is done with an iterator is done before it is released, whatever comes of it. -/
theorem withIterator {range : Range} {program : RawIterator → IndexM α} (hns : ns ∈ spaces)
    (h : ∀ keys, Listing view ns range keys → Acts live spaces id view (program { keys }) post) :
    Acts live spaces id view (IndexM.withIterator id ns range program) post := by
  have hreleased (it : RawIterator) (h : Acts live spaces id view (program it) post) :
      Acts live spaces id view
        (do let outcome ← attempt (program it); IndexM.releaseIterator; ofOutcome outcome) post := by
    intro db hv
    obtain ⟨c, hacted, hrest⟩ := h db hv
    exact ⟨c, ⟨hacted.ledger, hacted.steady.trans (Engine.steady_releaseIterator _)⟩, hrest⟩
  have hopened : Acts live spaces id view (ofEngine (Engine.openIterator id ns range))
      fun c it => c = .nothing ∧ ∃ keys, it = { keys } ∧ Listing view ns range keys :=
    openIterator hns fun keys hkeys => ⟨rfl, keys, rfl, hkeys⟩
  refine bind hopened ?_
  rintro c it ⟨rfl, keys, rfl, hkeys⟩
  simpa using hreleased _ (h keys hkeys)

/-- Looking into an iterator that is healthy. -/
theorem look {range : Range} (hns : ns ∈ spaces) {look : RawIterator → α}
    (h : ∀ keys, Listing view ns range keys → post .nothing (look { keys })) :
    Acts live spaces id view
      (IndexM.withIterator id ns range fun it => do
        ofEngine Engine.status
        Pure.pure (look it)) post := by
  refine withIterator hns fun keys hkeys => ?_
  have hstatus : Acts live spaces id view (ofEngine Engine.status) fun c _ => c = .nothing :=
    status rfl
  refine bind hstatus ?_
  rintro c ⟨⟩ rfl
  refine pure ?_
  rw [Changes.after_nothing]
  exact h keys hkeys

/-- Removing keys one after the other removes them all. -/
theorem deleteAll {post : Changes Place Bytes → Unit → Prop} (hns : ns ∈ spaces) (keys : List Bytes)
    (h : post (.removing ns keys) ()) :
    Acts live spaces id view
      (keys.forM fun key => ofEngine (Engine.delete id ns key)) post := by
  -- along the keys; what the later removals go on top of is part of the postcondition
  induction keys generalizing view post with
  | nil =>
    rw [Changes.removing_nil] at h
    exact pure h
  | cons key keys ih =>
    rw [List.forM_eq_forM, List.forM_cons, ← List.forM_eq_forM]
    have hfirst : Acts live spaces id view (ofEngine (Engine.delete id ns key))
        fun c _ => c = .single (ns, key) none := delete hns rfl
    refine bind hfirst ?_
    rintro c ⟨⟩ rfl
    refine ih ?_
    rw [Changes.removing_after_single]
    exact h

end Acts

end SecondaryIndex
