import SecondaryIndex.Proofs.Index.Rejects

/-!
# Removals that find nothing

A removal looks for an entry before it writes. Where there is none it writes nothing, so the transaction
that it was begun for is committed without writes. Such a commit is none for the store: apart from the
number of that transaction the database is what it was, to the last field (`AnyIndex.remove_absent`).

In this it is like an operation that is rejected (`IndexM.Rejects`), and for the same reason: a
transaction that wrote nothing leaves nothing behind, whether it is committed or rolled back.
-/

namespace SecondaryIndex

variable {K V α : Type}

namespace Engine

variable {e : Engine}

/-- A transaction that is committed without writes leaves nothing behind but its number. -/
theorem discard_commit_begun (hsound : e.Sound) (hhealthy : e.faults = .healthy) :
    ((commit e.nextTransaction).run e.begun).1 = .ok () ∧
      ((commit e.nextTransaction).run e.begun).2.discard e.nextTransaction =
        e.numbered (e.nextTransaction + 1) := by
  have hheld : e.begun.held e.nextTransaction = .ok { start := e.store.lastCommit } := by
    simp [held, begun, SortedMap.get?_insert]
  -- of a transaction without writes, the commit and the rollback are the same
  have hsame : (commit e.nextTransaction).run e.begun = (rollback e.nextTransaction).run e.begun := by
    rw [run_commit, run_rollback, fails_of_healthy e.begun _ hhealthy, fails_of_healthy e.begun _ hhealthy,
      drawn_of_healthy e.begun _ hhealthy, drawn_of_healthy e.begun _ hhealthy, hheld]
    rfl
  refine ⟨?_, ?_⟩
  · rw [run_commit, fails_of_healthy e.begun _ hhealthy, hheld]
    rfl
  · rw [hsame]
    exact discard_rollback_begun hsound hhealthy

end Engine

namespace IndexM

open Program

variable {db : Database}

/-- An operation that leaves the database of its transaction as it is leaves everything as it is. -/
theorem within_of_untouched {operation : TransactionId → IndexM α} {outcome : Except IndexError α}
    (hsound : db.engine.Sound) (hhealthy : db.engine.faults = .healthy)
    (h : (operation db.engine.nextTransaction).run { db with engine := db.engine.begun } =
      (outcome, { db with engine := db.engine.begun })) :
    (within none operation).run db =
      (outcome, { db with engine := db.engine.numbered (db.engine.nextTransaction + 1) }) := by
  have hbegin : (ofEngine Engine.begin).run db =
      (.ok db.engine.nextTransaction, { db with engine := db.engine.begun }) := by
    refine run_ofEngine_ok ?_
    rw [Engine.run_begin, Engine.fails_of_healthy _ _ hhealthy, Engine.drawn_of_healthy _ _ hhealthy]
    rfl
  unfold within
  rw [run_transactionally_none operation _ hbegin, h]
  cases outcome with
  | error err =>
    rw [run_settle_error]
    have hforgotten := Engine.discard_rollback_begun hsound hhealthy
    exact congrArg (fun e => (Except.error err, { db with engine := e })) hforgotten
  | ok a =>
    obtain ⟨hok, hforgotten⟩ := Engine.discard_commit_begun hsound hhealthy
    rw [run_settle_ok hok]
    exact congrArg (fun e => (Except.ok a, { db with engine := e })) hforgotten

end IndexM

namespace Index

open Program IndexM

variable {index : Index K V} {db : Database} {key : K} {value : V} {spaces : List Namespace}

/-- An entry that is not seen is not removed. One that cannot be encoded is not even looked for. -/
theorem eraseWithin_begun (hready : db.engine.Ready spaces) (hns : index.ns ∈ spaces)
    (habsent : ∀ x, index.StoredAt key value x → db.engine.store.read x = none) :
    (index.eraseWithin db.engine.nextTransaction key value).run { db with engine := db.engine.begun } =
      (((index.codec.encode key value).mapError .encoding).map fun _ => false,
        { db with engine := db.engine.begun }) := by
  unfold eraseWithin
  have hencoded := run_ofEncoding (index.codec.encode key value) { db with engine := db.engine.begun }
  cases hencode : index.codec.encode key value with
  | error cause =>
    rw [hencode] at hencoded
    exact run_bind_error hencoded
  | ok p =>
    rw [hencode] at hencoded
    -- the transaction sees what is committed
    have hpending : db.engine.begun.ledger.pending db.engine.nextTransaction = some .nothing := by
      rw [Engine.ledger_begun, Ledger.begin_pending, if_pos rfl]
    have hseen : db.engine.begun.recordOf db.engine.nextTransaction index.ns p = .ok none := by
      rw [Engine.recordOf_eq_of_open hpending (hready.hasNamespace _ hns), Engine.view_begun]
      exact congrArg Except.ok (habsent _ ⟨rfl, hencode⟩)
    have hlooked : (ofEngine (Engine.lookup db.engine.nextTransaction index.ns p)).run
        { db with engine := db.engine.begun } = (.ok none, { db with engine := db.engine.begun }) := by
      have hhealthy : db.engine.begun.faults = .healthy := hready.healthy
      refine run_ofEngine_ok ?_
      rw [Engine.run_lookup, Engine.fails_of_healthy _ _ hhealthy, Engine.drawn_of_healthy _ _ hhealthy, hseen]
      rfl
    exact (run_bind_ok hencoded).trans (run_bind_ok hlooked)

end Index

namespace AnyIndex

open Program IndexM

variable {index : AnyIndex K V} {db : Database} {key : K} {value : V}

/-- An operation writes nothing and removes nothing, and fails where a pair cannot be stored. -/
def Passes (index : AnyIndex K V) (key : K) (value : V) (db : Database)
    (operation : TransactionId → IndexM Bool) : Prop :=
  ∃ outcome,
    (operation db.engine.nextTransaction).run { db with engine := db.engine.begun } =
      (outcome, { db with engine := db.engine.begun }) ∧
    (outcome = .ok false ∧ index.Encodes key value ∨
      (∃ err, outcome = .error err) ∧ ¬ index.Encodes key value)

/-- The removal of an entry that is not there. -/
theorem passes_erase {index : Index K V} (hready : db.engine.Ready [index.ns])
    (habsent : ∀ x, index.StoredAt key value x → db.engine.store.read x = none) :
    (oneWay index).Passes key value db fun id => index.eraseWithin id key value := by
  refine ⟨_, Index.eraseWithin_begun hready List.mem_cons_self habsent, ?_⟩
  cases hencode : index.codec.encode key value with
  | ok p => exact .inl ⟨rfl, p, hencode⟩
  | error cause =>
    refine .inr ⟨⟨_, rfl⟩, fun hencodes => ?_⟩
    obtain ⟨p, hp⟩ := hencodes
    rw [hencode] at hp
    cases hp

/-- The removal of a pair that is in neither half. -/
theorem passes_erase_twoWay {index : TwoWayIndex K V}
    (hready : db.engine.Ready [index.forward.ns, index.reverse.ns])
    (habsent : ∀ x, (twoWay index).StoredAt key value x → db.engine.store.read x = none) :
    (twoWay index).Passes key value db (fun id => do
      let removed ← index.forward.eraseWithin id key value
      let _ ← index.reverse.eraseWithin id value key
      pure removed) := by
  have hforward := Index.eraseWithin_begun hready List.mem_cons_self fun x hx => habsent x (.inl hx)
  have hreverse := Index.eraseWithin_begun hready (List.mem_cons_of_mem _ List.mem_cons_self)
    fun x hx => habsent x (.inr hx)
  cases hencode : index.forward.codec.encode key value with
  | error cause =>
    -- a pair that has no stored key is refused by the half that cannot encode it
    rw [hencode] at hforward
    refine ⟨_, run_bind_error hforward, .inr ⟨⟨_, rfl⟩, fun hencodes => ?_⟩⟩
    obtain ⟨p, hp⟩ := hencodes.1
    rw [hencode] at hp
    cases hp
  | ok p =>
    rw [hencode] at hforward
    cases hencode' : index.reverse.codec.encode value key with
    | error cause =>
      rw [hencode'] at hreverse
      refine ⟨_, (run_bind_ok hforward).trans (run_bind_error hreverse),
        .inr ⟨⟨_, rfl⟩, fun hencodes => ?_⟩⟩
      obtain ⟨q, hq⟩ := hencodes.2
      rw [hencode'] at hq
      cases hq
    | ok q =>
      rw [hencode'] at hreverse
      exact ⟨_, (run_bind_ok hforward).trans (run_bind_ok hreverse),
        .inl ⟨rfl, ⟨p, hencode⟩, q, hencode'⟩⟩

/-- What removes nothing is not counted, and leaves the database as it is but for one number. -/
theorem Passes.within {operation : TransactionId → IndexM Bool} {count : IndexM Unit}
    (h : index.Passes key value db operation) (hsound : db.engine.Sound)
    (hhealthy : db.engine.faults = .healthy) :
    ∃ outcome, (do if ← IndexM.within none operation then count).run db =
        (outcome, { db with engine := db.engine.numbered (db.engine.nextTransaction + 1) }) ∧
      (outcome = .ok () ↔ index.Encodes key value) := by
  obtain ⟨outcome, hrun, hcases⟩ := h
  have hwithin := within_of_untouched hsound hhealthy hrun
  rcases hcases with ⟨rfl, hencodes⟩ | ⟨⟨err, rfl⟩, hnot⟩
  · exact ⟨_, run_bind_ok hwithin, iff_of_true rfl hencodes⟩
  · exact ⟨_, run_bind_error hwithin, iff_of_false nofun hnot⟩

/-- Removing a pair that is stored nowhere leaves the database as it is, except that the number of one
transaction is used up. It succeeds if and only if the pair could be stored at all. -/
theorem remove_absent (hsound : db.engine.Sound) (hready : db.engine.Ready index.namespaces)
    (habsent : ∀ x, index.StoredAt key value x → db.engine.store.read x = none) :
    ∃ outcome, (index.remove none key value).run db =
        (outcome, { db with engine := db.engine.numbered (db.engine.nextTransaction + 1) }) ∧
      (outcome = .ok () ↔ index.Encodes key value) := by
  cases index with
  | oneWay index => exact (passes_erase hready habsent).within hsound hready.healthy
  | twoWay index => exact (passes_erase_twoWay hready habsent).within hsound hready.healthy

end AnyIndex

end SecondaryIndex
