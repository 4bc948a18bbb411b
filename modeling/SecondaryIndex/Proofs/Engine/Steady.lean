import SecondaryIndex.Proofs.Engine.Sound

/-!
# What lasts

Programs over an engine make several moves, and what is known of the engine before the first of them
is needed after the last. `Engine.Persists` is what every move leaves as it is: books that are kept
stay kept, a healthy engine stays healthy, and namespaces do not vanish. `Engine.Steady` is what the
moves within a transaction leave as it is besides: no namespace is created, nothing is committed, and
nobody begins, so that a transaction that has just begun still starts from the last commit when it
ends.

Both are orders, so they are shown move by move and chained along a program.
-/

namespace SecondaryIndex

namespace Engine

variable {e e' e'' : Engine} {event? : Option (LedgerEvent Place Bytes)}

/-- What every move leaves as it is. -/
structure Persists (e e' : Engine) : Prop where
  sound : e.Sound → e'.Sound
  healthy : e.faults = .healthy → e'.faults = .healthy
  hasNamespace : ∀ {ns}, e.store.hasNamespace ns = true → e'.store.hasNamespace ns = true

/-- What the moves within a transaction leave as it is. -/
structure Steady (e e' : Engine) : Prop extends Persists e e' where
  namespaces : ∀ ns, e'.store.hasNamespace ns = e.store.hasNamespace ns
  lastCommit : e'.store.lastCommit = e.store.lastCommit
  start : ∀ {id tx'}, e'.HasOpen id tx' → ∃ tx, e.HasOpen id tx ∧ tx.start = tx'.start

theorem Persists.refl (e : Engine) : e.Persists e := ⟨id, id, id⟩

theorem Persists.trans (h : e.Persists e') (h' : e'.Persists e'') : e.Persists e'' :=
  ⟨fun hs => h'.sound (h.sound hs), fun hf => h'.healthy (h.healthy hf),
    fun hn => h'.hasNamespace (h.hasNamespace hn)⟩

theorem Steady.refl (e : Engine) : e.Steady e :=
  ⟨.refl e, fun _ => rfl, rfl, fun hopen => ⟨_, hopen, rfl⟩⟩

theorem Steady.trans (h : e.Steady e') (h' : e'.Steady e'') : e.Steady e'' := by
  refine ⟨h.toPersists.trans h'.toPersists, fun ns => (h'.namespaces ns).trans (h.namespaces ns),
    h'.lastCommit.trans h.lastCommit, fun hopen => ?_⟩
  obtain ⟨tx', hopen', hstart'⟩ := h'.start hopen
  obtain ⟨tx, hopen, hstart⟩ := h.start hopen'
  exact ⟨tx, hopen, hstart.trans hstart'⟩

/-! ### Every move -/

/-- Dropping a transaction leaves the namespaces as they are. -/
theorem hasNamespace_discard (e : Engine) (id : TransactionId) (ns : Namespace) :
    (e.discard id).store.hasNamespace ns = e.store.hasNamespace ns := by
  rcases store_discard e id with ⟨tx, -, hstore⟩ | ⟨-, hstore⟩ <;> rw [hstore]
  rfl

/-- Dropping a transaction draws no fate. -/
theorem faults_discard (e : Engine) (id : TransactionId) : (e.discard id).faults = e.faults := by
  unfold discard
  split <;> rfl

/-- Every move keeps an engine sound and healthy, and keeps its namespaces. -/
theorem Moves.persists (h : Moves e event? e') : e.Persists e' := by
  refine ⟨fun hs => hs.move h, fun hf => ?_, fun {ns} hn => ?_⟩
  · cases h with
    | rearranges healthy alike => exact healthy hf
    | begins healthy => exact healthy hf
    | writes healthy written => exact healthy hf
    | commitsNothing healthy hopen nothing => exact healthy hf
    | commits healthy hopen something applied => exact healthy hf
    | closes healthy hopen => exact healthy hf
    | drops id => rw [faults_discard, hf]
  · cases h with
    | rearranges healthy alike => exact alike.hasNamespace hn
    -- installing writes goes through the tables that exist
    | commits healthy hopen something applied =>
      obtain ⟨-, rfl⟩ := Store.apply_eq_ok_iff.1 applied
      show (e.store.install _).hasNamespace ns = true
      rw [Store.hasNamespace_install, hn]
    | drops id => rw [hasNamespace_discard, hn]
    | begins healthy => exact hn
    | writes healthy written => exact hn
    | commitsNothing healthy hopen nothing => exact hn
    | closes healthy hopen => exact hn

/-! ### Moves within a transaction -/

/-- An engine is left steady by what makes its store another one alike. -/
theorem steady_of_alike {store : Store} {faults : FaultPlan}
    (healthy : e.faults = .healthy → faults = .healthy) (alike : e.store.Alike store)
    (namespaces : ∀ ns, store.hasNamespace ns = e.store.hasNamespace ns) :
    e.Steady { e with store, faults } :=
  ⟨(Moves.rearranges healthy alike).persists, namespaces, alike.lastCommit,
    fun hopen => ⟨_, hopen, rfl⟩⟩

theorem steady_drawn (e : Engine) (call : EngineCall) : e.Steady (e.drawn call) :=
  steady_of_alike (faults_drawn e call) (.refl e.store) fun _ => rfl

theorem steady_iterating (e : Engine) : e.Steady e.iterating :=
  steady_of_alike id (.of_tables_eq rfl rfl rfl rfl) fun _ => rfl

theorem steady_releaseIterator (e : Engine) : e.Steady e.releaseIterator :=
  steady_of_alike id (.of_tables_eq rfl rfl rfl rfl) fun _ => rfl

/-- A write that a transaction takes leaves the engine steady. -/
theorem steady_keeping {id : TransactionId} {ns : Namespace} {key : Bytes} {slot : Slot}
    {tx' : Transaction} (h : e.writtenTo id ns key slot = .ok tx') : e.Steady (e.keeping id tx') := by
  have hmove : Moves e (some (.writes id (ns, key) slot)) (e.keeping id tx') := .writes (fun h => h) h
  refine ⟨hmove.persists, fun _ => rfl, rfl, fun {j t} hopen => ?_⟩
  obtain ⟨tx, hold, -, rfl⟩ := of_writtenTo h
  rcases hasOpen_keeping.1 hopen with ⟨rfl, rfl, -⟩ | ⟨-, hrest⟩
  · exact ⟨tx, hold, rfl⟩
  · exact ⟨t, hrest, rfl⟩

/-! ### How transactions end -/

/-- A commit commits the transaction or fails, and then the transaction may still be open. -/
theorem commit_ends (e : Engine) (id : TransactionId) :
    e.Persists ((commit id).run e).2 ∧
      ((((commit id).run e).1 = .ok () ∧ ((commit id).run e).2.ledger = e.ledger.commit id) ∨
        (∃ err, ((commit id).run e).1 = .error err) ∧
          (((commit id).run e).2.ledger = e.ledger ∨
            ((commit id).run e).2.ledger = e.ledger.close id)) := by
  have hmove := moves_commit e id
  simp only [perform, Program.run_map] at hmove
  refine ⟨hmove.persists, ?_⟩
  have hledger := hmove.ledger_eq
  cases hrun : ((commit id).run e).1 with
  | ok u =>
    rw [hrun] at hledger
    exact .inl ⟨rfl, hledger⟩
  | error err =>
    rw [hrun] at hledger
    refine .inr ⟨⟨err, rfl⟩, ?_⟩
    -- the store has ended what it refused; a call that failed on its own account has not
    cases err with
    | conflict ns => exact .inr hledger
    | namespaceNotFound ns => exact .inr hledger
    | transactionClosed => exact .inl hledger
    | injected call => exact .inl hledger
    | overflow => exact .inl hledger

/-- A rollback closes the transaction or does nothing. -/
theorem rollback_ends (e : Engine) (id : TransactionId) :
    e.Persists ((rollback id).run e).2 ∧
      (((rollback id).run e).2.ledger = e.ledger ∨
        ((rollback id).run e).2.ledger = e.ledger.close id) := by
  have hmove := moves_rollback e id
  simp only [perform, Program.run_map] at hmove
  refine ⟨hmove.persists, ?_⟩
  have hledger := hmove.ledger_eq
  cases hrun : ((rollback id).run e).1 with
  | ok u =>
    rw [hrun] at hledger
    exact .inr hledger
  | error err =>
    rw [hrun] at hledger
    exact .inl hledger

end Engine

end SecondaryIndex
