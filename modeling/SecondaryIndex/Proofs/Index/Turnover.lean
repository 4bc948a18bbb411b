import SecondaryIndex.Proofs.Index.Tally

/-!
# What counters tell of the pairs that are stored

Counters notice what an index adds and removes after the fact, of what was found in a transaction that may still
have failed to commit. `Database.Trades` is a run of a database from an empty store in which an index is called
outside of transactions only, and nobody else writes to its namespaces; faults may be chosen at any time. A
`Turnover` keeps the books of such a run: it looks at what is committed before and after every call.

`Database.Trades.counters_balance` is the main result. The books and the counters agree, so that the number of
the pairs that are stored is that of the pairs that have come, less that of the removals counted. A pair of a
two-way index is in both halves and is counted once; a call that fails changes neither counters nor pairs.

It takes three steps. Beside the run there is a history in which no transaction holds any pairs
(`Trades.exists_history`), so that calls on the store leave the pairs alone. A call on the index changes them by
its additions and its removals if it goes through (`DatabaseHistory.Unattended.stored_call`). And that is what
counters notice of it (`AnyIndex.perform_noted`).
-/

namespace SecondaryIndex

variable {α K V : Type}

/-! ### The books of a run -/

/-- The pairs that are committed. -/
def AnyIndex.stored (index : AnyIndex K V) (db : Database) : Set (K × V) :=
  {kv | index.forward.Stores (db.engine.ledger.view none) kv.1 kv.2}

/-- What has become of the pairs of an index. -/
structure Turnover where
  /-- The pairs that were added by calls that went through, every time that they were. -/
  added : ℕ∞ := 0
  /-- Those of them that were not stored when they were added. -/
  arrived : ℕ∞ := 0
  /-- The pairs that were stored before a call and not after it. -/
  departed : ℕ∞ := 0

/-- The books after a call, by what was stored before it and what is stored now. -/
noncomputable def Turnover.after (turnover : Turnover) (call : IndexCall K V) (outcome : Except IndexError α)
    (before now : Set (K × V)) : Turnover where
  added := turnover.added + (ifDone outcome call.additions).encard
  arrived := turnover.arrived + (ifDone outcome call.additions \ before).encard
  departed := turnover.departed + (before \ now).encard

/-- Runs of a database from an empty store in which an index is called outside of transactions. -/
inductive Database.Trades (index : AnyIndex K V) (options : StoreOptions) : Turnover → Database → Prop
  | start : Trades index options {} (.ofOptions options)
  | store {turnover : Turnover} {db : Database} (trades : Trades index options turnover db)
    (call : StoreCall) (elsewhere : ∀ ns, call.target? = some ns → ns ∉ index.namespaces) :
    Trades index options turnover { db with engine := ((Engine.perform call).run db.engine).2 }
  | index {turnover : Turnover} {db : Database} (trades : Trades index options turnover db)
    (call : IndexCall K V) :
    Trades index options
      (turnover.after call ((index.perform none call).run db).1 (index.stored db)
        (index.stored ((index.perform none call).run db).2))
      ((index.perform none call).run db).2
  | drain {turnover : Turnover} {db : Database} (trades : Trades index options turnover db) {α : Type}
    (cursor : Cursor α) : Trades index options turnover (cursor.collect.run db).2
  | faults {turnover : Turnover} {db : Database} (trades : Trades index options turnover db)
    (faults : FaultPlan) :
    Trades index options turnover { db with engine := { db.engine with faults } }

/-! ### Transactions that hold no pairs -/

namespace Ledger

variable {κ ν κ' ν' : Type}

/-- No open transaction has written anything. -/
def Quiet (l : Ledger κ ν) : Prop := ∀ id c, l.pending id = some c → c = .nothing

variable [DecidableEq κ] {l : Ledger κ ν} {id : TransactionId}

omit [DecidableEq κ] in
theorem Quiet.begin (h : l.Quiet) (id : TransactionId) : (l.begin id).Quiet := by
  intro j c hc
  rw [begin_pending] at hc
  split at hc
  · exact (Option.some.inj hc).symm
  · exact h j c hc

omit [DecidableEq κ] in
theorem Quiet.close (h : l.Quiet) (id : TransactionId) : (l.close id).Quiet := by
  intro j c hc
  rw [close_pending] at hc
  split at hc
  · cases hc
  · exact h j c hc

omit [DecidableEq κ] in
theorem Quiet.view_eq (h : l.Quiet) (id : TransactionId) : l.view (some id) = l.committed := by
  show ((l.pending id).getD .nothing).applyTo l.committed = l.committed
  cases hc : l.pending id with
  | none => rfl
  | some c =>
    rw [h id c hc]
    rfl

/-- What happens elsewhere does not matter where no open transaction has written anything. -/
theorem Quiet.after_elsewhere (h : l.Quiet) (event? : Option (LedgerEvent κ' ν')) :
    (l.after? (event?.bind LedgerEvent.elsewhere?)).Quiet ∧
      (l.after? (event?.bind LedgerEvent.elsewhere?)).committed = l.committed := by
  cases event? with
  | none => exact ⟨h, rfl⟩
  | some event =>
    cases event with
    | opens id => exact ⟨h.begin id, rfl⟩
    | writes id x slot => exact ⟨h, rfl⟩
    | commits id => exact ⟨h.close id, h.view_eq id⟩
    | ends id => exact ⟨h.close id, rfl⟩

end Ledger

section Histories

variable [DecidableEq K] [DecidableEq V] {index : AnyIndex K V} {options : StoreOptions}
  {history : DatabaseHistory K V} {db : Database} {turnover : Turnover}

namespace DatabaseHistory

/-- No transaction has anything to do with the index. -/
structure Unattended (history : DatabaseHistory K V) : Prop where
  untainted : ∀ id, ¬history.Tainted id
  clean : history.Clean
  quiet : history.pairs.Quiet

theorem unattended_nil : Unattended ([] : DatabaseHistory K V) :=
  ⟨fun _ ht => ht, trivial, nofun⟩

theorem Unattended.after_store (h : history.Unattended) (call : StoreCall)
    (answer : Except EngineError StoreAnswer) : Unattended (.store call answer :: history) where
  untainted id ht := h.untainted id ht.2
  clean := ⟨fun id _ => h.untainted id, h.clean⟩
  quiet := (h.quiet.after_elsewhere _).1

theorem Unattended.after_call (h : history.Unattended) (call : IndexCall K V)
    (answer : Except IndexError (IndexAnswer K V)) (wrote : Bool) :
    Unattended (.index none call answer wrote :: history) := by
  cases answer with
  | ok answer => exact ⟨h.untainted, h.clean, h.quiet⟩
  | error err =>
    refine ⟨fun id ht => ?_, h.clean, h.quiet⟩
    rcases ht with ⟨-, hnone⟩ | ht
    · cases hnone
    · exact h.untainted id ht

theorem Unattended.after_faults (h : history.Unattended) : Unattended (.faults :: history) :=
  ⟨h.untainted, h.clean, h.quiet⟩

end DatabaseHistory

/-- Beside a run outside of transactions there is a history in which they have nothing to do with the index. -/
theorem Database.Trades.exists_history (trades : Database.Trades index options turnover db) :
    ∃ history, Database.Reaches index options history db ∧ history.Unattended := by
  induction trades with
  | start => exact ⟨[], .start, DatabaseHistory.unattended_nil⟩
  | store trades call elsewhere ih =>
    obtain ⟨history, reached, hunattended⟩ := ih
    exact ⟨_, reached.store call elsewhere, hunattended.after_store call _⟩
  | index trades call ih =>
    obtain ⟨history, reached, hunattended⟩ := ih
    exact ⟨_, reached.index none call, hunattended.after_call call _ _⟩
  | drain trades cursor ih =>
    obtain ⟨history, reached, hunattended⟩ := ih
    exact ⟨history, reached.drain cursor, hunattended⟩
  | faults trades faults ih =>
    obtain ⟨history, reached, hunattended⟩ := ih
    exact ⟨_, reached.faults faults, hunattended.after_faults⟩

/-! ### What one step does to the pairs -/

/-- The pairs after a call that goes through are those before it and its additions, without its removals. -/
theorem IndexCall.isSome_changes (call : IndexCall K V) (g : K × V → Option Unit) (kv : K × V) :
    ((call.changes g).applyTo g kv).isSome ↔
      kv ∈ ({kv | (g kv).isSome} ∪ call.additions) \ call.removals := by
  cases call with
  | add key value =>
    by_cases hkv : kv = (key, value) <;>
      simp [changes, additions, removals, Changes.applyTo, Changes.single, hkv]
  | remove key value =>
    by_cases hkv : kv = (key, value) <;> cases hg : g (key, value) <;>
      simp [changes, additions, removals, Changes.applyTo, Changes.erasing, Changes.single, Changes.nothing,
        hkv, hg]
  | removeAll key =>
    by_cases hkey : kv.1 = key
    · cases hg : g kv <;> simp [changes, additions, removals, Changes.applyTo, Changes.erasingAll, hkey, hg]
    · simp [changes, additions, removals, Changes.applyTo, Changes.erasingAll, hkey]
  | _ => simp [changes, additions, removals, Changes.applyTo, Changes.nothing]

namespace DatabaseHistory.Unattended

variable (h : history.Unattended) (hsane : index.Sane) (reached : Database.Reaches index options history db)

include h hsane reached

theorem views : index.presentation.views (db.engine.ledger.view none) history.pairs.committed :=
  ((reached.presents hsane h.clean).holds.view nofun)

/-- What is stored is what the history has led to. -/
theorem stored_eq : index.stored db = {kv | (history.pairs.committed kv).isSome} := by
  ext kv
  exact (AnyIndex.forward_shows (h.views hsane reached)).stores_iff hsane.forward

/-- A call on the store leaves the pairs alone, a commit included. -/
theorem stored_store (call : StoreCall) (elsewhere : ∀ ns, call.target? = some ns → ns ∉ index.namespaces) :
    index.stored { db with engine := ((Engine.perform call).run db.engine).2 } = index.stored db := by
  rw [(h.after_store call _).stored_eq hsane (reached.store call elsewhere), h.stored_eq hsane reached]
  show {kv | ((history.pairs.after? _).committed kv).isSome} = _
  rw [(h.quiet.after_elsewhere _).2]

/-- A call on the index changes the pairs as it should if it goes through, and not at all if it fails. -/
theorem stored_call (call : IndexCall K V) {outcome : Except IndexError (IndexAnswer K V)} {db' : Database}
    (hrun : (index.perform none call).run db = (outcome, db')) :
    index.stored db' = (index.stored db ∪ ifDone outcome call.additions) \ ifDone outcome call.removals := by
  have hcalled := reached.index none call
  have hstored := (h.after_call call _ _).stored_eq hsane hcalled
  rw [hrun] at hstored
  rw [hstored, h.stored_eq hsane reached]
  cases outcome with
  | error err =>
    show {kv | (history.pairs.committed kv).isSome} = _
    simp [ifDone]
  | ok answer =>
    ext kv
    exact call.isSome_changes history.pairs.committed kv

/-- What counters notice of a call is what becomes of the pairs. -/
theorem noted {id : MetricsId} (hmetrics : index.forward.options.metrics = some id) (call : IndexCall K V)
    {outcome : Except IndexError (IndexAnswer K V)} {db' : Database}
    (hrun : (index.perform none call).run db = (outcome, db')) :
    call.Noted id (index.stored db) outcome db db' := by
  rw [h.stored_eq hsane reached]
  exact AnyIndex.perform_noted hsane hmetrics (h.views hsane reached) call hrun

end DatabaseHistory.Unattended

end Histories

/-! ### The balance -/

/-- What a call does not remove it may add, and the other way round. -/
theorem IndexCall.additions_inter_removals (call : IndexCall K V) (outcome : Except IndexError α) :
    ifDone outcome call.additions ∩ ifDone outcome call.removals = ∅ := by
  cases outcome <;> cases call <;> simp [ifDone, additions, removals]

/-- The pairs that have come, and those that have gone. -/
theorem encard_turnover {β : Type} {stored additions removals : Set β} (h : additions ∩ removals = ∅) :
    ((stored ∪ additions) \ removals).encard + (stored ∩ removals).encard =
      stored.encard + (additions \ stored).encard := by
  have hremovals : (stored ∪ additions) ∩ removals = stored ∩ removals := by
    rw [Set.union_inter_distrib_right, h, Set.union_empty]
  calc ((stored ∪ additions) \ removals).encard + (stored ∩ removals).encard
      = (stored ∪ additions).encard := by rw [← hremovals, Set.encard_sdiff_add_encard_inter]
    _ = (additions \ stored).encard + stored.encard := by rw [Set.encard_sdiff_add_encard, Set.union_comm]
    _ = stored.encard + (additions \ stored).encard := add_comm _ _

section Balance

variable {index : AnyIndex K V} {id : MetricsId} {options : StoreOptions} {turnover : Turnover}
  {db db' : Database} {call : IndexCall K V} {outcome : Except IndexError (IndexAnswer K V)}

/-- Counters agree with the books, and with what is stored. -/
structure Balanced (index : AnyIndex K V) (id : MetricsId) (turnover : Turnover) (db : Database) : Prop where
  added : (db.counters id).added = turnover.added
  removed : (db.counters id).removed = turnover.departed
  stored : (index.stored db).encard + (db.counters id).removed = turnover.arrived

/-- What counters do not notice, and what leaves the pairs alone, keeps the balance. -/
theorem Balanced.kept (h : Balanced index id turnover db) (hgrows : Database.Grows id db 0 0 db')
    (hstored : index.stored db' = index.stored db) : Balanced index id turnover db' := by
  obtain ⟨hadded, hremoved⟩ := hgrows
  rw [Nat.add_zero] at hadded hremoved
  exact ⟨hadded ▸ h.added, hremoved ▸ h.removed, hstored ▸ hremoved ▸ h.stored⟩

/-- A call keeps the balance if its additions and removals are noticed. -/
theorem Balanced.called {call : IndexCall K V} {outcome : Except IndexError α}
    (h : Balanced index id turnover db) (hnoted : call.Noted id (index.stored db) outcome db db')
    (hstored : index.stored db' =
      (index.stored db ∪ ifDone outcome call.additions) \ ifDone outcome call.removals) :
    Balanced index id (turnover.after call outcome (index.stored db) (index.stored db')) db' := by
  obtain ⟨added, removed, ⟨hadded, hremoved⟩, hadditions, hremovals⟩ := hnoted
  have hdeparted : index.stored db \ index.stored db' = index.stored db ∩ ifDone outcome call.removals := by
    rw [hstored, Set.sdiff_sdiff_right, Set.sdiff_eq_empty.2 Set.subset_union_left, Set.empty_union]
  refine ⟨?_, ?_, ?_⟩
  · show ((db'.counters id).added : ℕ∞) = turnover.added + (ifDone outcome call.additions).encard
    rw [hadded, Nat.cast_add, h.added, hadditions]
  · show ((db'.counters id).removed : ℕ∞) = turnover.departed + (index.stored db \ index.stored db').encard
    rw [hdeparted, hremovals, hremoved, Nat.cast_add, h.removed]
  · calc (index.stored db').encard + (db'.counters id).removed
        = (index.stored db').encard + (index.stored db ∩ ifDone outcome call.removals).encard +
            (db.counters id).removed := by
          rw [hremovals, hremoved, Nat.cast_add, add_assoc, add_comm (removed : ℕ∞)]
      _ = (index.stored db).encard + (ifDone outcome call.additions \ index.stored db).encard +
            (db.counters id).removed := by rw [hstored, encard_turnover (call.additions_inter_removals outcome)]
      _ = turnover.arrived + (ifDone outcome call.additions \ index.stored db).encard := by
          rw [add_right_comm, h.stored]

/-- Along a run outside of transactions, the counters of an index agree with the books. -/
theorem Database.Trades.balanced (hsane : index.Sane) (hmetrics : index.forward.options.metrics = some id)
    (trades : Database.Trades index options turnover db) : Balanced index id turnover db := by
  classical
  induction trades with
  | start =>
    have hstored : index.stored (.ofOptions options) = ∅ := by
      rw [DatabaseHistory.unattended_nil.stored_eq hsane .start]
      exact Set.eq_empty_of_forall_notMem nofun
    refine ⟨rfl, rfl, ?_⟩
    rw [hstored, Set.encard_empty]
    rfl
  | store trades call elsewhere ih =>
    obtain ⟨history, reached, hunattended⟩ := trades.exists_history
    exact ih.kept ⟨rfl, rfl⟩ (hunattended.stored_store hsane reached call elsewhere)
  | index trades call ih =>
    obtain ⟨history, reached, hunattended⟩ := trades.exists_history
    exact ih.called (hunattended.noted hsane reached hmetrics call rfl)
      (hunattended.stored_call hsane reached call rfl)
  | @drain turnover db trades α cursor ih =>
    have hlasting := Database.lasting_noticed id (db.counters id).added (db.counters id).removed
    refine ih.kept (cursor.collect_upholds hlasting db ⟨rfl, rfl⟩).1 ?_
    unfold AnyIndex.stored
    rw [(cursor.collect_idle db).ledger_eq]
  | faults trades faults ih => exact ih.kept ⟨rfl, rfl⟩ rfl

/-- Along a run in which an index is called outside of transactions, with any faults at any time, its counters
tell what has become of its pairs. As many additions are counted as calls to add a pair have gone through, and as
many removals as pairs have been there before a call and not after it. So the number of the pairs that are stored,
and of the removals, is that of the additions of pairs that were not there. The reverse half of a two-way index
stores the same pairs, of which each counts once. A call that fails counts nothing, and changes no pairs. -/
theorem Database.Trades.counters_balance (hsane : index.Sane)
    (hmetrics : index.forward.options.metrics = some id)
    (trades : Database.Trades index options turnover db) :
    Balanced index id turnover db ∧
      (∀ reverse, index.reverse? = some reverse → ∀ key value,
        (key, value) ∈ index.stored db ↔ reverse.Stores (db.engine.ledger.view none) value key) ∧
      ∀ (call : IndexCall K V) (err : IndexError) (db' : Database),
        (index.perform none call).run db = (.error err, db') →
        Database.Noticed id (db.counters id).added (db.counters id).removed db' ∧
          index.stored db' = index.stored db := by
  classical
  obtain ⟨history, reached, hunattended⟩ := trades.exists_history
  have hcontext : ∀ id, (none : Context) = some id → ¬history.Tainted id := nofun
  refine ⟨trades.balanced hsane hmetrics, fun reverse hreverse key value => ?_,
    fun call err db' hrun => ⟨?_, ?_⟩⟩
  · exact reached.stores_iff hsane hunattended.clean hcontext hreverse key value
  · obtain ⟨added, removed, hgrows, hadditions, hremovals⟩ :=
      hunattended.noted hsane reached hmetrics call hrun
    -- what has failed has neither additions nor removals
    simp only [ifDone, Set.inter_empty, Set.encard_empty] at hadditions hremovals
    obtain rfl : added = 0 := by exact_mod_cast hadditions.symm
    obtain rfl : removed = 0 := by exact_mod_cast hremovals.symm
    exact hgrows
  · rw [hunattended.stored_call hsane reached call hrun]
    simp [ifDone]

end Balance

/-- A two-way index to which a pair was added twice, and from which one was removed by itself, an absent one too,
and another one with its key. A commit has failed on the way, and a deletion is going to. -/
theorem Database.Trades.counters_balance_of_failures :
    ∃ (index : AnyIndex UInt64 UInt64) (turnover : Turnover) (db : Database),
      Database.Trades index {} turnover db ∧ index.Sane ∧ index.forward.options.metrics = some 0 ∧
      turnover.added = 4 ∧ turnover.departed = 2 ∧ turnover.arrived = 3 ∧
      (index.stored db).encard = 1 ∧ (2, 10) ∈ index.stored db ∧
      ((index.perform none (.remove 2 10)).run db).1.isOk = false ∧
      index.stored ((index.perform none (.remove 2 10)).run db).2 = index.stored db := by
  let halves : TwoWayIndex UInt64 UInt64 :=
    .create "pairs" "forward" "reverse" .unsigned .unsigned { metrics := some 0 }
  let index : AnyIndex UInt64 UInt64 := .twoWay halves
  obtain ⟨turnover, db, trades, hadded, hremoved, hstored, hcount, hfails⟩ : ∃ turnover db,
      Database.Trades index {} turnover db ∧ (db.counters 0).added = 4 ∧ (db.counters 0).removed = 2 ∧
        index.forward.Stores (db.engine.ledger.view none) 2 10 ∧
        ((halves.forward.count none).run db).1.toOption = some 1 ∧
        ((index.perform none (.remove 2 10)).run db).1.isOk = false := by
    have hempty : Database.Trades index {} {} (.ofOptions {}) := .start
    have hspaces := (hempty.store (.createNamespace "forward") (by rintro _ ⟨⟩)).store
      (.createNamespace "reverse") (by rintro _ ⟨⟩)
    have hadded := (((hspaces.index (.add 1 10)).index (.add 1 10)).index (.add 1 20)).index (.add 2 10)
    have hfailed := (hadded.faults (FaultPlan.healthy.arm .commit 0 1)).index (.add 3 30)
    have hremoved := ((hfailed.index (.remove 1 10)).index (.remove 9 9)).index (.removeAll 1)
    have hfaulty := hremoved.faults (FaultPlan.healthy.arm .delete 0 1)
    exact ⟨_, _, hfaulty, by decide +kernel, by decide +kernel, by decide +kernel, by decide +kernel,
      by decide +kernel⟩
  have hsane : index.Sane :=
    TwoWayIndex.sane_create Codec.unsigned_inverts Codec.unsigned_inverts (by decide)
  obtain ⟨hbalanced, -, hfailures⟩ := trades.counters_balance hsane rfl
  -- the pairs that are stored are counted by scanning them
  have hone : (index.stored db).encard = 1 := by
    obtain ⟨history, reached, hunattended⟩ := trades.exists_history
    have hpresents := reached.presents hsane hunattended.clean
    have honly := (AnyIndex.forward_shows (hunattended.views hsane reached)).onlyEntries hsane.forward
    have htells : Tells True index.namespaces none db (halves.forward.count none) (index.stored db).encard :=
      Index.tells_count hsane.forward honly hpresents.sound index.forward_mem
    rcases hrun : (halves.forward.count none).run db with ⟨_ | n, db'⟩
    · rw [hrun] at hcount
      cases hcount
    · rw [hrun] at hcount
      cases hcount
      exact htells.exact hrun
  have harrived := hbalanced.stored
  rw [hone, hremoved] at harrived
  rcases hrun : (index.perform none (.remove 2 10)).run db with ⟨err | answer, db'⟩
  · refine ⟨index, turnover, db, trades, hsane, rfl, ?_, ?_, harrived.symm, hone, hstored, ?_, ?_⟩
    · rw [← hbalanced.added, hadded]
      rfl
    · rw [← hbalanced.removed, hremoved]
      rfl
    · rw [hrun]
      rfl
    · rw [hrun]
      exact (hfailures _ err db' hrun).2
  · rw [hrun] at hfails
    cases hfails

end SecondaryIndex
