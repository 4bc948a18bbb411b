import SecondaryIndex.Proofs.Index.Confined

/-!
# Histories of a database with an index

A database holds an index whose namespaces are written through the index only. `Database.Reaches` is a
run of such a database from an empty store: calls on the store, calls on the index in any contexts,
cursors that are drained, and changes of the faults to come, in any order. The history lists the calls
with their answers, newest first.

`DatabaseHistory.pairs` reads a ledger of pairs off a history. It is the model of the index: what was
called and whether it succeeded decides what is committed and what each open transaction has written.
A transaction in which a call has failed when it had written something already is *tainted*
(`DatabaseHistory.Tainted`), since it may hold half of what the call should have written. A call that
was refused before its first write taints nothing, and neither does one that only reads.

The invariant of a run is `Presents`. The ledger of the engine presents the ledger of pairs, as far as
transactions are not tainted. It is kept as long as no tainted transaction is committed
(`DatabaseHistory.Clean`), and `Presents.call` is the step that matters: a call on the index sees what
it should, so what it writes presents what the model writes.
-/

namespace SecondaryIndex

/-- What an unfinished transaction has buffered. -/
def Engine.buffered (e : Engine) (id : TransactionId) : Option WriteSet :=
  (e.transactions.get? id).bind fun tx => if tx.finished then none else some tx.writes

/-- Whether the transaction of a context has buffered something else in a later engine. -/
def Engine.wroteIn (e e' : Engine) : Context → Bool
  | none => false
  | some id => decide (e'.buffered id ≠ e.buffered id)

/-- What happened to a database with an index. -/
inductive DatabaseEvent (K V : Type)
  | store (call : StoreCall) (answer : Except EngineError StoreAnswer)
  /-- The index was called. It is recorded whether the call has left writes in the transaction of its context. -/
  | index (ctx : Context) (call : IndexCall K V) (answer : Except IndexError (IndexAnswer K V))
    (wrote : Bool)
  /-- The faults to come were chosen. -/
  | faults

/-- What happened to a database with an index, newest event first. -/
abbrev DatabaseHistory (K V : Type) := List (DatabaseEvent K V)

/-- The namespace that a call on a store writes to. -/
def StoreCall.target? : StoreCall → Option Namespace
  | .put _ ns _ _ => some ns
  | .delete _ ns _ => some ns
  | _ => none

/-- An event as another ledger sees it that has none of the keys: writes are left out. -/
def LedgerEvent.elsewhere? {κ α κ' α' : Type} : LedgerEvent κ α → Option (LedgerEvent κ' α')
  | .opens id => some (.opens id)
  | .writes _ _ _ => none
  | .commits id => some (.commits id)
  | .ends id => some (.ends id)

/-- Runs of a database with an index from an empty store. -/
inductive Database.Reaches {K V : Type} (index : AnyIndex K V) (options : StoreOptions) :
    DatabaseHistory K V → Database → Prop
  | start : Reaches index options [] (.ofOptions options)
  | store {history : DatabaseHistory K V} {db : Database} (reached : Reaches index options history db)
    (call : StoreCall) (elsewhere : ∀ ns, call.target? = some ns → ns ∉ index.namespaces) :
    Reaches index options (.store call ((Engine.perform call).run db.engine).1 :: history)
      { db with engine := ((Engine.perform call).run db.engine).2 }
  | index {history : DatabaseHistory K V} {db : Database} (reached : Reaches index options history db)
    (ctx : Context) (call : IndexCall K V) :
    Reaches index options (.index ctx call ((index.perform ctx call).run db).1
        (db.engine.wroteIn ((index.perform ctx call).run db).2.engine ctx) :: history)
      ((index.perform ctx call).run db).2
  | drain {history : DatabaseHistory K V} {db : Database} (reached : Reaches index options history db)
    {α : Type} (cursor : Cursor α) : Reaches index options history (cursor.collect.run db).2
  | faults {history : DatabaseHistory K V} {db : Database} (reached : Reaches index options history db)
    (faults : FaultPlan) :
    Reaches index options (.faults :: history) { db with engine := { db.engine with faults } }

namespace DatabaseHistory

variable {K V : Type}

/-- The pairs that a history leads to, as the contexts of an index see them. -/
def pairs [DecidableEq K] [DecidableEq V] : DatabaseHistory K V → Ledger (K × V) Unit
  | [] => .empty
  | .store call answer :: older =>
    (pairs older).after? ((call.event? answer).bind LedgerEvent.elsewhere?)
  | .index ctx call (.ok _) _ :: older =>
    (pairs older).write (call.changes ((pairs older).view ctx)) ctx
  | .index _ _ (.error _) _ :: older => pairs older
  | .faults :: older => pairs older

/-- Whether a call on the index has failed in a transaction since it was begun, and has left writes in it. -/
def Tainted : DatabaseHistory K V → TransactionId → Prop
  | [], _ => False
  | .store call answer :: older, id => call.event? answer ≠ some (.opens id) ∧ Tainted older id
  | .index _ _ (.ok _) _ :: older, id => Tainted older id
  | .index ctx _ (.error _) wrote :: older, id => wrote = true ∧ ctx = some id ∨ Tainted older id
  | .faults :: older, id => Tainted older id

/-- Whether no transaction was committed in which a call on the index had failed and had left writes. -/
def Clean : DatabaseHistory K V → Prop
  | [] => True
  | .store call answer :: older =>
    (∀ id, call.event? answer = some (.commits id) → ¬ Tainted older id) ∧ Clean older
  | .index _ _ _ _ :: older => Clean older
  | .faults :: older => Clean older

instance decidableTainted : (history : DatabaseHistory K V) → (id : TransactionId) →
    Decidable (Tainted history id)
  | [], _ => .isFalse id
  | .store _ _ :: older, id =>
    have := decidableTainted older id
    inferInstanceAs (Decidable (_ ∧ _))
  | .index _ _ (.ok _) _ :: older, id => decidableTainted older id
  | .index _ _ (.error _) _ :: older, id =>
    have := decidableTainted older id
    inferInstanceAs (Decidable (_ ∧ _ ∨ _))
  | .faults :: older, id => decidableTainted older id

instance decidableClean : (history : DatabaseHistory K V) → Decidable (Clean history)
  | [] => .isTrue trivial
  | .store call answer :: older =>
    have := decidableClean older
    have : Decidable (∀ id, call.event? answer = some (.commits id) → ¬ Tainted older id) :=
      match call.event? answer with
      | some (.commits id) => decidable_of_iff (¬ Tainted older id)
        ⟨fun hnot _ hid => LedgerEvent.commits.inj (Option.some.inj hid) ▸ hnot, fun h => h id rfl⟩
      | some (.opens _) | some (.writes _ _ _) | some (.ends _) | none => .isTrue nofun
    inferInstanceAs (Decidable (_ ∧ _))
  | .index _ _ _ _ :: older => decidableClean older
  | .faults :: older => decidableClean older

end DatabaseHistory

/-! ### The invariant of a run -/

section Invariant

variable {K V : Type} [DecidableEq K] [DecidableEq V] {index : AnyIndex K V}
  {history : DatabaseHistory K V} {db : Database}

/-- What a database holds presents the pairs of its history, apart from tainted transactions. -/
structure Presents (index : AnyIndex K V) (history : DatabaseHistory K V) (db : Database) : Prop where
  sound : db.engine.Sound
  holds : index.presentation.Holds (fun id => ¬ history.Tainted id) db.engine.ledger history.pairs

omit [DecidableEq K] [DecidableEq V] in
theorem AnyIndex.views_empty (index : AnyIndex K V) :
    index.presentation.views (fun _ => none) fun _ => none := by
  have hshows {K V : Type} (index : Index K V) : index.Shows (fun _ => none) fun _ => none := by
    refine ⟨fun p => ?_, fun kv hkv => ?_⟩
    · cases index.codec.pair? p <;> rfl
    · cases hkv
  cases index with
  | oneWay index => exact hshows index
  | twoWay index => exact ⟨hshows index.forward, hshows index.reverse⟩

omit [DecidableEq K] [DecidableEq V] in
/-- Writes that spare the namespaces of an index come to no pairs. -/
theorem AnyIndex.changes_of_spared (index : AnyIndex K V) {c : Changes Place Bytes}
    (hspared : ∀ ns ∈ index.namespaces, ∀ p, c (ns, p) = none) :
    index.presentation.changes c .nothing := by
  cases index with
  | oneWay index => exact .of_elsewhere (hspared _ List.mem_cons_self)
  | twoWay index =>
    exact ⟨.of_elsewhere (hspared _ List.mem_cons_self),
      .of_elsewhere (hspared _ (List.mem_cons_of_mem _ List.mem_cons_self))⟩

omit [DecidableEq K] [DecidableEq V] in
theorem AnyIndex.changes_elsewhere (index : AnyIndex K V) {ns : Namespace}
    (hns : ns ∉ index.namespaces) (key : Bytes) (slot : Slot) :
    index.presentation.changes (.single (ns, key) slot) .nothing := by
  refine index.changes_of_spared fun ns' hns' p => ?_
  have hne : ns' ≠ ns := fun heq => hns (heq ▸ hns')
  simp [Changes.single, hne]

theorem presents_start (options : StoreOptions) : Presents index [] (.ofOptions options) where
  sound := Engine.sound_ofOptions options
  holds := by
    refine ⟨index.views_empty, fun _ => rfl, fun _ hc => ?_⟩
    cases hc

/-- The namespace of a write is the target of its call. -/
theorem StoreCall.target?_of_writes {call : StoreCall} {answer : Except EngineError StoreAnswer}
    {id : TransactionId} {x : Place} {slot : Option Bytes}
    (h : call.event? answer = some (.writes id x slot)) : call.target? = some x.1 := by
  unfold StoreCall.event? at h
  split at h <;> cases h <;> rfl

/-- A move of the engine that does not write to the namespaces of the index. Only what is committed
must be trusted, and only what is begun may come to be. -/
theorem AnyIndex.holds_move {trusted trusted' : TransactionId → Prop} {e e' : Engine}
    {pairs : Ledger (K × V) Unit} {event? : Option (LedgerEvent Place Bytes)}
    (h : index.presentation.Holds trusted e.ledger pairs) (hmove : Engine.Moves e event? e')
    (helsewhere : ∀ id x slot, event? = some (.writes id x slot) → x.1 ∉ index.namespaces)
    (hcommits : ∀ id, event? = some (.commits id) → trusted id)
    (hsub : ∀ id, event? ≠ some (.opens id) → trusted' id → trusted id) :
    index.presentation.Holds trusted' e'.ledger (pairs.after? (event?.bind LedgerEvent.elsewhere?)) := by
  rw [hmove.ledger_eq]
  cases event? with
  | none => exact h.mono fun id => hsub id (by simp)
  | some event =>
    cases event with
    | opens id => exact h.begin id fun j hj => hsub j (by simpa using hj.symm)
    | writes id x slot =>
      obtain ⟨ns, key⟩ := x
      have hwrite := h.write (index.changes_elsewhere (helsewhere id _ slot rfl) key slot) (some id)
      rw [Ledger.write_nothing] at hwrite
      exact hwrite.mono fun j => hsub j (by simp)
    | commits id => exact h.commit (hcommits id rfl) fun j _ => hsub j (by simp)
    | ends id => exact h.close id fun j _ => hsub j (by simp)

/-- A call on the store, which does not write to the pairs. -/
theorem Presents.store (h : Presents index history db) (call : StoreCall)
    (helsewhere : ∀ ns, call.target? = some ns → ns ∉ index.namespaces)
    (hclean : ∀ id, call.event? ((Engine.perform call).run db.engine).1 = some (.commits id) →
      ¬ history.Tainted id) :
    Presents index (.store call ((Engine.perform call).run db.engine).1 :: history)
      { db with engine := ((Engine.perform call).run db.engine).2 } := by
  have hmove := Engine.moves_perform db.engine call
  refine ⟨h.sound.move hmove, AnyIndex.holds_move h.holds hmove ?_ hclean ?_⟩
  · intro id x slot hevent
    exact helsewhere x.1 (StoreCall.target?_of_writes hevent)
  · -- apart from its own transaction, an event taints nothing and clears nothing
    exact fun id hopens ht htainted => ht ⟨hopens, htainted⟩

omit [DecidableEq K] [DecidableEq V] in
theorem Engine.pending_eq_buffered (e : Engine) (id : TransactionId) :
    e.ledger.pending id = (e.buffered id).map WriteSet.changes := by
  unfold buffered
  rw [ledger_pending]
  cases e.transactions.get? id with
  | none => rfl
  | some tx =>
    simp only [Option.bind_some]
    split <;> rfl

omit [DecidableEq K] [DecidableEq V] in
/-- Writes that have left nothing in their transaction have changed nothing. -/
theorem Engine.ledger_eq_of_not_wroteIn {e e' : Engine} {id : TransactionId} {c : Changes Place Bytes}
    (hledger : e'.ledger = e.ledger.write c (some id)) (hwrote : e.wroteIn e' (some id) = false) :
    e'.ledger = e.ledger := by
  have hbuffered : e'.buffered id = e.buffered id := of_not_not (of_decide_eq_false hwrote)
  have hcommitted : e'.ledger.committed = e.ledger.committed := by
    rw [hledger]
    rfl
  refine Ledger.ext hcommitted (funext fun j => ?_)
  by_cases hj : j = id
  · rw [hj, pending_eq_buffered, pending_eq_buffered, hbuffered]
  · rw [hledger, Ledger.write_some_pending, if_neg hj]

/-- A call on the index in a context where nothing has failed. -/
theorem Presents.index_of_trusted (h : Presents index history db) (hsane : index.Sane) {ctx : Context}
    (htrusted : ∀ id, ctx = some id → ¬ history.Tainted id) (call : IndexCall K V) :
    Presents index (.index ctx call ((index.perform ctx call).run db).1
        (db.engine.wroteIn ((index.perform ctx call).run db).2.engine ctx) :: history)
      ((index.perform ctx call).run db).2 := by
  obtain ⟨hpersists, hok, herror, -⟩ :=
    AnyIndex.perform_settles hsane (h.holds.view htrusted) call db h.sound fun _ => rfl
  refine ⟨hpersists.sound h.sound, ?_⟩
  -- a call that succeeded wrote what it should; one that failed taints its transaction if it wrote anything
  generalize (index.perform ctx call).run db = result at hok herror ⊢
  obtain ⟨outcome, db'⟩ := result
  cases outcome with
  | ok answer =>
    obtain ⟨c, hc, hledger⟩ := hok answer rfl
    show index.presentation.Holds _ db'.engine.ledger _
    rw [hledger]
    exact h.holds.write hc ctx
  | error err =>
    show index.presentation.Holds _ db'.engine.ledger history.pairs
    have hkept (hsame : db'.engine.ledger = db.engine.ledger) :
        index.presentation.Holds (fun j => ¬ DatabaseHistory.Tainted (.index ctx call (.error err)
          (db.engine.wroteIn db'.engine ctx) :: history) j) db'.engine.ledger history.pairs := by
      rw [hsame]
      exact h.holds.mono fun j ht htainted => ht (.inr htainted)
    rcases herror err rfl with hsame | ⟨id, c, rfl, -, -, -, hledger⟩
    · exact hkept hsame
    · cases hwrote : db.engine.wroteIn db'.engine (some id) with
      | false =>
        rw [hwrote] at hkept
        exact hkept (Engine.ledger_eq_of_not_wroteIn hledger hwrote)
      | true =>
        -- the call has left half of its writes, perhaps, which nobody trusts any more
        have hrest (j : TransactionId)
            (ht : ¬ DatabaseHistory.Tainted (.index (some id) call (.error err) true :: history) j) :
            j ≠ id ∧ ¬ history.Tainted j :=
          ⟨fun hj => ht (.inl ⟨rfl, congrArg some hj.symm⟩), fun htainted => ht (.inr htainted)⟩
        have hdistrust := h.holds.distrust c .nothing id hrest
        rw [Ledger.write_nothing] at hdistrust
        rw [hledger]
        exact hdistrust

/-- A call on the index in a tainted transaction stays there. -/
theorem Presents.index_of_tainted (h : Presents index history db) {id : TransactionId}
    (htainted : history.Tainted id) (call : IndexCall K V) :
    Presents index (.index (some id) call ((index.perform (some id) call).run db).1
        (db.engine.wroteIn ((index.perform (some id) call).run db).2.engine (some id)) :: history)
      ((index.perform (some id) call).run db).2 := by
  have hworks := index.perform_confined id call db
  obtain ⟨c, -, hledger⟩ := hworks.exists_changes
  refine ⟨hworks.steady.sound h.sound, ?_⟩
  generalize db.engine.wroteIn ((index.perform (some id) call).run db).2.engine (some id) = wrote
  rw [hledger]
  generalize ((index.perform (some id) call).run db).1 = outcome
  -- the model may count the call or not: nobody looks at this transaction any more
  cases outcome with
  | ok answer =>
    refine h.holds.distrust c _ id fun j ht => ⟨?_, ht⟩
    rintro rfl
    exact ht htainted
  | error err =>
    have hrest (j : TransactionId)
        (ht : ¬ DatabaseHistory.Tainted (.index (some id) call (.error err) wrote :: history) j) :
        j ≠ id ∧ ¬ history.Tainted j :=
      ⟨fun hj => ht (.inr (hj ▸ htainted)), fun ht' => ht (.inr ht')⟩
    have hdistrust := h.holds.distrust c .nothing id hrest
    rw [Ledger.write_nothing] at hdistrust
    exact hdistrust

theorem Presents.call (h : Presents index history db) (hsane : index.Sane) (ctx : Context)
    (call : IndexCall K V) :
    Presents index (.index ctx call ((index.perform ctx call).run db).1
        (db.engine.wroteIn ((index.perform ctx call).run db).2.engine ctx) :: history)
      ((index.perform ctx call).run db).2 := by
  by_cases htrusted : ∀ id, ctx = some id → ¬ history.Tainted id
  · exact h.index_of_trusted hsane htrusted call
  · obtain ⟨id, rfl, htainted⟩ : ∃ id, ctx = some id ∧ history.Tainted id := by
      by_contra hnot
      exact htrusted fun id hctx ht => hnot ⟨id, hctx, ht⟩
    exact h.index_of_tainted htainted call

/-- Wherever a run leads in which no tainted transaction was committed, the database presents the
pairs of its history. -/
theorem Database.Reaches.presents {options : StoreOptions}
    (h : Database.Reaches index options history db) (hsane : index.Sane) (hclean : history.Clean) :
    Presents index history db := by
  -- along the run, whose history is clean at every point because it is in the end
  induction h with
  | start => exact presents_start options
  | store reached call elsewhere ih => exact (ih hclean.2).store call elsewhere hclean.1
  | index reached ctx call ih => exact (ih hclean).call hsane ctx call
  | @drain history db reached α cursor ih =>
    have hidles := cursor.collect_idle db
    refine ⟨hidles.steady.sound (ih hclean).sound, ?_⟩
    rw [hidles.ledger_eq]
    exact (ih hclean).holds
  | faults reached faults ih => exact ⟨(ih hclean).sound.withFaults faults, (ih hclean).holds⟩

end Invariant

end SecondaryIndex
