import Mathlib.Algebra.Group.Pi.Basic
import Mathlib.Algebra.Group.Prod
import SecondaryIndex.Proofs.Index.Runs
import SecondaryIndex.Proofs.Parallel.Program

/-!
# What is still to be released

Whoever opens an iterator owes its release, and whoever opens a cursor owes in addition the notice of its
closing to the counters that took notice of its opening. A `Debt` is what is owed by somebody, and debts
add up. `Database.Owes n debt db` says that the books of a database show a debt: the number of open
iterators, and for each set of counters how far the openings are ahead of the closings. The `n` counters
that were installed are those with the numbers below `n`.

A program takes over some of what is owed and hands on, with its result, what is owed then
(`Program.Accounts`). If it fails there is nobody to hand anything to, so everything that it took over or
acquired must have been released. The rest of what is owed is another's, and stays. There is one rule for
each way of building programs; the rule for an operation in a context (`Accounts.transactionally`) is
where an iterator is opened in a transaction whose commit then fails.
-/

namespace SecondaryIndex

/-- What is to be released: iterators, and for each set of counters the cursors that they count as
open. -/
abbrev Debt := Nat × (MetricsId → Nat)

namespace Debt

/-- An open iterator. -/
def iterator : Debt := (1, 0)

/-- A cursor that counters, if there are any, count as open. -/
def notice (id? : Option MetricsId) : Debt := (0, fun id => if id? = some id then 1 else 0)

/-- What is owed after an outcome: nothing if it is a failure. -/
def after {ε α : Type} (given : α → Debt) : Except ε α → Debt
  | .ok a => given a
  | .error _ => 0

end Debt

/-! ### Programs -/

namespace Program

variable {ε σ α β : Type} {Owes : Debt → σ → Prop} {taken : Debt} {given : α → Debt}
  {given' : β → Debt} {x : ExceptT ε (StateM σ) α}

/-- A program that takes over a debt and hands on what is owed then. -/
def Accounts (Owes : Debt → σ → Prop) (taken : Debt) (given : α → Debt) (x : ExceptT ε (StateM σ) α) :
    Prop :=
  ∀ rest s, Owes (taken + rest) s → Owes (Debt.after given (x.run s).1 + rest) (x.run s).2

/-- A program after which as much is owed as before. -/
abbrev Balances (Owes : Debt → σ → Prop) (x : ExceptT ε (StateM σ) α) : Prop :=
  Accounts Owes 0 (fun _ => 0) x

namespace Accounts

/-- Whoever gives a result hands on what was taken over for it. -/
theorem pure (a : α) : Accounts Owes (given a) given (Pure.pure a : ExceptT ε (StateM σ) α) :=
  fun _ _ h => h

theorem done (a : α) : Balances Owes (Pure.pure a : ExceptT ε (StateM σ) α) := fun _ _ h => h

/-- A failure right away has acquired nothing, whatever would have been handed on. -/
theorem throw (err : ε) : Accounts Owes 0 given (throw err : ExceptT ε (StateM σ) α) :=
  fun _ _ h => h

theorem get : Balances Owes (getThe σ : ExceptT ε (StateM σ) σ) := fun _ _ h => h

/-- A change that no book shows hands on what it took over. -/
theorem modify {f : σ → σ} (h : ∀ debt s, Owes debt s → Owes debt (f s)) :
    Accounts Owes taken (fun _ => taken) (modifyThe σ f : ExceptT ε (StateM σ) PUnit) :=
  fun _ _ hs => h _ _ hs

/-- What the first part hands on is what the second one takes over. If the first part fails it owes nothing any
more, and the second one is not run. -/
theorem bind {f : α → ExceptT ε (StateM σ) β} (h : Accounts Owes taken given x)
    (hf : ∀ a, Accounts Owes (given a) given' (f a)) : Accounts Owes taken given' (x >>= f) := by
  intro rest s hs
  have hx := h rest s hs
  rw [run_bind]
  rcases hrun : x.run s with ⟨err | a, t⟩
  · rw [hrun] at hx
    exact hx
  -- what the first part has given is what the second one takes
  · rw [hrun] at hx
    exact hf a rest t hx

/-- To rename a result hands on what was owed for it. -/
theorem map {f : α → β} (h : Accounts Owes taken (fun a => given' (f a)) x) :
    Accounts Owes taken given' (f <$> x) := by
  rw [map_eq_pure_bind]
  exact h.bind fun a => .pure (f a)

/-- What is done in a loop is paid for in every round. -/
theorem forM {l : List β} {act : β → ExceptT ε (StateM σ) PUnit} (h : ∀ b, Balances Owes (act b)) :
    Balances Owes (l.forM act) := by
  induction l with
  | nil => exact .done _
  | cons b l ih =>
    rw [List.forM_eq_forM, List.forM_cons, ← List.forM_eq_forM]
    exact (h b).bind fun _ => ih

/-- What is done for each member of a list is paid for each time, and if one of them fails the earlier ones have
been paid. -/
theorem mapM {l : List β} {act : β → ExceptT ε (StateM σ) α} (h : ∀ b, Balances Owes (act b)) :
    Balances Owes (l.mapM act) := by
  induction l with
  | nil => exact .done _
  | cons b l ih =>
    rw [List.mapM_cons]
    exact (h b).bind fun _ => ih.bind fun _ => .done _

/-- Whoever handles a failure starts without a debt, since whoever fails has paid. -/
theorem tryCatch {f : ε → ExceptT ε (StateM σ) α} (h : Balances Owes x)
    (hf : ∀ err, Balances Owes (f err)) : Balances Owes (tryCatch x f) := by
  intro rest s hs
  have hx := h rest s hs
  rw [run_tryCatch]
  rcases hrun : x.run s with ⟨err | a, t⟩
  · rw [hrun] at hx
    exact hf err rest t hx
  · rw [hrun] at hx
    exact hx

end Accounts

end Program

/-! ### Engines -/

namespace Engine

open Program

variable {e : Engine} {α : Type}

/-- An engine shows a debt of iterators. -/
def Owes (debt : Debt) (e : Engine) : Prop := e.store.openIterators = debt.1

/-- Whoever leaves the number of open iterators as it is owes nothing. -/
theorem balances_of_kept {x : EngineM α}
    (h : ∀ e : Engine, (x.run e).2.store.openIterators = e.store.openIterators) : Balances Owes x := by
  intro rest e he
  have hsame : Debt.after (fun _ => 0) (x.run e).1 = 0 := by
    cases (x.run e).1 <;> rfl
  rw [hsame]
  exact (h e).trans he

/-- To end a transaction leaves the open iterators to whoever has opened them. -/
theorem openIterators_ended (id : TransactionId) (tx : Transaction)
    {ending : Transaction → Store → Except EngineError Unit × Transaction × Store}
    (h : (ending tx e.store).2.2.openIterators = e.store.openIterators) :
    (e.ended id tx ending).store.openIterators = e.store.openIterators := h

/-- No iterator is opened or released by a commit, be it refused, empty or applied. -/
theorem openIterators_commit (tx : Transaction) (store : Store) :
    (tx.commit store).2.2.openIterators = store.openIterators := by
  rcases commit_cases tx store with ⟨-, hc⟩ | ⟨-, -, hc⟩ | ⟨-, -, store', happly, hc⟩ |
    ⟨-, -, err, -, hc⟩ <;> rw [hc]
  · rfl
  -- a commit that is applied changes tables, and no iterators
  · obtain ⟨-, rfl⟩ := Store.apply_eq_ok_iff.1 happly
    rfl
  · rfl

theorem openIterators_rollback (tx : Transaction) (store : Store) :
    (tx.rollback store).2.2.openIterators = store.openIterators := by
  unfold Transaction.rollback
  split <;> rfl

/-- An iterator outlives the transaction it was opened in, also one that is given up. -/
theorem openIterators_discard (e : Engine) (id : TransactionId) :
    (e.discard id).store.openIterators = e.store.openIterators := by
  rcases store_discard e id with ⟨tx, -, hstore⟩ | ⟨-, hstore⟩ <;> rw [hstore]
  rfl

theorem balances_begin : Balances Owes begin := by
  refine balances_of_kept fun e => ?_
  rw [run_begin]
  split <;> rfl

theorem balances_lookup (id : TransactionId) (ns : Namespace) (key : Bytes) :
    Balances Owes (lookup id ns key) := by
  refine balances_of_kept fun e => ?_
  rw [run_lookup]
  split <;> rfl

/-- A write is refused or buffered, and opens nothing either way. -/
theorem balances_put (id : TransactionId) (ns : Namespace) (key value : Bytes) :
    Balances Owes (put id ns key value) := by
  refine balances_of_kept fun e => ?_
  rw [run_put]
  split
  · rfl
  · cases e.writtenTo id ns key (some value) <;> rfl

theorem balances_delete (id : TransactionId) (ns : Namespace) (key : Bytes) :
    Balances Owes (delete id ns key) := by
  refine balances_of_kept fun e => ?_
  rw [run_delete]
  split
  · rfl
  · cases e.writtenTo id ns key none <;> rfl

/-- A commit owes nothing, whether it goes through or is refused. -/
theorem balances_commit (id : TransactionId) : Balances Owes (commit id) := by
  refine balances_of_kept fun e => ?_
  rw [run_commit]
  split
  · rfl
  · cases e.held id with
    | error err => rfl
    | ok tx => exact openIterators_ended id tx (openIterators_commit tx e.store)

theorem balances_rollback (id : TransactionId) : Balances Owes (rollback id) := by
  refine balances_of_kept fun e => ?_
  rw [run_rollback]
  split
  · rfl
  · cases e.held id with
    | error err => rfl
    | ok tx => exact openIterators_ended id tx (openIterators_rollback tx e.store)

theorem balances_status : Balances Owes status := balances_of_kept fun e => by rw [run_status]; rfl

theorem balances_recentTally (ns : Namespace) (range : Range) : Balances Owes (recentTally ns range) := by
  refine balances_of_kept fun e => ?_
  rw [run_recentTally]
  split <;> rfl

theorem balances_olderSize (ns : Namespace) (range : Range) : Balances Owes (olderSize ns range) := by
  refine balances_of_kept fun e => ?_
  rw [run_olderSize]
  split <;> rfl

/-- Whoever opens an iterator owes its release. -/
theorem accounts_openIterator (id : TransactionId) (ns : Namespace) (range : Range) :
    Accounts Owes 0 (fun _ => Debt.iterator) (openIterator id ns range) := by
  intro rest e he
  rw [zero_add] at he
  rw [run_openIterator]
  split
  -- a call that fails has opened nothing
  · exact he.trans (Nat.zero_add _).symm
  · cases e.keysOf id ns range with
    | error err => exact he.trans (Nat.zero_add _).symm
    | ok keys =>
      show e.store.openIterators + 1 = 1 + rest.1
      rw [he, Nat.add_comm]

end Engine

/-! ### Databases -/

namespace Counters

/-- What counts neither openings nor closings. -/
def CountsAside (count : Counters → Counters) : Prop :=
  ∀ c, (count c).opened = c.opened ∧ (count c).closed = c.closed

theorem countsAside_added : CountsAside countAdded := fun _ => ⟨rfl, rfl⟩

theorem countsAside_removed (m : Nat) : CountsAside (countRemoved m) := fun _ => ⟨rfl, rfl⟩

/-- A scan is counted apart from the cursor it was made with. -/
theorem countsAside_scan (m : Nat) : CountsAside (countScan m) := fun _ => ⟨rfl, rfl⟩

theorem countsAside_estimate : CountsAside countEstimate := fun _ => ⟨rfl, rfl⟩

end Counters

namespace Database

/-- The counters of a number; what is not installed has counted nothing. -/
def counters (db : Database) (id : MetricsId) : Counters := db.metrics.getD id {}

/-- The books of a database show a debt. -/
structure Owes (n : Nat) (debt : Debt) (db : Database) : Prop where
  iterators : db.engine.store.openIterators = debt.1
  cursors : ∀ id, (db.counters id).opened = (db.counters id).closed + debt.2 id
  installed : ∀ id, (db.metrics.get? id).isSome ↔ id < n

/-- The counters that take notice of something are installed. -/
def Installed (n : Nat) (id? : Option MetricsId) : Prop := ∀ id, id? = some id → id < n

variable {n : Nat} {debt : Debt} {db : Database} {id? : Option MetricsId} {count : Counters → Counters}

/-- What is observed is noticed by the counters of that number, and by no others. -/
theorem counters_observe (db : Database) (id? : Option MetricsId) (count : Counters → Counters)
    (id : MetricsId) :
    (db.observe id? count).counters id =
      if id? = some id then count (db.counters id) else db.counters id := by
  cases id? with
  | none => rfl
  | some j =>
    simp only [observe, counters, SortedMap.getD, SortedMap.get?_insert, Option.some.injEq]
    by_cases hj : j = id
    · subst hj
      simp
    · simp [hj]

/-- To take notice of something installs no counters. -/
theorem installed_observe (h : ∀ id, (db.metrics.get? id).isSome ↔ id < n) (hid : Installed n id?)
    (id : MetricsId) : ((db.observe id? count).metrics.get? id).isSome ↔ id < n := by
  cases id? with
  | none => exact h id
  | some j =>
    show ((db.metrics.insert j _).get? id).isSome ↔ id < n
    rw [SortedMap.get?_insert]
    split
    · next hj => simpa [← hj] using hid j rfl
    · exact h id

/-- What counts neither an opening nor a closing owes nothing. -/
theorem Owes.observe (h : db.Owes n debt) (hid : Installed n id?) (hcount : Counters.CountsAside count) :
    (db.observe id? count).Owes n debt := by
  refine ⟨?_, fun id => ?_, installed_observe h.installed hid⟩
  · rw [Cursor.observe_eq]
    exact h.iterators
  · rw [counters_observe]
    split
    · rw [(hcount _).1, (hcount _).2, h.cursors]
    · exact h.cursors id

/-- What happens in an engine apart from its iterators is in none of the books. -/
theorem Owes.withEngine {e : Engine} (h : db.Owes n debt)
    (he : e.store.openIterators = db.engine.store.openIterators) :
    Owes n debt { db with engine := e } :=
  ⟨he.trans h.iterators, h.cursors, h.installed⟩

/-- An iterator that is owed has been counted. -/
theorem Owes.openIterators_eq (h : db.Owes n (Debt.iterator + debt)) :
    db.engine.store.openIterators = debt.1 + 1 := by
  rw [h.iterators]
  exact Nat.add_comm 1 debt.1

/-- An iterator that is owed can be released, and its release never counts down from zero. -/
theorem Owes.released (h : db.Owes n (Debt.iterator + debt)) :
    (db.mapEngine Engine.releaseIterator).Owes n debt := by
  refine ⟨?_, fun id => ?_, h.installed⟩
  · show Store.countDown db.engine.store.openIterators = debt.1
    rw [h.openIterators_eq, Store.countDown_succ]
  · refine (h.cursors id).trans ?_
    show (db.counters id).closed + (0 + debt.2 id) = (db.counters id).closed + debt.2 id
    rw [Nat.zero_add]

/-- The opening of a cursor is noticed, and its closing is owed. -/
theorem Owes.opened (h : db.Owes n debt) (hid : Installed n id?) :
    (db.observe id? Counters.countOpened).Owes n (Debt.notice id? + debt) := by
  refine ⟨?_, fun id => ?_, installed_observe h.installed hid⟩
  · rw [Cursor.observe_eq]
    exact h.iterators.trans (Nat.zero_add _).symm
  · rw [counters_observe]
    show _ = _ + ((if id? = some id then 1 else 0) + debt.2 id)
    split
    · show (db.counters id).opened + 1 = (db.counters id).closed + (1 + debt.2 id)
      rw [h.cursors]
      omega
    · rw [h.cursors, Nat.zero_add]

/-- Counters that owe the closing of a cursor have counted its opening, so they are installed. -/
theorem Owes.installed_of_notice (h : db.Owes n (Debt.notice id? + debt)) : Installed n id? := by
  rintro id rfl
  refine (h.installed id).1 ?_
  have hcursors : (db.counters id).opened =
      (db.counters id).closed + ((if some id = some id then 1 else 0) + debt.2 id) := h.cursors id
  unfold counters SortedMap.getD at hcursors
  cases hget : db.metrics.get? id with
  | some counters => rfl
  | none =>
    rw [hget, if_pos rfl] at hcursors
    change 0 = 0 + (1 + debt.2 id) at hcursors
    omega

/-- The closing of a cursor whose opening was noticed is noticed. -/
theorem Owes.closed (h : db.Owes n (Debt.notice id? + debt)) :
    (db.observe id? Counters.countClosed).Owes n debt := by
  refine ⟨?_, fun id => ?_, installed_observe h.installed h.installed_of_notice⟩
  · rw [Cursor.observe_eq]
    exact h.iterators.trans (Nat.zero_add _)
  · have hcursors : (db.counters id).opened =
        (db.counters id).closed + ((if id? = some id then 1 else 0) + debt.2 id) := h.cursors id
    rw [counters_observe]
    split
    · next hid =>
      rw [if_pos hid] at hcursors
      show (db.counters id).opened = (db.counters id).closed + 1 + debt.2 id
      omega
    · next hid =>
      rw [if_neg hid] at hcursors
      omega

end Database

/-! ### Programs over a database -/

namespace Program

namespace Accounts

open IndexM

variable {α : Type} {n : Nat} {taken rest : Debt} {given : α → Debt} {id? : Option MetricsId}
  {count : Counters → Counters}

/-- What a program owes on an engine it owes on the database. -/
theorem ofEngine {x : EngineM α} (h : Accounts Engine.Owes 0 given x) (hgiven : ∀ a, (given a).2 = 0) :
    Accounts (Database.Owes n) 0 given (IndexM.ofEngine x) := by
  intro rest db hdb
  have hx := h rest db.engine hdb.iterators
  rw [run_ofEngine]
  cases houtcome : (x.run db.engine).1 with
  | error err =>
    rw [houtcome] at hx
    exact ⟨hx, hdb.cursors, hdb.installed⟩
  | ok a =>
    rw [houtcome] at hx
    refine ⟨hx, fun id => ?_, hdb.installed⟩
    show _ = _ + ((given a).2 id + rest.2 id)
    rw [hgiven]
    exact hdb.cursors id

/-- A program that balances on an engine balances on the database around it. -/
theorem engine {x : EngineM α} (h : Balances Engine.Owes x) :
    Balances (Database.Owes n) (IndexM.ofEngine x) := h.ofEngine fun _ => rfl

/-- Whether something can be encoded or not is in none of the books. -/
theorem encoding (outcome : Except EncodingError α) :
    Balances (Database.Owes n) (IndexM.ofEncoding outcome) := by
  cases outcome <;> exact fun _ _ h => h

/-- To take notice of something other than an opening or a closing balances. -/
theorem observe (hid : Database.Installed n id?) (hcount : Counters.CountsAside count) :
    Balances (Database.Owes n) (IndexM.observe id? count) := fun _ _ h => h.observe hid hcount

/-- An attempt does not fail, so what is owed besides can be handed on. -/
theorem attempt {program : IndexM α} (h : Accounts (Database.Owes n) taken given program)
    (rest : Debt) :
    Accounts (Database.Owes n) (taken + rest) (fun outcome => Debt.after given outcome + rest)
      (IndexM.attempt program) := by
  intro others db hdb
  rw [run_attempt]
  have hx := h (rest + others) db (by rwa [← add_assoc])
  rwa [← add_assoc] at hx

/-- An outcome that is told again leaves what was owed after it. -/
theorem ofOutcome (outcome : Except IndexError α) :
    Accounts (Database.Owes n) (Debt.after given outcome) given (IndexM.ofOutcome outcome) := by
  cases outcome <;> exact fun _ _ h => h

/-- To release an iterator that is owed pays for it, and leaves the rest. -/
theorem release (rest : Debt) :
    Accounts (Database.Owes n) (Debt.iterator + rest) (fun _ => rest) IndexM.releaseIterator := by
  intro others db hdb
  rw [add_assoc] at hdb
  exact hdb.released

/-- Nobody needs to release an iterator that a program was given for its duration. -/
theorem withIterator {id : TransactionId} {ns : Namespace} {range : Range}
    {program : RawIterator → IndexM α} (h : ∀ it, Balances (Database.Owes n) (program it)) :
    Balances (Database.Owes n) (IndexM.withIterator id ns range program) := by
  refine ((Engine.accounts_openIterator id ns range).ofEngine fun _ => rfl).bind fun it => ?_
  -- while the program runs the iterator is owed besides, and it is so if the program fails
  have hattempt := (h it).attempt Debt.iterator
  rw [zero_add] at hattempt
  refine hattempt.bind fun outcome => ?_
  rw [add_comm]
  exact (release _).bind fun _ => .ofOutcome outcome

/-- The end of a transaction. What the operation acquired is handed on only if the commit succeeds. -/
theorem settle (id : TransactionId) {undo : α → IndexM Unit}
    (hundo : ∀ a, Accounts (Database.Owes n) (given a) (fun _ => 0) (undo a))
    (outcome : Except IndexError α) :
    Accounts (Database.Owes n) (Debt.after given outcome) given (IndexM.settle id outcome undo) := by
  unfold IndexM.settle
  cases outcome with
  | error err =>
    have hrollback := (engine (n := n) (Engine.balances_rollback id)).attempt 0
    rw [add_zero] at hrollback
    refine hrollback.bind fun outcome => ?_
    cases outcome <;> exact .throw err
  | ok a =>
    have hcommit := (engine (n := n) (Engine.balances_commit id)).attempt (given a)
    rw [zero_add] at hcommit
    refine hcommit.bind fun outcome => ?_
    cases outcome with
    | ok _ =>
      show Accounts _ (0 + given a) _ _
      rw [zero_add]
      exact .pure a
    | error err =>
      -- nobody is given what the operation has acquired, so it is taken back
      show Accounts _ (0 + given a) _ _
      rw [zero_add]
      exact (hundo a).bind fun _ => .throw err

/-- An operation in a context. -/
theorem transactionally {ctx : Context} {operation : TransactionId → IndexM α} {undo : α → IndexM Unit}
    (h : ∀ id, Accounts (Database.Owes n) 0 given (operation id))
    (hundo : ∀ a, Accounts (Database.Owes n) (given a) (fun _ => 0) (undo a)) :
    Accounts (Database.Owes n) 0 given (IndexM.transactionally ctx operation undo) := by
  cases ctx with
  | some id => exact h id
  | none =>
    refine (engine Engine.balances_begin).bind fun id => ?_
    have hoperation := (h id).attempt 0
    simp only [add_zero] at hoperation
    refine hoperation.bind fun outcome => ?_
    have hsettle := (settle id hundo outcome).attempt 0
    simp only [add_zero] at hsettle
    refine hsettle.bind fun result => ?_
    -- giving the transaction up releases nothing
    exact (modify fun _ _ hdb => hdb.withEngine (Engine.openIterators_discard _ id)).bind fun _ =>
      .ofOutcome result

/-- An operation that balances in every transaction does so in any context. Outside of transactions its own one is
begun and given up around it. -/
theorem within {ctx : Context} {operation : TransactionId → IndexM α}
    (h : ∀ id, Balances (Database.Owes n) (operation id)) :
    Balances (Database.Owes n) (IndexM.within ctx operation) :=
  transactionally h fun _ => .done _

end Accounts

end Program

end SecondaryIndex
