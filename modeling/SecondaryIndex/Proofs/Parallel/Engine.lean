import SecondaryIndex.Proofs.Engine.Once
import SecondaryIndex.Proofs.Parallel.Program
import SecondaryIndex.Proofs.Store.Statistics

/-!
# Two engines side by side

What makes two runs alike is not the same for every question. A `Comparison` is one way to compare
them: it says which engines count as alike and under which number a transaction of the first run goes
in the second, and it carries what has to be known of alike engines: they answer every call alike, and
stay alike when the same is done to both. Sizes and counters need not be compared. The second engine may
have one transaction more, in which anything may be done as long as nothing is committed
(`Engine.Aside`).

From this each engine call of the one run is in step with the same call of the other
(`Comparison.tracks_begin` and so on). Where sizes are not compared, one of two engines may be asked for
a size that is too large while the other is not; the calls that ask for sizes are in step unless that
happens (`Comparison.Stops`).
-/

namespace SecondaryIndex

/-- The records of each namespace that exists. -/
def Store.records (store : Store) (ns : Namespace) : Option (Bytes → Option Bytes) :=
  (store.tables.get? ns).map Table.get?

namespace Engine

variable {e e' e'' : Engine} {id : TransactionId}

/-- Nothing happened but to one transaction, which was not begun and has committed nothing. -/
structure Aside (id : TransactionId) (e e' : Engine) : Prop extends Persists e e' where
  beside : e.Beside id e'
  next : e'.nextTransaction = e.nextTransaction

/-- What happens to one transaction alone may go on happening to it. -/
theorem Aside.trans (h : e.Aside id e') (h' : e'.Aside id e'') : e.Aside id e'' :=
  ⟨h.toPersists.trans h'.toPersists, h.beside.trans h'.beside, h'.next.trans h.next⟩

/-- To work in a transaction is to leave the rest of the engine alone. -/
theorem Works.aside {allowed : Allowance} (h : Works allowed id e e') : e.Aside id e' :=
  ⟨h.steady.toPersists, h.keeps.beside, h.keeps.nextTransaction⟩

/-- What no transaction notices is noticed by all but one of them even less. -/
theorem Idles.aside (h : e.Idles e') : e.Aside id e' :=
  ⟨h.steady.toPersists, h.keeps.beside, h.nextTransaction⟩

/-- To give a transaction up leaves the rest of the engine alone. -/
theorem aside_discard (e : Engine) (id : TransactionId) : e.Aside id (e.discard id) := by
  refine ⟨(Moves.drops id).persists, beside_discard e id, ?_⟩
  unfold discard
  split <;> rfl

/-- To roll a transaction back leaves the rest of the engine alone. -/
theorem aside_rollback (e : Engine) (id : TransactionId) : e.Aside id ((rollback id).run e).2 := by
  refine ⟨(rollback_ends e id).1, beside_rollback e id, ?_⟩
  rw [run_rollback]
  split
  · rfl
  · cases e.held id <;> rfl

/-- A commit that fails, or that has nothing to commit. -/
theorem aside_commit (e : Engine) (id : TransactionId)
    (h : ((commit id).run e).1 = .ok () → ∀ tx, e.HasOpen id tx → tx.changes = .nothing) :
    e.Aside id ((commit id).run e).2 := by
  refine ⟨(commit_ends e id).1, ?_, ?_⟩
  · cases hheld : e.held id with
    | error err =>
      rw [run_commit, hheld]
      split <;> exact beside_drawn e .commit
    | ok tx =>
      have hget := held_eq_ok_iff.1 hheld
      cases hfin : tx.finished with
      | true =>
        -- it has ended before, so the commit only reports that
        rw [run_commit, hheld]
        split
        · exact beside_drawn e .commit
        · refine (beside_drawn e .commit).trans (beside_ended ⟨e.store.active, ?_⟩)
          simp [Transaction.commit, hfin]
      | false =>
        rcases commit_once ⟨hget, hfin⟩ with ⟨-, -, hbeside⟩ | ⟨hok, hsomething, -⟩ | ⟨-, hbeside⟩
        · exact hbeside
        · exact absurd (h hok tx ⟨hget, hfin⟩) hsomething
        · exact hbeside
  · rw [run_commit]
    split
    · rfl
    · cases e.held id <;> rfl

end Engine

/-- A way to compare two runs. -/
structure Comparison where
  /-- Which engines count as alike. -/
  engines : Engine → Engine → Prop
  /-- The number under which a transaction of the first run goes in the second. -/
  rename : TransactionId → TransactionId
  /-- A transaction that only the second run has. -/
  extra : Option TransactionId
  /-- Whether tallies and weights have to be the same. -/
  sizes : Prop
  /-- Whether open iterators and the counters of indexes have to be the same. -/
  counters : Prop
  /-- An extra transaction may be counted. -/
  not_counters : extra.isSome → ¬ counters
  faults : ∀ {e e'}, engines e e' → e'.faults = e.faults
  transactions : ∀ {e e'}, engines e e' → ∀ id, e'.transactions.get? (rename id) = e.transactions.get? id
  next : ∀ {e e'}, engines e e' → e'.nextTransaction = rename e.nextTransaction
  records : ∀ {e e'}, engines e e' → e'.store.records = e.store.records
  tallies : sizes → ∀ {e e'}, engines e e' → ∀ ns range,
    e'.store.recentTally ns range = e.store.recentTally ns range
  weights : sizes → ∀ {e e'}, engines e e' → ∀ ns range,
    e'.store.olderSize ns range = e.store.olderSize ns range
  openIterators : counters → ∀ {e e'}, engines e e' → e'.store.openIterators = e.store.openIterators
  drawn : ∀ {e e'}, engines e e' → ∀ call, engines (e.drawn call) (e'.drawn call)
  healed : ∀ {e e'}, engines e e' →
    engines { e with faults := .healthy } { e' with faults := .healthy }
  created : ∀ {e e'}, engines e e' → ∀ ns,
    engines { e with store := e.store.createNamespace ns }
      { e' with store := e'.store.createNamespace ns }
  flushed : ∀ {e e'}, engines e e' → ∀ {ns store store'}, e.store.flush ns = .ok store →
    e'.store.flush ns = .ok store' → engines { e with store } { e' with store := store' }
  flushedAll : ∀ {e e'}, engines e e' →
    engines { e with store := e.store.flushAll } { e' with store := e'.store.flushAll }
  begun : ∀ {e e'}, engines e e' → engines e.begun e'.begun
  keeping : ∀ {e e'}, engines e e' → ∀ {id ns key slot tx}, e.writtenTo id ns key slot = .ok tx →
    engines (e.keeping id tx) (e'.keeping (rename id) tx)
  iterating : ∀ {e e'}, engines e e' → engines e.iterating e'.iterating
  released : ∀ {e e'}, engines e e' → engines e.releaseIterator e'.releaseIterator
  /-- Alike engines commit alike. -/
  committed : ∀ {e e'}, engines e e' → ∀ {id tx}, e.held id = .ok tx →
    (tx.commit e'.store).1 = (tx.commit e.store).1 ∧
      engines (e.ended id tx Transaction.commit) (e'.ended (rename id) tx Transaction.commit)
  rolledBack : ∀ {e e'}, engines e e' → ∀ {id tx}, e.held id = .ok tx →
    engines (e.ended id tx Transaction.rollback) (e'.ended (rename id) tx Transaction.rollback)
  discarded : ∀ {e e'}, engines e e' → ∀ id, engines (e.discard id) (e'.discard (rename id))
  /-- Nobody notices what is done in an extra transaction. -/
  aside : ∀ {id}, extra = some id → ∀ {e e' e''}, engines e e' → e'.Aside id e'' → engines e e''

namespace Comparison

open Program Engine

/-- Where there is no extra transaction, counters may be compared. -/
theorem not_of_isSome_none : (none : Option TransactionId).isSome → ¬ True := nofun

variable (c : Comparison) {e e' : Engine} (h : c.engines e e') (id : TransactionId) (ns : Namespace)
  (key : Bytes) (slot : Slot) (range : Range) (call : EngineCall)

/-! ### Alike engines -/

include h

/-- A call fails in both engines or in neither, since they have the same faults to come. -/
theorem fails_eq : e'.fails call = e.fails call := by
  rw [fails, fails, c.faults h]

/-- A transaction of the one engine goes on in the other one under its own number there. -/
theorem held_eq : e'.held (c.rename id) = e.held id := by
  unfold held
  rw [c.transactions h]

/-- A namespace exists in both engines, with the same records, or in neither. -/
theorem table_cases :
    (∃ t t', e.store.table ns = .ok t ∧ e'.store.table ns = .ok t' ∧ t'.get? = t.get?) ∨
      (e.store.table ns = .error (.namespaceNotFound ns) ∧
        e'.store.table ns = .error (.namespaceNotFound ns)) := by
  have hrecords := congrFun (c.records h) ns
  unfold Store.records at hrecords
  unfold Store.table
  cases ht : e.store.tables.get? ns with
  | none =>
    rw [ht, Option.map_none, Option.map_eq_none_iff] at hrecords
    rw [hrecords]
    exact .inr ⟨rfl, rfl⟩
  | some t =>
    rw [ht, Option.map_some] at hrecords
    obtain ⟨t', ht', hget⟩ := Option.map_eq_some_iff.1 hrecords
    rw [ht']
    exact .inl ⟨t, t', rfl, rfl, hget⟩

/-- What a transaction reads is the same in both engines. -/
theorem recordOf_eq : e'.recordOf (c.rename id) ns key = e.recordOf id ns key := by
  unfold recordOf
  rw [c.held_eq h]
  cases e.held id with
  | error err => rfl
  | ok tx =>
    have hread : (do pure ((← e'.store.table ns).get? key) : Except EngineError (Option Bytes)) =
        (do pure ((← e.store.table ns).get? key)) := by
      rcases c.table_cases h ns with ⟨t, t', ht, ht', hget⟩ | ⟨ht, ht'⟩
      · rw [ht, ht']
        exact congrArg Except.ok (congrFun hget key)
      · rw [ht, ht']
    show tx.get e'.store ns key = tx.get e.store ns key
    unfold Transaction.get
    rw [hread]

/-- A write is refused in both engines or in neither, and buffered alike. -/
theorem writtenTo_eq : e'.writtenTo (c.rename id) ns key slot = e.writtenTo id ns key slot := by
  unfold writtenTo
  rw [c.held_eq h]
  cases e.held id with
  | error err => rfl
  | ok tx =>
    show tx.write e'.store ns key slot = tx.write e.store ns key slot
    unfold Transaction.write
    rcases c.table_cases h ns with ⟨t, t', ht, ht', -⟩ | ⟨ht, ht'⟩
    · rw [ht, ht']
      rfl
    · rw [ht, ht']

/-- What a transaction lists is the same in both engines. -/
theorem keysOf_eq : e'.keysOf (c.rename id) ns range = e.keysOf id ns range := by
  unfold keysOf
  rw [c.held_eq h]
  cases e.held id with
  | error err => rfl
  | ok tx =>
    have hview : tx.view e'.store ns range = tx.view e.store ns range := by
      unfold Transaction.view
      rcases c.table_cases h ns with ⟨t, t', ht, ht', hget⟩ | ⟨ht, ht'⟩
      · have hsame : t'.view (tx.batch ns) range = t.view (tx.batch ns) range := by
          refine SortedMap.ext_get? fun key => ?_
          rw [Table.get?_view, Table.get?_view, hget]
        rw [ht, ht']
        show (tx.requireOpen >>= fun _ => pure (t'.view (tx.batch ns) range)) = _
        rw [hsame]
        rfl
      · rw [ht, ht']
    show (tx.view e'.store ns range >>= fun view => pure view.keys) =
      (tx.view e.store ns range >>= fun view => pure view.keys)
    rw [hview]

omit h

/-! ### Calls in step -/

/-- Results of which the one is what the other is, if sizes are compared. -/
def Near {α : Type} (a a' : α) : Prop := c.sizes → a = a'

/-- A call that draws a failure in the one run draws it in the other. -/
theorem tracks_guarded {α α' : Type} {A : α → α' → Prop} {x : EngineM α} {x' : EngineM α'}
    {r : Engine → Except EngineError α × Engine} {r' : Engine → Except EngineError α' × Engine}
    (hx : ∀ e, x.run e = if e.fails call then (.error (.injected call), e.drawn call) else r e)
    (hx' : ∀ e, x'.run e = if e.fails call then (.error (.injected call), e.drawn call) else r' e)
    (hgo : ∀ e e', c.engines e e' → Agree A (r e).1 (r' e').1 ∧ c.engines (r e).2 (r' e').2) :
    Tracks c.engines A x x' := by
  intro e e' h
  rw [hx, hx', c.fails_eq h]
  split
  · exact ⟨.error _, c.drawn h call⟩
  · exact hgo e e' h

/-- The transactions that are begun next correspond to one another. -/
theorem tracks_begin : Tracks c.engines (fun id id' => id' = c.rename id) begin begin :=
  c.tracks_guarded .begin run_begin run_begin fun _ _ h =>
    ⟨.ok (c.next h), c.begun (c.drawn h .begin)⟩

/-- A look-up gives the same in both engines. -/
theorem tracks_lookup :
    Tracks c.engines Eq (lookup id ns key) (lookup (c.rename id) ns key) :=
  c.tracks_guarded .get (run_lookup · id ns key) (run_lookup · _ ns key) fun _ _ h =>
    ⟨.of_eq (c.recordOf_eq h id ns key), c.drawn h .get⟩

/-- A write, whichever of the two calls makes it. -/
theorem tracks_write {x x' : EngineM Unit}
    (hx : ∀ e : Engine, x.run e =
      if e.fails call then (.error (.injected call), e.drawn call)
      else match e.writtenTo id ns key slot with
        | .ok tx => (.ok ⟨⟩, (e.drawn call).keeping id tx)
        | .error err => (.error err, e.drawn call))
    (hx' : ∀ e : Engine, x'.run e =
      if e.fails call then (.error (.injected call), e.drawn call)
      else match e.writtenTo (c.rename id) ns key slot with
        | .ok tx => (.ok ⟨⟩, (e.drawn call).keeping (c.rename id) tx)
        | .error err => (.error err, e.drawn call)) :
    Tracks c.engines Eq x x' := by
  refine c.tracks_guarded call hx hx' fun e e' h => ?_
  rw [c.writtenTo_eq h]
  cases hw : e.writtenTo id ns key slot with
  | error err => exact ⟨.error err, c.drawn h call⟩
  | ok tx =>
    have hw' : (e.drawn call).writtenTo id ns key slot = .ok tx := hw
    exact ⟨.ok rfl, c.keeping (c.drawn h call) hw'⟩

/-- A write is buffered in both engines, or refused by both. -/
theorem tracks_put (value : Bytes) :
    Tracks c.engines Eq (put id ns key value) (put (c.rename id) ns key value) :=
  c.tracks_write id ns key (some value) .put (run_put · id ns key value) (run_put · _ ns key value)

theorem tracks_delete :
    Tracks c.engines Eq (delete id ns key) (delete (c.rename id) ns key) :=
  c.tracks_write id ns key none .delete (run_delete · id ns key) (run_delete · _ ns key)

/-- A commit is accepted by both engines or refused by both, for the same namespace. -/
theorem tracks_commit :
    Tracks c.engines Eq (commit id) (commit (c.rename id)) := by
  refine c.tracks_guarded .commit (run_commit · id) (run_commit · _) fun e e' h => ?_
  rw [c.held_eq h]
  cases hheld : e.held id with
  | error err => exact ⟨.error err, c.drawn h .commit⟩
  | ok tx =>
    have hheld' : (e.drawn .commit).held id = .ok tx := hheld
    obtain ⟨houtcome, hengines⟩ := c.committed (c.drawn h .commit) hheld'
    exact ⟨.of_eq houtcome, hengines⟩

/-- A rollback ends the transaction in both engines. -/
theorem tracks_rollback :
    Tracks c.engines Eq (rollback id) (rollback (c.rename id)) := by
  refine c.tracks_guarded .rollback (run_rollback · id) (run_rollback · _) fun e e' h => ?_
  rw [c.held_eq h]
  cases hheld : e.held id with
  | error err => exact ⟨.error err, c.drawn h .rollback⟩
  | ok tx =>
    have hheld' : (e.drawn .rollback).held id = .ok tx := hheld
    refine ⟨.of_eq ?_, c.rolledBack (c.drawn h .rollback) hheld'⟩
    -- whether a rollback is refused is up to the transaction alone
    show (tx.rollback e'.store).1 = (tx.rollback e.store).1
    unfold Transaction.rollback
    split <;> rfl

/-- Iterators that are opened in two alike engines walk the same keys. -/
theorem tracks_openIterator :
    Tracks c.engines Eq (openIterator id ns range)
      (openIterator (c.rename id) ns range) := by
  refine c.tracks_guarded .iterator (run_openIterator · id ns range)
    (run_openIterator · _ ns range) fun e e' h => ?_
  rw [c.keysOf_eq h]
  cases e.keysOf id ns range with
  | error err => exact ⟨.error err, c.drawn h .iterator⟩
  | ok keys => exact ⟨.ok rfl, c.iterating (c.drawn h .iterator)⟩

/-- The keys that a transaction sees are listed alike. -/
theorem tracks_visibleKeys :
    Tracks c.engines Eq (visibleKeys id ns range)
      (visibleKeys (c.rename id) ns range) := by
  intro e e' h
  rw [run_visibleKeys, run_visibleKeys, c.keysOf_eq h]
  exact ⟨.of_eq rfl, h⟩

theorem tracks_transaction :
    Tracks c.engines Eq (transaction id) (transaction (c.rename id)) := by
  intro e e' h
  rw [run_transaction, run_transaction, c.held_eq h]
  exact ⟨.of_eq rfl, h⟩

theorem tracks_engine_status : Tracks c.engines Eq status status := by
  intro e e' h
  rw [run_status, run_status, c.fails_eq h]
  exact ⟨.of_eq rfl, c.drawn h .status⟩

/-! ### Sizes -/

/-- The failures after which nothing needs to be compared: those of the kind `breaks`, if sizes are not compared. -/
def Stops {ε : Type} (breaks : ε → Prop) (err : ε) : Prop := ¬ c.sizes ∧ breaks err

/-- The failure of an engine that is asked for too large a size. -/
abbrev EngineStops : EngineError → Prop := c.Stops (· = .overflow)

/-- If sizes are compared, nothing is broken off. -/
theorem not_failsWith_stops {ε α : Type} (hsizes : c.sizes) {breaks : ε → Prop} (r : Except ε α) :
    ¬ FailsWith (c.Stops breaks) r := by
  cases r with
  | ok a => exact id
  | error err => exact fun h => h.1 hsizes

/-- What is asked of a table and can only fail by being too large is answered alike, unless it is too large. -/
theorem agree_of_table {α : Type} {e e' : Engine} (h : c.engines e e')
    {size size' : Table → Except EngineError α} (honly : ∀ t err, size t = .error err → err = .overflow)
    (honly' : ∀ t err, size' t = .error err → err = .overflow)
    (hsame : c.sizes → (e'.store.table ns >>= size') = (e.store.table ns >>= size))
    (hgo : ¬ FailsWith c.EngineStops (e.store.table ns >>= size))
    (hgo' : ¬ FailsWith c.EngineStops (e'.store.table ns >>= size')) :
    Agree c.Near (e.store.table ns >>= size) (e'.store.table ns >>= size') := by
  by_cases hsizes : c.sizes
  · rw [hsame hsizes]
    exact (Agree.of_eq rfl).mono fun _ _ heq _ => heq
  · rcases c.table_cases h ns with ⟨t, t', ht, ht', -⟩ | ⟨ht, ht'⟩
    · rw [ht] at hgo ⊢
      rw [ht'] at hgo' ⊢
      change ¬ FailsWith _ (size t) at hgo
      change ¬ FailsWith _ (size' t') at hgo'
      show Agree c.Near (size t) (size' t')
      rcases hsize : size t with err | a
      · exact absurd (by rw [hsize]; exact ⟨hsizes, honly t err hsize⟩) hgo
      rcases hsize' : size' t' with err | a'
      · exact absurd (by rw [hsize']; exact ⟨hsizes, honly' t' err hsize'⟩) hgo'
      exact .ok fun hs => absurd hs hsizes
    · rw [ht, ht']
      exact .error _

/-- A call that draws a failure in the one run draws it in the other, and if it does not, it may be broken off. -/
theorem tracks_measure {α : Type} {x : EngineM α} (r : Store → Except EngineError α)
    (hx : ∀ e : Engine, x.run e =
      if e.fails call then (.error (.injected call), e.drawn call) else (r e.store, e.drawn call))
    (hgo : ∀ e e', c.engines e e' → ¬ FailsWith c.EngineStops (r e.store) →
      ¬ FailsWith c.EngineStops (r e'.store) → Agree c.Near (r e.store) (r e'.store)) :
    TracksUnless c.EngineStops c.engines c.Near x x := by
  intro e e' h
  rw [hx, hx, c.fails_eq h]
  split
  · exact fun _ _ => ⟨.error _, c.drawn h call⟩
  · exact fun hgoes hgoes' => ⟨hgo e e' h hgoes hgoes', c.drawn h call⟩

/-- What is told of recent records is the same if sizes are compared. If they are not, it may be too large a size
for one of the engines only. -/
theorem tracks_recentTally :
    TracksUnless c.EngineStops c.engines c.Near (recentTally ns range) (recentTally ns range) := by
  refine c.tracks_measure .recentTally (·.recentTally ns range) (run_recentTally · ns range) fun e e' h => ?_
  have honly (store : Store) (t : Table) (err : EngineError)
      (herr : (do pure (Tally.mk (t.memtable.within range).size
        (← store.totalSize ((t.memtable.within range).mapValues fun slot : Slot => slot.getD [])))) = .error err) :
      err = .overflow := by
    rcases hsize : store.totalSize _ with err' | size <;> rw [hsize] at herr <;> cases herr
    exact store.overflow_of_totalSize hsize
  exact c.agree_of_table ns h (honly e.store) (honly e'.store) fun hs => c.tallies hs h ns range

/-- The same is so of what is told of the flushed records. -/
theorem tracks_olderSize :
    TracksUnless c.EngineStops c.engines c.Near (olderSize ns range) (olderSize ns range) :=
  c.tracks_measure .olderSize (·.olderSize ns range) (run_olderSize · ns range) fun e e' h =>
    c.agree_of_table ns h (fun _ _ => e.store.overflow_of_totalSize)
      (fun _ _ => e'.store.overflow_of_totalSize) fun hs => c.weights hs h ns range

end Comparison

end SecondaryIndex
