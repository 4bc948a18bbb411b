import SecondaryIndex.Proofs.Engine.Steady
import SecondaryIndex.Proofs.Store.Iterator

/-!
# Isolation and atomic commit

What transactions see of each other, at every point of every run of a store. `Isolated` collects it:
what is committed is the replay of the committed batches, an open transaction reads its own writes
over it, one that ended without being committed leaves nothing behind, and one that ended in any way
is refused. `Reaches.isolated` shows it wherever a history leads.

The committed records and the pending writes of an engine are those of the trace
(`Engine/History.lean`), so what remains is to read the answers of the single calls off them. No
call has faults to draw in such a run, and a call that is answered without faults changes nothing but
what its event says.
-/

namespace SecondaryIndex

/-- The transaction that a call is made through. Giving a transaction up is not a call through it. -/
def StoreCall.through? : StoreCall → Option TransactionId
  | .get id _ _ => some id
  | .put id _ _ _ => some id
  | .delete id _ _ => some id
  | .iterator id _ _ => some id
  | .commit id => some id
  | .rollback id => some id
  | _ => none

namespace Engine

open Program

variable {e e' : Engine} {id : TransactionId} {ns : Namespace} {key : Bytes} {range : Range}
  {tx : Transaction} {history : History} {options : StoreOptions}

/-! ### Calls without faults -/

/-- An engine made without faults is without faults wherever it gets to. -/
theorem Reaches.healthy (h : Reaches (ofOptions options) history e) : e.faults = .healthy :=
  h.induction (motive := fun _ e => e.faults = .healthy) rfl
    fun he hmove => hmove.persists.healthy he

section Healthy

variable (h : e.faults = .healthy)

include h

/-- Without faults, a read is what the transaction reads under the key and changes nothing. -/
theorem run_get_of_healthy :
    (perform (.get id ns key)).run e = ((e.recordOf id ns key).map .record, e) := by
  simp only [perform, run_map, run_lookup, fails_of_healthy _ _ h, drawn_of_healthy _ _ h]
  rfl

/-- Without faults, an iterator is opened over the keys the transaction sees, or refused as their reading is. -/
theorem run_iterator_of_healthy :
    (perform (.iterator id ns range)).run e =
      match e.keysOf id ns range with
      | .ok keys => (.ok (.iterator { keys }), e.iterating)
      | .error err => (.error err, e) := by
  simp only [perform, run_map, run_openIterator, fails_of_healthy _ _ h, drawn_of_healthy _ _ h]
  cases e.keysOf id ns range <;> rfl

/-- Nothing is done through a transaction that is not open. -/
theorem run_of_closed (hclosed : e.ledger.pending id = none) {call : StoreCall}
    (hthrough : call.through? = some id) :
    (perform call).run e = (.error .transactionClosed, e) := by
  have hsame {tx : Transaction} (hget : e.transactions.get? id = some tx) : e.keeping id tx = e :=
    keeping_of_get? hget
  cases call with
  | get id' ns key =>
    obtain rfl := Option.some.inj hthrough
    rw [run_get_of_healthy h, recordOf_eq_of_closed hclosed]
    rfl
  | put id' ns key value =>
    obtain rfl := Option.some.inj hthrough
    simp only [perform, run_map, run_put, fails_of_healthy _ _ h, drawn_of_healthy _ _ h,
      writtenTo_eq_of_closed hclosed]
    rfl
  | delete id' ns key =>
    obtain rfl := Option.some.inj hthrough
    simp only [perform, run_map, run_delete, fails_of_healthy _ _ h, drawn_of_healthy _ _ h,
      writtenTo_eq_of_closed hclosed]
    rfl
  | iterator id' ns range =>
    obtain rfl := Option.some.inj hthrough
    rw [run_iterator_of_healthy h, keysOf_eq_of_closed hclosed]
  -- a finished transaction is put back as it is, which changes nothing
  | commit id' =>
    obtain rfl := Option.some.inj hthrough
    simp only [perform, run_map, run_commit, fails_of_healthy _ _ h, drawn_of_healthy _ _ h]
    rcases held_of_closed hclosed with hnone | ⟨tx, hheld, hfin⟩
    · rw [hnone]
      rfl
    · rw [hheld]
      have hc : tx.commit e.store = (.error .transactionClosed, tx, e.store) := by
        simp [Transaction.commit, hfin]
      simp only [ended, hc, Bool.false_eq_true, if_false]
      rw [hsame (held_eq_ok_iff.1 hheld)]
      rfl
  | rollback id' =>
    obtain rfl := Option.some.inj hthrough
    simp only [perform, run_map, run_rollback, fails_of_healthy _ _ h, drawn_of_healthy _ _ h]
    rcases held_of_closed hclosed with hnone | ⟨tx, hheld, hfin⟩
    · rw [hnone]
      rfl
    · rw [hheld]
      have hc : tx.rollback e.store = (.error .transactionClosed, tx, e.store) := by
        simp [Transaction.rollback, hfin]
      simp only [ended, hc, Bool.false_eq_true, if_false]
      rw [hsame (held_eq_ok_iff.1 hheld)]
      rfl
  | _ => cases hthrough

end Healthy

/-! ### Transactions that are discarded -/

/-- The tables and the transactions but one are as they were. -/
structure Spares (e e' : Engine) (id : TransactionId) : Prop where
  tables : e'.store.tables = e.store.tables
  others : ∀ j, j ≠ id → e'.transactions.get? j = e.transactions.get? j

theorem spares_drawn (call : EngineCall) : e.Spares (e.drawn call) id := ⟨rfl, fun _ _ => rfl⟩

/-- Ending one transaction spares another one if it leaves the tables as they are. -/
theorem spares_ended (call : EngineCall)
    {ending : Transaction → Store → Except EngineError Unit × Transaction × Store}
    (htables : (ending tx e.store).2.2.tables = e.store.tables) :
    e.Spares ((e.drawn call).ended id tx ending) id := by
  refine ⟨htables, fun j hj => ?_⟩
  show (e.transactions.insert id _).get? j = _
  rw [SortedMap.get?_insert, if_neg hj.symm]

/-- A commit that fails writes to no table, whichever of its batches was refused. -/
theorem spares_commit {err : EngineError}
    (herror : ((perform (.commit id)).run e).1 = .error err) :
    e.Spares ((perform (.commit id)).run e).2 id := by
  simp only [perform, run_map, run_commit] at herror ⊢
  cases hfails : e.fails .commit with
  | true => exact spares_drawn .commit
  | false =>
    rw [hfails] at herror
    cases hheld : e.held id with
    | error err' => exact spares_drawn .commit
    | ok tx =>
      rw [hheld] at herror
      refine spares_ended .commit ?_
      show (tx.commit e.store).2.2.tables = e.store.tables
      rcases commit_cases tx e.store with ⟨-, hc⟩ | ⟨-, -, hc⟩ | ⟨-, -, store', -, hc⟩ |
        ⟨-, -, err', -, hc⟩
      · rw [hc]
      · rw [hc]
        rfl
      -- only where the writes were applied the tables have changed, and that is no error
      · simp [hc, Except.map] at herror
      · rw [hc]
        rfl

/-- A rollback spares every other transaction. -/
theorem spares_rollback : e.Spares ((perform (.rollback id)).run e).2 id := by
  simp only [perform, run_map, run_rollback]
  cases e.fails .rollback with
  | true => exact spares_drawn .rollback
  | false =>
    cases e.held id with
    | error err => exact spares_drawn .rollback
    | ok tx =>
      refine spares_ended .rollback ?_
      show (tx.rollback e.store).2.2.tables = e.store.tables
      unfold Transaction.rollback
      split <;> rfl

/-- Dropping a transaction spares every other one. -/
theorem spares_drop : e.Spares ((perform (.drop id)).run e).2 id := by
  show e.Spares (e.discard id) id
  unfold discard
  cases e.transactions.get? id with
  | none => exact ⟨rfl, fun _ _ => rfl⟩
  | some tx =>
    refine ⟨?_, fun j hj => ?_⟩
    · show (tx.abandon e.store).tables = e.store.tables
      unfold Transaction.abandon
      split <;> rfl
    · show (e.transactions.erase id).get? j = _
      rw [SortedMap.get?_erase, if_neg hj]

/-! ### Transactions in runs -/

/-- What the transactions of a store see of each other after a history that led to an engine. -/
structure Isolated (history : History) (e : Engine) : Prop where
  /-- The committed records are the complete writes of the committed transactions, made in commit
  order, in all namespaces at once. -/
  committed : ∀ ns key, e.store.read (ns, key) = Trace.replay history.trace.batches (ns, key)
  /-- An open transaction reads its own last write, or else the committed record of the moment. -/
  reads : ∀ id ns key, history.trace.IsOpen id → e.store.hasNamespace ns = true →
    (perform (.get id ns key)).run e =
      (.ok (.record ((history.trace.written id (ns, key)).getD (e.store.read (ns, key)))), e)
  /-- A fresh iterator over everything yields exactly the keys that reading finds. -/
  lists : ∀ id ns, history.trace.IsOpen id → e.store.hasNamespace ns = true →
    ∃ it, ((perform (.iterator id ns .all)).run e).1 = .ok (.iterator it) ∧
      ∀ key, it.Yields key ↔
        ∃ value, ((perform (.get id ns key)).run e).1 = .ok (.record (some value))
  /-- A namespace that does not exist is missed by both. -/
  misses : ∀ id ns key, history.trace.IsOpen id → e.store.hasNamespace ns = false →
    (perform (.get id ns key)).run e = (.error (.namespaceNotFound ns), e) ∧
      (perform (.iterator id ns .all)).run e = (.error (.namespaceNotFound ns), e)
  /-- A transaction is committed at most once. -/
  once : ∀ newer older id answer answer',
    history = newer ++ (.commit id, .ok answer) :: older → (.commit id, .ok answer') ∉ newer
  /-- A transaction that ends without being committed leaves no trace. -/
  discards : ∀ call id, (call = .rollback id ∨ call = .drop id ∨
      call = .commit id ∧ ∃ err, ((perform call).run e).1 = .error err) →
    e.Spares ((perform call).run e).2 id
  /-- Through a transaction that is not open nothing is done. -/
  refuses : ∀ call id, call.through? = some id → ¬ history.trace.IsOpen id →
    (perform call).run e = (.error .transactionClosed, e)

/-- An open transaction has a batch only in namespaces that exist. -/
theorem Sound.misses (h : e.Sound) (hopen : e.HasOpen id tx) (hns : e.store.hasNamespace ns = false) :
    (∀ key, e.recordOf id ns key = .error (.namespaceNotFound ns)) ∧
      ∀ range, e.keysOf id ns range = .error (.namespaceNotFound ns) := by
  have htable : e.store.table ns = .error (.namespaceNotFound ns) := by
    refine Store.table_eq_error_iff.2 ⟨?_, rfl⟩
    rw [Store.hasNamespace, SortedMap.contains, Option.isSome_eq_false_iff] at hns
    exact Option.isNone_iff_eq_none.1 hns
  have hbatch : tx.writes.get? ns = none := by
    rw [← Option.not_isSome_iff_eq_none]
    intro hw
    rw [h.homed hopen hw] at hns
    cases hns
  refine ⟨fun key => ?_, fun range => ?_⟩
  · unfold recordOf
    rw [hopen.held]
    show tx.get e.store ns key = _
    simp only [Transaction.get, requireOpen_of_open hopen.2, Transaction.batch, SortedMap.getD, hbatch,
      htable]
    rfl
  · unfold keysOf
    rw [hopen.held]
    show (tx.view e.store ns range >>= _) = _
    simp only [Transaction.view, requireOpen_of_open hopen.2, htable]
    rfl

/-- Every engine that is reached isolates its transactions. Its ledger is the one of the trace, and the clauses are
read off there. -/
theorem Reaches.isolated (h : Reaches (ofOptions options) history e) : Isolated history e where
  committed ns key := by
    -- both sides are the ledger of the trace
    rw [← h.proper.committed_ledger, ← h.ledger_eq]
    rfl
  reads id ns key hopen hns := by
    have hpending : e.ledger.pending id = some (history.trace.written id) := by
      rw [h.ledger_eq]
      exact Trace.pending_ledger_of_isOpen hopen
    rw [run_get_of_healthy h.healthy, recordOf_eq_of_open hpending hns]
    simp [Ledger.view, hpending, Changes.applyTo, Except.map]
  lists id ns hopen hns := by
    obtain ⟨tx, hopen⟩ := h.agrees.isOpen_iff.1 hopen
    obtain ⟨keys, hkeys⟩ := keysOf_eq_of_open hopen.pending hns .all
    refine ⟨{ keys }, ?_, fun key => ?_⟩
    · rw [run_iterator_of_healthy h.healthy, hkeys]
    · have hall : Range.all.contains key = true := rfl
      have hmem := (of_keysOf hkeys).2.2.2 key
      rw [RawIterator.yields_iff, run_get_of_healthy h.healthy, recordOf_eq_of_open hopen.pending hns]
      simp only [hmem, hall, true_and, Option.isSome_iff_exists]
      simp [Except.map]
  misses id ns key hopen hns := by
    obtain ⟨tx, hopen⟩ := h.agrees.isOpen_iff.1 hopen
    obtain ⟨hrecord, hkeys⟩ := h.sound.misses hopen hns
    rw [run_get_of_healthy h.healthy, run_iterator_of_healthy h.healthy, hrecord, hkeys]
    exact ⟨rfl, rfl⟩
  once newer older id answer answer' hhistory hmem := by
    have hproper := h.proper
    rw [hhistory, History.trace, List.filterMap_append] at hproper
    exact hproper.commits_notMem (List.mem_filterMap.2 ⟨_, hmem, rfl⟩)
  discards call id hcall := by
    rcases hcall with rfl | rfl | ⟨rfl, err, herror⟩
    · exact spares_rollback
    · exact spares_drop
    · exact spares_commit herror
  refuses call id hthrough hclosed := by
    refine run_of_closed h.healthy ?_ hthrough
    rw [h.ledger_eq, ← Option.not_isSome_iff_eq_none, Trace.isSome_pending_ledger]
    exact hclosed

/-- A transaction over two namespaces, seen once it is committed. -/
theorem isolated_after_commit :
    ∃ history e, Reaches (ofOptions {}) history e ∧
      history.trace =
        [.commits 0, .writes 0 ("notes", [2]) none, .writes 0 ("users", [1]) (some [7]), .opens 0] ∧
      Isolated history e := by
  have h := ((((((Reaches.refl : Reaches (ofOptions {}) [] (ofOptions {})).call
    (.createNamespace "users")).call (.createNamespace "notes")).call .begin).call
    (.put 0 "users" [1] [7])).call (.delete 0 "notes" [2])).call (.commit 0)
  exact ⟨_, _, h, by decide +kernel, h.isolated⟩

end Engine

end SecondaryIndex
