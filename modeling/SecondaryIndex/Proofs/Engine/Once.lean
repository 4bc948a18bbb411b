import SecondaryIndex.Proofs.Engine.Works

/-!
# A transaction from its begin to its end

A transaction that is begun, worked in, ended and given up leaves an engine that has committed its
writes in one step, or an engine that has forgotten it. The first is `Engine.CommitsOnce`. The second is
`Engine.Repeats`: apart from iterators that are open and from the numbers of transactions that are still
to be begun, the engine is the one from before.

What happens to one transaction without a commit is `Engine.Beside`, shown call by call and chained. It
says nothing of the registry of open transactions, which changes with every begin and every end. There
is no need to follow it: an engine that keeps its books has registered exactly the transactions that are
open, so that engines with the same transactions have the same registry (`Sound.active_eq`).
-/

namespace SecondaryIndex

namespace Engine

variable {e e' e'' : Engine} {id : TransactionId} {tx : Transaction} {c : Changes Place Bytes}

/-- Nothing lasting happened: the store and the transactions are as they were. -/
structure Repeats (e e' : Engine) : Prop where
  store : ∃ n, e'.store = e.store.withIterators n
  transactions : e'.transactions = e.transactions
  numbers : e.nextTransaction ≤ e'.nextTransaction

/-- Some writes were committed as one commit, and the transactions are as they were; or there were no
writes, and nothing lasting happened. -/
inductive CommitsOnce (c : Changes Place Bytes) (e e' : Engine) : Prop
  | nothing (nothing : c = .nothing) (repeats : e.Repeats e')
  | once (something : c ≠ .nothing) (read : e'.store.read = c.applyTo e.store.read)
    (lastCommit : e'.store.lastCommit = e.store.lastCommit + 1)
    (transactions : e'.transactions = e.transactions)
    (numbers : e.nextTransaction ≤ e'.nextTransaction)

theorem Repeats.trans (h : e.Repeats e') (h' : e'.Repeats e'') : e.Repeats e'' := by
  obtain ⟨n, hstore⟩ := h.store
  obtain ⟨n', hstore'⟩ := h'.store
  exact ⟨⟨n', by rw [hstore', hstore, Store.withIterators_withIterators]⟩,
    h'.transactions.trans h.transactions,
    Nat.le_trans h.numbers h'.numbers⟩

/-- Where an engine idled, nothing lasting happened. -/
theorem Idles.repeats (h : e.Idles e') : e.Repeats e' :=
  ⟨h.store, h.transactions, Nat.le_of_eq h.nextTransaction.symm⟩

/-- Where nothing lasting happened, the committed state is the same. -/
theorem Repeats.read_eq (h : e.Repeats e') : e'.store.read = e.store.read := by
  obtain ⟨n, hstore⟩ := h.store
  rw [hstore, Store.withIterators_read]

/-- Where nothing lasting happened, the ledger is the same. -/
theorem Repeats.ledger_eq (h : e.Repeats e') : e'.ledger = e.ledger := by
  refine Ledger.ext h.read_eq (funext fun j => ?_)
  rw [ledger_pending, ledger_pending, h.transactions]

/-- A commit of no writes is none. -/
theorem CommitsOnce.repeats (h : e.CommitsOnce c e') (hnothing : c = .nothing) : e.Repeats e' := by
  cases h with
  | nothing _ hrepeats => exact hrepeats
  | once hsomething _ _ _ _ => exact absurd hnothing hsomething

/-- The committed state is the one before with the changes applied to it. -/
theorem CommitsOnce.read_eq (h : e.CommitsOnce c e') : e'.store.read = c.applyTo e.store.read := by
  cases h with
  | nothing hnothing hrepeats => rw [hrepeats.read_eq, hnothing, Changes.nothing_applyTo]
  | once _ hread _ _ _ => exact hread

/-- A single commit leaves no transaction behind. -/
theorem CommitsOnce.transactions_eq (h : e.CommitsOnce c e') : e'.transactions = e.transactions := by
  cases h with
  | nothing _ hrepeats => exact hrepeats.transactions
  | once _ _ _ htx _ => exact htx

/-- In the ledger a single commit is one write outside of every transaction. -/
theorem CommitsOnce.ledger_eq (h : e.CommitsOnce c e') : e'.ledger = e.ledger.write c none := by
  refine Ledger.ext ?_ (funext fun j => ?_)
  · rw [Ledger.write_none_committed]
    exact h.read_eq
  · rw [Ledger.write_none_pending, ledger_pending, ledger_pending, h.transactions_eq]

/-- A commit may be followed by what no transaction notices. -/
theorem CommitsOnce.idles (h : e.CommitsOnce c e') (h' : e'.Idles e'') : e.CommitsOnce c e'' := by
  cases h with
  | nothing hnothing hrepeats => exact .nothing hnothing (hrepeats.trans h'.repeats)
  | once hsomething hread hlast htx hnumbers =>
    obtain ⟨n, hstore⟩ := h'.store
    refine .once hsomething ?_ ?_ (h'.transactions.trans htx)
      (Nat.le_trans hnumbers h'.repeats.numbers)
    · rw [h'.repeats.read_eq, hread]
    · rw [hstore, Store.withIterators_lastCommit, hlast]

/-- A commit may be preceded by what no transaction notices. -/
theorem Idles.commitsOnce (h : e.Idles e') (h' : e'.CommitsOnce c e'') : e.CommitsOnce c e'' := by
  cases h' with
  | nothing hnothing hrepeats => exact .nothing hnothing (h.repeats.trans hrepeats)
  | once hsomething hread hlast htx hnumbers =>
    obtain ⟨n, hstore⟩ := h.store
    refine .once hsomething ?_ ?_ (htx.trans h.transactions) (Nat.le_trans h.repeats.numbers hnumbers)
    · rw [hread, h.repeats.read_eq]
    · rw [hlast, hstore, Store.withIterators_lastCommit]

/-! ### The registry -/

/-- Engines with the same transactions have the same transactions registered. -/
theorem Sound.active_eq (h : e.Sound) (h' : e'.Sound) (htx : e'.transactions = e.transactions) :
    e'.store.active = e.store.active := by
  refine h.tidy.active_eq h'.tidy fun start => ?_
  have hstarters : e'.starters start = e.starters start := by
    unfold starters HasOpen
    rw [htx]
  rw [h'.registry, h.registry, hstarters]

/-! ### One transaction, without a commit -/

/-- Nothing was committed, and nothing happened but to one transaction. -/
structure Beside (id : TransactionId) (e e' : Engine) : Prop where
  store : ∃ n active, e'.store = { e.store with openIterators := n, active := active }
  others : ∀ j, j ≠ id → e'.transactions.get? j = e.transactions.get? j
  numbers : e.nextTransaction ≤ e'.nextTransaction

theorem Beside.trans (h : e.Beside id e') (h' : e'.Beside id e'') : e.Beside id e'' := by
  obtain ⟨n, active, hstore⟩ := h.store
  obtain ⟨n', active', hstore'⟩ := h'.store
  exact ⟨⟨n', active', by rw [hstore', hstore]⟩,
    fun j hj => (h'.others j hj).trans (h.others j hj), Nat.le_trans h.numbers h'.numbers⟩

/-- What keeps the store and every other transaction happens beside one. -/
theorem Keeps.beside (h : e.Keeps id e') : e.Beside id e' := by
  obtain ⟨n, hstore⟩ := h.store
  exact ⟨⟨n, e.store.active, hstore⟩, h.others, Nat.le_of_eq h.nextTransaction.symm⟩

theorem beside_drawn (e : Engine) (call : EngineCall) : e.Beside id (e.drawn call) :=
  (idles_drawn e call).keeps.beside

theorem beside_begun (e : Engine) : e.Beside e.nextTransaction e.begun := by
  refine ⟨⟨_, _, rfl⟩, fun j hj => ?_, Nat.le_succ _⟩
  show (e.transactions.insert e.nextTransaction _).get? j = _
  rw [SortedMap.get?_insert, if_neg hj.symm]

/-- Ending a transaction happens beside it, if of the store it touches only the active transactions. -/
theorem beside_ended {ending : Transaction → Store → Except EngineError Unit × Transaction × Store}
    (h : ∃ active, (ending tx e.store).2.2 = { e.store with active := active }) :
    e.Beside id (e.ended id tx ending) := by
  obtain ⟨active, hstore⟩ := h
  refine ⟨⟨e.store.openIterators, active, hstore⟩, fun j hj => ?_, Nat.le_refl _⟩
  show (e.transactions.insert id _).get? j = _
  rw [SortedMap.get?_insert, if_neg hj.symm]

/-- A rollback happens beside its own transaction. -/
theorem beside_rollback (e : Engine) (id : TransactionId) : e.Beside id ((rollback id).run e).2 := by
  rw [run_rollback]
  cases e.fails .rollback with
  | true => exact beside_drawn e .rollback
  | false =>
    cases e.held id with
    | error err => exact beside_drawn e .rollback
    | ok tx =>
      refine (beside_drawn e .rollback).trans (beside_ended ?_)
      unfold Transaction.rollback
      split
      · exact ⟨_, rfl⟩
      · exact ⟨_, rfl⟩

theorem beside_discard (e : Engine) (id : TransactionId) : e.Beside id (e.discard id) := by
  unfold discard
  cases e.transactions.get? id with
  | none => exact (Keeps.refl id e).beside
  | some tx =>
    refine ⟨⟨e.store.openIterators, (tx.abandon e.store).active, ?_⟩, fun j hj => ?_, Nat.le_refl _⟩
    · show tx.abandon e.store = _
      unfold Transaction.abandon
      split <;> rfl
    · show (e.transactions.erase id).get? j = _
      rw [SortedMap.get?_erase, if_neg hj]

/-- A discarded transaction is held no more. -/
theorem get?_discard (e : Engine) (id : TransactionId) :
    (e.discard id).transactions.get? id = none := by
  unfold discard
  cases hget : e.transactions.get? id with
  | none => exact hget
  | some tx =>
    show (e.transactions.erase id).get? id = none
    rw [SortedMap.get?_erase, if_pos rfl]

/-- A transaction that was not there before, and is not there any more, has left nothing behind. -/
theorem Beside.repeats (h : e.Beside id e') (hsound : e.Sound) (hsound' : e'.Sound)
    (hfree : e.transactions.get? id = none) (hgone : e'.transactions.get? id = none) :
    e.Repeats e' := by
  have htx : e'.transactions = e.transactions := by
    refine SortedMap.ext_get? fun j => ?_
    by_cases hj : j = id
    · rw [hj, hgone, hfree]
    · exact h.others j hj
  obtain ⟨n, active, hstore⟩ := h.store
  have hactive : active = e.store.active := by
    have hsame := hsound.active_eq hsound' htx
    rwa [hstore] at hsame
  refine ⟨⟨n, ?_⟩, htx, h.numbers⟩
  rw [hstore, hactive]
  rfl

/-! ### One transaction that is committed -/

/-- Nothing happened but to one transaction, which has committed some writes as one commit. -/
structure Commits (id : TransactionId) (c : Changes Place Bytes) (e e' : Engine) : Prop where
  read : e'.store.read = c.applyTo e.store.read
  lastCommit : e'.store.lastCommit = e.store.lastCommit + 1
  others : ∀ j, j ≠ id → e'.transactions.get? j = e.transactions.get? j
  numbers : e.nextTransaction ≤ e'.nextTransaction

/-- What happened beside a transaction before it commits does not show in the commit. -/
theorem Beside.commits (h : e.Beside id e') (h' : e'.Commits id c e'') : e.Commits id c e'' := by
  obtain ⟨n, active, hstore⟩ := h.store
  refine ⟨?_, ?_, fun j hj => (h'.others j hj).trans (h.others j hj), Nat.le_trans h.numbers h'.numbers⟩
  · rw [h'.read, hstore]
    rfl
  · rw [h'.lastCommit, hstore]

/-- What happens beside a transaction after it committed does not show in the commit. -/
theorem Commits.beside (h : e.Commits id c e') (h' : e'.Beside id e'') : e.Commits id c e'' := by
  obtain ⟨n, active, hstore⟩ := h'.store
  refine ⟨?_, ?_, fun j hj => (h'.others j hj).trans (h.others j hj), Nat.le_trans h.numbers h'.numbers⟩
  · rw [hstore, ← h.read]
    rfl
  · rw [hstore]
    exact h.lastCommit

/-- The commit of a transaction that was not there before and is gone afterwards is one commit, of all its changes. -/
theorem Commits.once (h : e.Commits id c e') (hsomething : c ≠ .nothing)
    (hfree : e.transactions.get? id = none) (hgone : e'.transactions.get? id = none) :
    e.CommitsOnce c e' := by
  refine .once hsomething h.read h.lastCommit (SortedMap.ext_get? fun j => ?_) h.numbers
  by_cases hj : j = id
  · rw [hj, hgone, hfree]
  · exact h.others j hj

/-- A commit commits all that its transaction has written, or it fails and commits nothing. -/
theorem commit_once (hopen : e.HasOpen id tx) :
    (((commit id).run e).1 = .ok () ∧ tx.changes = .nothing ∧ e.Beside id ((commit id).run e).2) ∨
    (((commit id).run e).1 = .ok () ∧ tx.changes ≠ .nothing ∧
      e.Commits id tx.changes ((commit id).run e).2) ∨
    ((∃ err, ((commit id).run e).1 = .error err) ∧ e.Beside id ((commit id).run e).2) := by
  rw [run_commit]
  cases e.fails .commit with
  | true => exact .inr (.inr ⟨⟨_, rfl⟩, beside_drawn e .commit⟩)
  | false =>
    rw [if_neg Bool.false_ne_true, hopen.held]
    have hended (h : ∃ active, (tx.commit e.store).2.2 = { e.store with active := active }) :
        e.Beside id ((e.drawn .commit).ended id tx Transaction.commit) :=
      (beside_drawn e .commit).trans (beside_ended h)
    rcases commit_cases tx e.store with ⟨hfin, -⟩ | ⟨-, hnothing, hc⟩ |
      ⟨-, hsomething, store, happly, hc⟩ | ⟨-, -, err, -, hc⟩
    · rw [hopen.2] at hfin
      cases hfin
    · exact .inl ⟨congrArg Prod.fst hc, hnothing, hended ⟨_, congrArg (·.2.2) hc⟩⟩
    · refine .inr (.inl ⟨congrArg Prod.fst hc, hsomething, ?_⟩)
      -- the writes were installed, and then the transaction was struck off
      obtain ⟨-, hinstalled⟩ := Store.apply_eq_ok_iff.1 happly
      have hstore : ((e.drawn .commit).ended id tx Transaction.commit).store = store.leave tx.start :=
        congrArg (·.2.2) hc
      refine ⟨?_, ?_, fun j hj => ?_, Nat.le_refl _⟩
      · rw [hstore]
        show store.read = _
        exact Store.read_apply happly
      · rw [hstore, hinstalled]
        rfl
      · show (e.transactions.insert id _).get? j = _
        rw [SortedMap.get?_insert, if_neg hj.symm]
    · exact .inr (.inr ⟨⟨err, congrArg Prod.fst hc⟩, hended ⟨_, congrArg (·.2.2) hc⟩⟩)

end Engine

end SecondaryIndex
