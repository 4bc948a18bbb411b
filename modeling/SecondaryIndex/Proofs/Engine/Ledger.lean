import SecondaryIndex.Proofs.Engine.Run

/-!
# The ledger of an engine

`Engine.ledger` forgets everything of an engine that does not decide what is read: layers, commit
numbers, the registry, iterators and faults. What each call comes to, and what it does to the
engine, can be said through the ledger alone:

* a transaction that is not open is refused with `EngineError.transactionClosed`
  (`recordOf_eq_of_closed`, `writtenTo_eq_of_closed`, `keysOf_eq_of_closed`);
* an open one reads, writes and lists what the ledger shows it (`recordOf_eq_of_open`,
  `writtenTo_eq_of_open`, `keysOf_eq_of_open`);
* beginning and writing change the engine as they change its ledger (`ledger_begun`,
  `ledger_keeping`).

How transactions end is in `Engine/Moves.lean`.
-/

namespace SecondaryIndex

namespace Engine

/-- What an engine holds, as transactions see it. -/
def ledger (e : Engine) : Ledger Place Bytes where
  committed := e.store.read
  pending id := (e.transactions.get? id).bind fun tx => if tx.finished then none else some tx.changes

/-- A number is that of an unfinished transaction. -/
def HasOpen (e : Engine) (id : TransactionId) (tx : Transaction) : Prop :=
  e.transactions.get? id = some tx ∧ tx.finished = false

variable {e : Engine} {id : TransactionId} {ns : Namespace} {key : Bytes} {slot : Slot}
  {changes : Changes Place Bytes} {tx tx' : Transaction}

@[simp] theorem ledger_committed : e.ledger.committed = e.store.read := rfl

/-- What a ledger has pending for a transaction is what it wrote, as long as it is open. -/
theorem ledger_pending :
    e.ledger.pending id =
      (e.transactions.get? id).bind fun tx => if tx.finished then none else some tx.changes := rfl

/-- A ledger has something pending for exactly the open transactions, and it is what they wrote. -/
theorem pending_eq_some_iff :
    e.ledger.pending id = some changes ↔ ∃ tx, e.HasOpen id tx ∧ tx.changes = changes := by
  unfold HasOpen
  rw [ledger_pending]
  cases e.transactions.get? id with
  | none => simp
  | some tx => cases hf : tx.finished <;> simp [hf, and_assoc]

theorem held_eq_ok_iff : e.held id = .ok tx ↔ e.transactions.get? id = some tx := by
  unfold held
  cases e.transactions.get? id <;> simp

/-- A transaction that is not held is answered as a closed one. -/
theorem held_eq_error {err : EngineError} (h : e.held id = .error err) : err = .transactionClosed := by
  unfold held at h
  cases hget : e.transactions.get? id with
  | none =>
    rw [hget] at h
    exact (Except.error.inj h).symm
  | some tx =>
    rw [hget] at h
    cases h

theorem HasOpen.pending (h : e.HasOpen id tx) : e.ledger.pending id = some tx.changes :=
  pending_eq_some_iff.2 ⟨tx, h, rfl⟩

theorem HasOpen.held (h : e.HasOpen id tx) : e.held id = .ok tx := held_eq_ok_iff.2 h.1

/-- An open transaction is held, and its writes are the pending ones. -/
theorem held_of_open (h : e.ledger.pending id = some changes) :
    ∃ tx, e.held id = .ok tx ∧ tx.finished = false ∧ tx.changes = changes := by
  obtain ⟨tx, hopen, hch⟩ := pending_eq_some_iff.1 h
  exact ⟨tx, hopen.held, hopen.2, hch⟩

/-- A transaction that is not open was given up, or it is finished. -/
theorem held_of_closed (h : e.ledger.pending id = none) :
    e.held id = .error .transactionClosed ∨ ∃ tx, e.held id = .ok tx ∧ tx.finished = true := by
  rw [ledger_pending] at h
  unfold held
  cases hget : e.transactions.get? id with
  | none => exact .inl rfl
  | some tx =>
    rw [hget] at h
    refine .inr ⟨tx, rfl, ?_⟩
    cases hf : tx.finished with
    | true => rfl
    | false => simp [hf] at h

/-- A finished transaction answers everything with `transactionClosed`. -/
theorem requireOpen_of_finished (h : tx.finished = true) :
    tx.requireOpen = .error .transactionClosed := by
  rw [Transaction.requireOpen, h, if_pos rfl]

theorem requireOpen_of_open (h : tx.finished = false) : tx.requireOpen = .ok () := by
  rw [Transaction.requireOpen, h]
  rfl

/-! ### What calls come to -/

/-- Nothing can be done through a transaction that is not open. -/
theorem held_bind_of_closed {α : Type} (h : e.ledger.pending id = none)
    (use : Transaction → Except EngineError α)
    (hrefuse : ∀ tx, tx.finished = true → use tx = .error .transactionClosed) :
    (e.held id >>= use) = .error .transactionClosed := by
  rcases held_of_closed h with hnone | ⟨tx, hheld, hfin⟩
  · rw [hnone]
    rfl
  · rw [hheld]
    exact hrefuse tx hfin

/-- A transaction with nothing pending is closed, and a read through it is refused. -/
theorem recordOf_eq_of_closed (h : e.ledger.pending id = none) (ns : Namespace) (key : Bytes) :
    e.recordOf id ns key = .error .transactionClosed := by
  refine held_bind_of_closed h _ fun tx hfin => ?_
  simp only [Transaction.get, requireOpen_of_finished hfin]
  rfl

/-- A write through a closed transaction is refused. -/
theorem writtenTo_eq_of_closed (h : e.ledger.pending id = none) (ns : Namespace) (key : Bytes)
    (slot : Slot) : e.writtenTo id ns key slot = .error .transactionClosed := by
  refine held_bind_of_closed h _ fun tx hfin => ?_
  simp only [Transaction.write, requireOpen_of_finished hfin]
  rfl

/-- A closed transaction sees no range. -/
theorem keysOf_eq_of_closed (h : e.ledger.pending id = none) (ns : Namespace) (range : Range) :
    e.keysOf id ns range = .error .transactionClosed := by
  unfold keysOf
  refine held_bind_of_closed h _ fun tx hfin => ?_
  simp only [Transaction.view, requireOpen_of_finished hfin]
  rfl

/-- What an open transaction sees of a namespace: its batch over the table of the moment. -/
theorem view_of_table {table : Table} (h : e.ledger.pending id = some tx.changes)
    (htable : e.store.tables.get? ns = some table) (key : Bytes) :
    e.ledger.view (some id) (ns, key) = ((tx.batch ns).get? key).getD (table.get? key) := by
  simp only [Ledger.view, h, Option.getD_some, ledger_committed, Changes.applyTo]
  rw [Store.read_of_table htable]
  rfl

/-- An open transaction reads its own last write, or else the committed record of the moment. -/
theorem recordOf_eq_of_open (h : e.ledger.pending id = some changes)
    (hns : e.store.hasNamespace ns = true) :
    e.recordOf id ns key = .ok (e.ledger.view (some id) (ns, key)) := by
  obtain ⟨tx, hheld, hfin, rfl⟩ := held_of_open h
  obtain ⟨table, htable⟩ := Store.hasNamespace_iff.1 hns
  unfold recordOf
  rw [hheld]
  show tx.get e.store ns key = _
  rw [view_of_table h htable]
  unfold Transaction.get
  rw [requireOpen_of_open hfin]
  cases hw : (tx.batch ns).get? key with
  | some slot => rfl
  | none =>
    show (e.store.table ns >>= fun table => pure (table.get? key)) = _
    rw [Store.table_eq_ok_iff.2 htable]
    rfl

/-- What is read of a key is what the ledger shows, also where a namespace is missing. -/
theorem view_of_recordOf {value? : Option Bytes} (h : e.recordOf id ns key = .ok value?) :
    (∃ changes, e.ledger.pending id = some changes) ∧
      e.ledger.view (some id) (ns, key) = value? := by
  cases hp : e.ledger.pending id with
  | none =>
    rw [recordOf_eq_of_closed hp] at h
    cases h
  | some changes =>
    refine ⟨⟨changes, rfl⟩, ?_⟩
    cases hns : e.store.hasNamespace ns with
    | true =>
      rw [recordOf_eq_of_open hp hns] at h
      exact Except.ok.inj h
    | false =>
      -- without a table only an own write can have been read
      obtain ⟨tx, hheld, hfin, rfl⟩ := held_of_open hp
      have hmiss : e.store.table ns = .error (.namespaceNotFound ns) := by
        refine Store.table_eq_error_iff.2 ⟨?_, rfl⟩
        cases ht : e.store.tables.get? ns with
        | none => rfl
        | some table =>
          rw [Store.hasNamespace_iff.2 ⟨table, ht⟩] at hns
          cases hns
      unfold recordOf at h
      rw [hheld] at h
      change tx.get e.store ns key = _ at h
      unfold Transaction.get at h
      rw [requireOpen_of_open hfin] at h
      cases hw : (tx.batch ns).get? key with
      | none =>
        rw [hw] at h
        change (e.store.table ns >>= fun table => pure (table.get? key)) = _ at h
        rw [hmiss] at h
        cases h
      | some slot =>
        rw [hw] at h
        have hslot : slot = value? := Except.ok.inj h
        have hchanges : tx.changes (ns, key) = some slot := hw
        simp [Ledger.view, hp, Changes.applyTo, hchanges, hslot]

/-- A write goes on top of the earlier ones. -/
theorem changes_insert (tx : Transaction) (ns : Namespace) (key : Bytes) (slot : Slot) :
    Transaction.changes { tx with writes := tx.writes.insert ns ((tx.batch ns).insert key slot) } =
      Changes.after (.single (ns, key) slot) tx.changes := by
  funext x
  obtain ⟨n, k⟩ := x
  -- writes are buffered by namespace and then by key, so there are two ways to differ
  simp only [Transaction.changes, WriteSet.changes, SortedMap.getD, SortedMap.get?_insert,
    Changes.after, Changes.single, Prod.mk.injEq]
  by_cases hn : ns = n
  · subst hn
    by_cases hk : key = k
    · simp [hk]
    · have hk' : ¬ k = key := fun h => hk h.symm
      simp [hk, hk', Transaction.batch, SortedMap.getD]
  · have hn' : ¬ n = ns := fun h => hn h.symm
    simp [hn, hn']

/-- An open transaction can write to any namespace that exists. -/
theorem writtenTo_eq_of_open (h : e.ledger.pending id = some changes)
    (hns : e.store.hasNamespace ns = true) (key : Bytes) (slot : Slot) :
    ∃ tx, e.writtenTo id ns key slot = .ok tx := by
  obtain ⟨tx, hheld, hfin, -⟩ := held_of_open h
  obtain ⟨table, htable⟩ := Store.hasNamespace_iff.1 hns
  unfold writtenTo
  rw [hheld]
  -- the table is asked for only to refuse writes to namespaces that were never created
  refine ⟨{ tx with writes := tx.writes.insert ns ((tx.batch ns).insert key slot) }, ?_⟩
  show tx.write e.store ns key slot = _
  unfold Transaction.write
  rw [requireOpen_of_open hfin, Store.table_eq_ok_iff.2 htable]
  rfl

/-- What a write leaves: the transaction is open and has the write on top. -/
theorem of_writtenTo (h : e.writtenTo id ns key slot = .ok tx') :
    ∃ tx, e.HasOpen id tx ∧ e.store.hasNamespace ns = true ∧
      tx' = { tx with writes := tx.writes.insert ns ((tx.batch ns).insert key slot) } := by
  -- a write that is taken passed all three checks: it is held, open, and its namespace is there
  unfold writtenTo at h
  cases hheld : e.held id with
  | error err =>
    rw [hheld] at h
    cases h
  | ok tx =>
    rw [hheld] at h
    change tx.write e.store ns key slot = _ at h
    unfold Transaction.write at h
    cases hfin : tx.finished with
    | true =>
      rw [requireOpen_of_finished hfin] at h
      cases h
    | false =>
      rw [requireOpen_of_open hfin] at h
      cases ht : e.store.table ns with
      | error err =>
        rw [ht] at h
        cases h
      | ok table =>
        rw [ht] at h
        refine ⟨tx, ⟨held_eq_ok_iff.1 hheld, hfin⟩, ?_, (Except.ok.inj h).symm⟩
        exact Store.hasNamespace_iff.2 ⟨table, Store.table_eq_ok_iff.1 ht⟩

/-- The listed keys are ascending, and they are those in range that the ledger shows. -/
theorem of_keysOf {range : Range} {keys : List Bytes} (h : e.keysOf id ns range = .ok keys) :
    (∃ changes, e.ledger.pending id = some changes) ∧ e.store.hasNamespace ns = true ∧
      keys.Pairwise (· < ·) ∧
      ∀ key, key ∈ keys ↔
        range.contains key = true ∧ (e.ledger.view (some id) (ns, key)).isSome := by
  cases hp : e.ledger.pending id with
  | none =>
    rw [keysOf_eq_of_closed hp] at h
    cases h
  | some changes =>
    obtain ⟨tx, hheld, hfin, rfl⟩ := held_of_open hp
    unfold keysOf at h
    rw [hheld] at h
    change (tx.view e.store ns range >>= fun view => pure view.keys) = _ at h
    unfold Transaction.view at h
    rw [requireOpen_of_open hfin] at h
    cases ht : e.store.table ns with
    | error err =>
      rw [ht] at h
      cases h
    | ok table =>
      rw [ht] at h
      have htable := Store.table_eq_ok_iff.1 ht
      have hkeys : keys = (table.view (tx.batch ns) range).keys := (Except.ok.inj h).symm
      refine ⟨⟨_, rfl⟩, Store.hasNamespace_iff.2 ⟨table, htable⟩, ?_, fun key => ?_⟩
      · rw [hkeys]
        exact List.pairwise_map.2 (table.view (tx.batch ns) range).sorted
      -- the merged view of a table and a batch holds what reading key by key finds
      · have hmem : key ∈ keys ↔ ((table.view (tx.batch ns) range).get? key).isSome := by
          rw [hkeys, Option.isSome_iff_exists]
          simp only [SortedMap.keys, List.mem_map, Prod.exists, exists_and_right, exists_eq_right,
            SortedMap.get?_eq_some_iff]
        rw [hmem, Table.get?_view, view_of_table hp htable]
        cases range.contains key <;> simp

/-- An open transaction can list any namespace that exists. -/
theorem keysOf_eq_of_open (h : e.ledger.pending id = some changes)
    (hns : e.store.hasNamespace ns = true) (range : Range) :
    ∃ keys, e.keysOf id ns range = .ok keys := by
  obtain ⟨tx, hheld, hfin, -⟩ := held_of_open h
  obtain ⟨table, htable⟩ := Store.hasNamespace_iff.1 hns
  refine ⟨(table.view (tx.batch ns) range).keys, ?_⟩
  unfold keysOf
  rw [hheld]
  show (tx.view e.store ns range >>= fun view => pure view.keys) = _
  unfold Transaction.view
  rw [requireOpen_of_open hfin, Store.table_eq_ok_iff.2 htable]
  rfl

/-! ### What calls do to the ledger -/

/-- A transaction begun adds one to the ledger, with nothing written. -/
theorem ledger_begun : e.begun.ledger = e.ledger.begin e.nextTransaction := by
  refine Ledger.ext rfl (funext fun j => ?_)
  rw [Ledger.begin_pending, ledger_pending, ledger_pending]
  simp only [begun, SortedMap.get?_insert]
  by_cases h : e.nextTransaction = j
  · rw [if_pos h, if_pos h.symm]
    rfl
  · rw [if_neg h, if_neg (Ne.symm h)]

/-- A transaction that has just begun sees what is committed. -/
theorem view_begun : e.begun.ledger.view (some e.nextTransaction) = e.ledger.committed := by
  rw [ledger_begun]
  simp [Ledger.view, Ledger.begin_pending]

/-- Putting a finished or changed transaction back changes what is pending of it, and no more. -/
theorem ledger_keeping_pending (tx : Transaction) (j : TransactionId) :
    (e.keeping id tx).ledger.pending j =
      if j = id then (if tx.finished then none else some tx.changes) else e.ledger.pending j := by
  simp only [ledger_pending, keeping, SortedMap.get?_insert]
  by_cases h : id = j
  · rw [if_pos h, if_pos h.symm]
    rfl
  · rw [if_neg h, if_neg (Ne.symm h)]

/-- A write that a transaction takes is added to what the ledger has pending for it. -/
theorem ledger_keeping (h : e.writtenTo id ns key slot = .ok tx') :
    (e.keeping id tx').ledger = e.ledger.write (.single (ns, key) slot) (some id) := by
  obtain ⟨tx, hopen, -, rfl⟩ := of_writtenTo h
  refine Ledger.ext rfl (funext fun j => ?_)
  rw [ledger_keeping_pending, Ledger.write_some_pending]
  split
  · rw [hopen.pending, Option.map_some, ← changes_insert]
    simp [hopen.2]
  · rfl

end Engine

end SecondaryIndex
