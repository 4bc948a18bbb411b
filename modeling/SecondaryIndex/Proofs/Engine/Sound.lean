import Mathlib.Data.Set.Card
import SecondaryIndex.Proofs.Engine.History

/-!
# Engines that keep their books

A store decides about conflicts by numbers: the commit that last wrote a key, the commit that a
transaction started from, and a registry of how many open transactions started from each commit, by
which it forgets last writes. `Engine.Sound` says that these numbers mean what they should: no number
lies in the future, the registry counts exactly the open transactions, and an open transaction has
written only to namespaces that exist. It says nothing about which last writes are kept; that is
the subject of `Engine/Conflict.lean`.

Every move keeps it (`Sound.move`). The registry is counted through the set of transactions that
started from a commit (`Engine.starters`): beginning adds one number to one of these sets, and each
end takes one away.
-/

namespace SecondaryIndex

/-- The commit that last wrote a key, as far as the store remembers it. -/
def Store.lastWrite? (store : Store) (x : Place) : Option Nat :=
  (store.tables.get? x.1).bind fun table => table.lastWrite.get? x.2

/-- How many open transactions a store has registered as started from a commit. -/
def Store.registered (store : Store) (start : Nat) : Nat := store.active.getD start 0

/-- A start at which nobody is left is not registered. -/
def Store.Tidy (store : Store) : Prop := ∀ start, store.active.get? start ≠ some 0

/-- A flush keeps the sequence of the last write to each key. -/
theorem Table.lastWrite_flushAt (capacity : Nat) (table : Table) :
    (table.flushAt capacity).lastWrite = table.lastWrite := by
  unfold Table.flushAt
  split <;> rfl

namespace Store

variable {store store' : Store}

/-- Stores that are alike have the same last write to every place. -/
theorem Alike.lastWrite?_eq (h : store.Alike store') : store'.lastWrite? = store.lastWrite? := by
  funext x
  unfold lastWrite?
  cases ht : store.tables.get? x.1 with
  | some t =>
    obtain ⟨t', ht', halike⟩ := h.old _ _ ht
    rw [ht', Option.bind_some, Option.bind_some, halike.lastWrite]
  | none =>
    cases ht' : store'.tables.get? x.1 with
    | none => rfl
    | some t' =>
      rw [h.new _ _ ht ht']
      rfl

/-- A store has the namespaces of one it is alike to. -/
theorem Alike.hasNamespace (h : store.Alike store') {ns : Namespace}
    (hns : store.hasNamespace ns = true) : store'.hasNamespace ns = true := by
  obtain ⟨t, ht⟩ := hasNamespace_iff.1 hns
  obtain ⟨t', ht', -⟩ := h.old ns t ht
  exact hasNamespace_iff.2 ⟨t', ht'⟩

/-- Entering registers the start at the last commit once more. -/
theorem registered_enter (start : Nat) :
    store.enter.registered start =
      store.registered start + if start = store.lastCommit then 1 else 0 := by
  simp only [registered, enter, SortedMap.getD, SortedMap.get?_alter]
  by_cases h : store.lastCommit = start
  · simp [h]
  · have h' : ¬ start = store.lastCommit := fun heq => h heq.symm
    simp [h, h']

/-- Leaving registers the start that is left once less. -/
theorem registered_leave (left start : Nat) :
    (store.leave left).registered start =
      store.registered start - if start = left then 1 else 0 := by
  simp only [registered, leave, SortedMap.getD, SortedMap.get?_alter]
  by_cases h : left = start
  · subst h
    cases store.active.get? left with
    | none => simp
    | some n =>
      by_cases hn : n ≤ 1
      · simp [hn]
      · simp [hn]
  · have h' : ¬ start = left := fun heq => h heq.symm
    simp [h, h']

/-- Entering keeps the register of starts tidy. -/
theorem Tidy.enter (h : store.Tidy) : store.enter.Tidy := by
  intro start
  simp only [Store.enter, SortedMap.get?_alter]
  split
  · simp
  · exact h start

/-- Leaving keeps the register of starts tidy. -/
theorem Tidy.leave (h : store.Tidy) (left : Nat) : (store.leave left).Tidy := by
  intro start
  simp only [Store.leave, SortedMap.get?_alter]
  split
  · cases store.active.get? left with
    | none => simp
    | some n =>
      -- the last one out takes the entry along
      by_cases hn : n ≤ 1
      · simp [hn]
      · simp only [Option.bind_some, if_neg hn, ne_eq, Option.some.injEq]
        omega
  · exact h start

/-- A tidy registry is known by how many are registered at each start. -/
theorem Tidy.active_eq (h : store.Tidy) (h' : store'.Tidy)
    (hsame : ∀ start, store'.registered start = store.registered start) :
    store'.active = store.active := by
  refine SortedMap.ext_get? fun start => ?_
  have hstart := hsame start
  have hpos := h start
  have hpos' := h' start
  unfold registered SortedMap.getD at hstart
  cases hold : store.active.get? start with
  | none =>
    rw [hold] at hstart
    cases hnew : store'.active.get? start with
    | none => rfl
    | some n =>
      rw [hnew] at hstart hpos'
      exact absurd (congrArg some hstart) hpos'
  | some m =>
    rw [hold] at hstart hpos
    cases hnew : store'.active.get? start with
    | none =>
      rw [hnew] at hstart
      exact absurd (congrArg some hstart.symm) hpos
    | some n =>
      rw [hnew] at hstart
      exact congrArg some hstart

/-- The least registered start is the horizon. -/
theorem horizon_le {start : Nat} (h : 0 < store.registered start) : store.horizon ≤ start := by
  have hget : ∃ n, store.active.get? start = some n := by
    unfold registered SortedMap.getD at h
    cases hn : store.active.get? start with
    | none => simp [hn] at h
    | some n => exact ⟨n, rfl⟩
  obtain ⟨n, hn⟩ := hget
  -- the registry is sorted by start, so its first entry is the least
  have hmem := SortedMap.get?_eq_some_iff.1 hn
  have hsorted := store.active.sorted
  unfold horizon SortedMap.min?
  cases hentries : store.active.entries with
  | nil =>
    rw [hentries] at hmem
    cases hmem
  | cons first rest =>
    rw [hentries] at hmem hsorted
    show first.1 ≤ start
    rcases List.mem_cons.1 hmem with rfl | hrest
    · exact Nat.le_refl _
    · exact Nat.le_of_lt ((List.pairwise_cons.1 hsorted).1 _ hrest)

/-- The last writes of a store after a commit: those of the commit are new, and whatever is not
newer than the horizon is forgotten. -/
theorem lastWrite?_install (writes : WriteSet) (x : Place) :
    (store.install writes).lastWrite? x =
      (store.tables.get? x.1).bind fun table =>
        (if (writes.changes x).isSome then some (store.lastCommit + 1)
          else table.lastWrite.get? x.2).filter
          fun seq => ({ store with lastCommit := store.lastCommit + 1 } : Store).horizon < seq := by
  -- a table without a batch is pruned as well
  simp only [install, lastWrite?, SortedMap.get?_mapEntries, Option.bind_map, WriteSet.changes,
    SortedMap.getD]
  cases store.tables.get? x.1 with
  | none => rfl
  | some table =>
    simp only [Option.bind_some, Function.comp, Table.prune, SortedMap.get?_filter]
    obtain hw | ⟨batch, hw⟩ := (writes.get? x.1).eq_none_or_eq_some
    · simp [hw]
    · simp only [hw, Table.lastWrite_flushAt, Table.write, SortedMap.get?_overlay,
        SortedMap.get?_mapValues, Option.getD_some]
      cases batch.get? x.2 <;> simp

/-- A batch installed creates no namespace. -/
theorem hasNamespace_install (writes : WriteSet) (ns : Namespace) :
    (store.install writes).hasNamespace ns = store.hasNamespace ns := by
  simp only [install, hasNamespace, SortedMap.contains, SortedMap.get?_mapEntries, Option.isSome_map]

end Store

namespace Engine

variable {e e' : Engine} {id j : TransactionId} {tx tx' : Transaction}

/-! ### Which transactions are open after a move -/

/-- The transactions that are open after one was begun: it, and those that were. -/
theorem hasOpen_begun :
    e.begun.HasOpen j tx' ↔
      (j = e.nextTransaction ∧ tx' = { start := e.store.lastCommit }) ∨
        (j ≠ e.nextTransaction ∧ e.HasOpen j tx') := by
  unfold HasOpen begun
  rw [SortedMap.get?_insert]
  by_cases h : e.nextTransaction = j
  · subst h
    simp only [if_true, Option.some.injEq, ne_eq, not_true, false_and, or_false, true_and]
    exact ⟨fun hj => hj.1.symm, fun hj => ⟨hj.symm, by rw [hj]⟩⟩
  · have h' : ¬ j = e.nextTransaction := fun heq => h heq.symm
    simp [h, h']

/-- A transaction kept under its number is open if it is not finished, and the others are open as they were. -/
theorem hasOpen_keeping :
    (e.keeping id tx).HasOpen j tx' ↔
      (j = id ∧ tx' = tx ∧ tx.finished = false) ∨ (j ≠ id ∧ e.HasOpen j tx') := by
  unfold HasOpen keeping
  rw [SortedMap.get?_insert]
  by_cases h : id = j
  · subst h
    simp only [if_true, Option.some.injEq, ne_eq, not_true, false_and, or_false, true_and]
    exact ⟨fun hj => ⟨hj.1.symm, hj.1 ▸ hj.2⟩, fun hj => ⟨hj.1.symm, hj.1 ▸ hj.2⟩⟩
  · have h' : ¬ j = id := fun heq => h heq.symm
    simp [h, h']

/-- The transactions that are open after one was closed are the others. -/
theorem hasOpen_closed : (e.closed id tx).HasOpen j tx' ↔ j ≠ id ∧ e.HasOpen j tx' := by
  have h : (e.closed id tx).HasOpen j tx' ↔ (e.keeping id tx.close).HasOpen j tx' := Iff.rfl
  rw [h, hasOpen_keeping]
  simp [Transaction.close]

/-- The transactions that are open after one was dropped are the others. -/
theorem hasOpen_discard : (e.discard id).HasOpen j tx' ↔ j ≠ id ∧ e.HasOpen j tx' := by
  unfold HasOpen discard
  cases hget : e.transactions.get? id with
  | none =>
    refine ⟨fun h => ⟨?_, h⟩, And.right⟩
    rintro rfl
    rw [hget] at h
    cases h.1
  | some tx =>
    rw [SortedMap.get?_erase]
    by_cases h : id = j
    · simp [h]
    · have h' : ¬ j = id := fun heq => h heq.symm
      simp [h']

/-- What remains of the store when a transaction is given up. -/
theorem store_discard (e : Engine) (id : TransactionId) :
    (∃ tx, e.HasOpen id tx ∧ (e.discard id).store = e.store.leave tx.start) ∨
      (∀ tx, ¬ e.HasOpen id tx) ∧ (e.discard id).store = e.store := by
  unfold HasOpen discard
  cases hget : e.transactions.get? id with
  | none => exact .inr ⟨fun tx h => by simp at h, rfl⟩
  | some tx =>
    cases hfin : tx.finished with
    | false => exact .inl ⟨tx, ⟨rfl, hfin⟩, by simp [Transaction.abandon, hfin]⟩
    | true =>
      refine .inr ⟨?_, by simp [Transaction.abandon, hfin]⟩
      rintro tx' ⟨hsome, hfin'⟩
      cases hsome
      rw [hfin] at hfin'
      cases hfin'

/-! ### The books -/

/-- The open transactions that started from a commit. -/
def starters (e : Engine) (start : Nat) : Set TransactionId :=
  {id | ∃ tx, e.HasOpen id tx ∧ tx.start = start}

/-- An engine whose store keeps its books. -/
structure Sound (e : Engine) : Prop where
  /-- The numbers to be given out are free. -/
  fresh : ∀ id, e.nextTransaction ≤ id → e.transactions.get? id = none
  start_le : ∀ {id tx}, e.HasOpen id tx → tx.start ≤ e.store.lastCommit
  lastWrite_le : ∀ {x seq}, e.store.lastWrite? x = some seq → seq ≤ e.store.lastCommit
  /-- What is written is written to a namespace that exists. -/
  homed : ∀ {id tx ns}, e.HasOpen id tx → (tx.writes.get? ns).isSome →
    e.store.hasNamespace ns = true
  registry : ∀ start, e.store.registered start = (e.starters start).ncard
  tidy : e.store.Tidy

/-- A new engine is sound: it has no transactions, and an empty register of starts. -/
theorem sound_ofOptions (options : StoreOptions) : (ofOptions options).Sound where
  fresh id _ := rfl
  start_le h := by cases h.1
  lastWrite_le h := by cases h
  homed h := by cases h.1
  registry start := by
    have hnone : (ofOptions options).starters start = ∅ := by
      refine Set.eq_empty_of_forall_notMem fun id hid => ?_
      obtain ⟨tx, h, -⟩ := hid
      cases h.1
    rw [hnone, Set.ncard_empty]
    rfl
  tidy start := by simp [ofOptions]

namespace Sound

/-- Open transactions go by numbers that were given out. -/
theorem lt_nextTransaction (h : e.Sound) (hopen : e.HasOpen id tx) : id < e.nextTransaction := by
  refine Nat.lt_of_not_le fun hle => ?_
  have hnone := h.fresh id hle
  rw [hopen.1] at hnone
  cases hnone

/-- Only finitely many transactions have one start, so they can be counted against the register. -/
theorem finite_starters (h : e.Sound) (start : Nat) : (e.starters start).Finite := by
  refine (Set.finite_lt_nat e.nextTransaction).subset fun id hid => ?_
  obtain ⟨tx, hopen, -⟩ := hid
  exact h.lt_nextTransaction hopen

/-- The start of an open transaction is registered. -/
theorem registered_pos (h : e.Sound) (hopen : e.HasOpen id tx) :
    0 < e.store.registered tx.start := by
  rw [h.registry, Set.ncard_pos (h.finite_starters _)]
  exact ⟨id, tx, hopen, rfl⟩

/-- Taking an open transaction out, in whatever way, and striking it off the registry. -/
theorem without (h : e.Sound) (hopen : e.HasOpen id tx)
    (hstore : e'.store = e.store.leave tx.start)
    (hfresh : ∀ j, e'.nextTransaction ≤ j → e'.transactions.get? j = none)
    (hrest : ∀ j tx', e'.HasOpen j tx' ↔ j ≠ id ∧ e.HasOpen j tx') : e'.Sound where
  fresh := hfresh
  start_le hopen' := by
    rw [hstore]
    exact h.start_le ((hrest _ _).1 hopen').2
  lastWrite_le {x seq} hseq := by
    rw [hstore] at hseq ⊢
    exact h.lastWrite_le (x := x) hseq
  homed hopen' hw := by
    rw [hstore]
    exact h.homed ((hrest _ _).1 hopen').2 hw
  registry start := by
    have hset : e'.starters start = e.starters start \ {id} := by
      ext j
      simp only [starters, hrest, Set.mem_ofPred_eq, Set.mem_sdiff, Set.mem_singleton_iff]
      exact ⟨fun ⟨tx', hj, hs⟩ => ⟨⟨tx', hj.2, hs⟩, hj.1⟩, fun ⟨⟨tx', hj, hs⟩, hne⟩ => ⟨tx', ⟨hne, hj⟩, hs⟩⟩
    rw [hset, hstore, Store.registered_leave, h.registry]
    by_cases hstart : start = tx.start
    · -- the transaction is one of those that started there
      have hmem : id ∈ e.starters start := ⟨tx, hopen, hstart.symm⟩
      rw [if_pos hstart, Set.ncard_sdiff_singleton_of_mem hmem]
    · -- it is none of them
      have hnot : id ∉ e.starters start := by
        rintro ⟨tx', hopen', rfl⟩
        have heq : tx' = tx := Option.some.inj (hopen'.1.symm.trans hopen.1)
        exact hstart (by rw [heq])
      rw [if_neg hstart, Set.sdiff_singleton_eq_self hnot, Nat.sub_zero]
  tidy := by
    rw [hstore]
    exact h.tidy.leave _

/-- Closing an open transaction takes its start off the register once, so the engine stays sound. -/
theorem closed (h : e.Sound) (hopen : e.HasOpen id tx) : (e.closed id tx).Sound := by
  refine h.without hopen rfl (fun j hj => ?_) fun j tx' => hasOpen_closed
  have hne : id ≠ j := Nat.ne_of_lt (Nat.lt_of_lt_of_le (h.lt_nextTransaction hopen) hj)
  show (e.transactions.insert id tx.close).get? j = none
  rw [SortedMap.get?_insert, if_neg hne]
  exact h.fresh j hj

/-- Dropping a transaction takes its start off the register if it was open. -/
theorem discard (h : e.Sound) (id : TransactionId) : (e.discard id).Sound := by
  have hfresh : ∀ j, (e.discard id).nextTransaction ≤ j →
      (e.discard id).transactions.get? j = none := by
    intro j hj
    unfold Engine.discard at hj ⊢
    cases hget : e.transactions.get? id with
    | none =>
      rw [hget] at hj
      exact h.fresh j hj
    | some tx =>
      rw [hget] at hj
      simp [h.fresh j hj]
  rcases store_discard e id with ⟨tx, hopen, hstore⟩ | ⟨hclosed, hstore⟩
  · exact h.without hopen hstore hfresh fun j tx' => hasOpen_discard
  · -- nothing that was open is gone
    have hsame : ∀ j tx', (e.discard id).HasOpen j tx' ↔ e.HasOpen j tx' := by
      intro j tx'
      rw [hasOpen_discard, and_iff_right_iff_imp]
      rintro hj rfl
      exact hclosed tx' hj
    refine ⟨hfresh, fun hj => ?_, fun hseq => ?_, fun hj hw => ?_, fun start => ?_, ?_⟩
    · rw [hstore]
      exact h.start_le ((hsame _ _).1 hj)
    · rw [hstore] at hseq ⊢
      exact h.lastWrite_le hseq
    · rw [hstore]
      exact h.homed ((hsame _ _).1 hj) hw
    · rw [hstore, h.registry]
      simp only [starters, hsame]
    · rw [hstore]
      exact h.tidy

/-- A transaction begun starts at the last commit, where the register counts it. -/
theorem begun (h : e.Sound) : e.begun.Sound where
  fresh j hj := by
    have hne : e.nextTransaction ≠ j := Nat.ne_of_lt hj
    show (e.transactions.insert e.nextTransaction _).get? j = none
    rw [SortedMap.get?_insert, if_neg hne]
    exact h.fresh j (Nat.le_of_lt hj)
  start_le hopen := by
    rcases hasOpen_begun.1 hopen with ⟨-, rfl⟩ | ⟨-, hold⟩
    · exact Nat.le_refl _
    · exact h.start_le hold
  lastWrite_le {x seq} hseq := h.lastWrite_le (x := x) hseq
  homed hopen hw := by
    rcases hasOpen_begun.1 hopen with ⟨-, rfl⟩ | ⟨-, hold⟩
    · cases hw
    · exact h.homed hold hw
  registry start := by
    -- the number is new, so it adds one to the set of its start and leaves the others alone
    have hnot : e.nextTransaction ∉ e.starters start := by
      rintro ⟨tx, hopen, -⟩
      exact Nat.lt_irrefl _ (h.lt_nextTransaction hopen)
    show e.store.enter.registered start = _
    rw [Store.registered_enter, h.registry]
    by_cases hstart : start = e.store.lastCommit
    · have hset : e.begun.starters start = insert e.nextTransaction (e.starters start) := by
        ext j
        simp only [starters, hasOpen_begun, Set.mem_insert_iff, Set.mem_ofPred_eq]
        constructor
        · rintro ⟨tx, ⟨rfl, -⟩ | ⟨-, hold⟩, hs⟩
          · exact .inl rfl
          · exact .inr ⟨tx, hold, hs⟩
        · rintro (rfl | ⟨tx, hold, hs⟩)
          · exact ⟨_, .inl ⟨rfl, rfl⟩, hstart.symm⟩
          · exact ⟨tx, .inr ⟨Nat.ne_of_lt (h.lt_nextTransaction hold), hold⟩, hs⟩
      rw [if_pos hstart, hset, Set.ncard_insert_of_notMem hnot (h.finite_starters start)]
    · have hset : e.begun.starters start = e.starters start := by
        ext j
        simp only [starters, hasOpen_begun, Set.mem_ofPred_eq]
        constructor
        · rintro ⟨tx, ⟨rfl, rfl⟩ | ⟨-, hold⟩, hs⟩
          · exact absurd hs.symm hstart
          · exact ⟨tx, hold, hs⟩
        · rintro ⟨tx, hold, hs⟩
          exact ⟨tx, .inr ⟨Nat.ne_of_lt (h.lt_nextTransaction hold), hold⟩, hs⟩
      rw [if_neg hstart, hset, Nat.add_zero]
  tidy := h.tidy.enter

/-- A write that a transaction takes leaves its start as it is. -/
theorem keeping {ns : Namespace} {key : Bytes} {slot : Slot} (h : e.Sound)
    (hwritten : e.writtenTo id ns key slot = .ok tx') : (e.keeping id tx').Sound := by
  obtain ⟨tx, hopen, hns, htx'⟩ := of_writtenTo hwritten
  have hstart : tx'.start = tx.start := by rw [htx']
  have hfin : tx'.finished = false := by rw [htx']; exact hopen.2
  -- so whatever is open was open before, and started where it did
  have hkept {j : TransactionId} {t : Transaction} (hj : (e.keeping id tx').HasOpen j t) :
      ∃ t', e.HasOpen j t' ∧ t'.start = t.start := by
    rcases hasOpen_keeping.1 hj with ⟨rfl, rfl, -⟩ | ⟨-, hold⟩
    · exact ⟨tx, hopen, hstart.symm⟩
    · exact ⟨t, hold, rfl⟩
  refine ⟨fun j hj => ?_, fun hj => ?_, fun hseq => h.lastWrite_le hseq, fun hj hw => ?_,
    fun start => ?_, h.tidy⟩
  · have hne : id ≠ j := Nat.ne_of_lt (Nat.lt_of_lt_of_le (h.lt_nextTransaction hopen) hj)
    show (e.transactions.insert id tx').get? j = none
    rw [SortedMap.get?_insert, if_neg hne]
    exact h.fresh j hj
  · obtain ⟨t', hold, hs⟩ := hkept hj
    rw [← hs]
    exact h.start_le hold
  · rcases hasOpen_keeping.1 hj with ⟨rfl, rfl, -⟩ | ⟨-, hold⟩
    -- a new batch is for the namespace that was just asked for
    · rw [htx', SortedMap.get?_insert] at hw
      split at hw
      · next heq => exact heq ▸ hns
      · exact h.homed hopen hw
    · exact h.homed hold hw
  · have hset : (e.keeping id tx').starters start = e.starters start := by
      ext j
      constructor
      · rintro ⟨t, hj, hs⟩
        obtain ⟨t', hold, hs'⟩ := hkept hj
        exact ⟨t', hold, hs'.trans hs⟩
      · rintro ⟨t, hold, hs⟩
        by_cases hj : j = id
        · subst hj
          have heq : t = tx := Option.some.inj (hold.1.symm.trans hopen.1)
          exact ⟨tx', hasOpen_keeping.2 (.inl ⟨rfl, rfl, hfin⟩), hstart.trans (heq ▸ hs)⟩
        · exact ⟨t, hasOpen_keeping.2 (.inr ⟨hj, hold⟩), hs⟩
    rw [hset, keeping_store]
    exact h.registry start

/-- A flush, or a namespace created, rearranges the store and keeps it sound. -/
theorem rearranged {store : Store} (h : e.Sound) (halike : e.store.Alike store) :
    Engine.Sound { e with store } where
  fresh := h.fresh
  start_le hopen := by
    show _ ≤ store.lastCommit
    rw [halike.lastCommit]
    exact h.start_le hopen
  lastWrite_le hseq := by
    change store.lastWrite? _ = _ at hseq
    show _ ≤ store.lastCommit
    rw [halike.lastWrite?_eq] at hseq
    rw [halike.lastCommit]
    exact h.lastWrite_le hseq
  homed hopen hw := halike.hasNamespace (h.homed hopen hw)
  registry start := by
    show store.active.getD start 0 = _
    rw [halike.active]
    exact h.registry start
  tidy start := by
    show store.active.get? start ≠ some 0
    rw [halike.active]
    exact h.tidy start

/-- A batch installed has the next sequence, above every start. -/
theorem installed (h : e.Sound) (writes : WriteSet) :
    Engine.Sound { e with store := e.store.install writes } where
  fresh := h.fresh
  start_le hopen := Nat.le_succ_of_le (h.start_le hopen)
  lastWrite_le {x seq} hseq := by
    change (e.store.install writes).lastWrite? x = _ at hseq
    show seq ≤ e.store.lastCommit + 1
    rw [Store.lastWrite?_install] at hseq
    obtain ⟨table, htable, hfilter⟩ := Option.bind_eq_some_iff.1 hseq
    obtain ⟨hsome, -⟩ := Option.filter_eq_some_iff.1 hfilter
    -- either the commit wrote the key, under its own number, or the last write is an old one
    split at hsome
    · exact Nat.le_of_eq (Option.some.inj hsome).symm
    · refine Nat.le_succ_of_le (h.lastWrite_le (x := x) ?_)
      rw [Store.lastWrite?, htable, Option.bind_some, hsome]
  homed hopen hw := by
    show (e.store.install writes).hasNamespace _ = true
    rw [Store.hasNamespace_install]
    exact h.homed hopen hw
  registry start := h.registry start
  tidy := h.tidy

/-- Whether a store keeps its books does not depend on the faults to come. -/
theorem withFaults (h : e.Sound) (faults : FaultPlan) : Engine.Sound { e with faults } :=
  ⟨h.fresh, h.start_le, h.lastWrite_le, h.homed, h.registry, h.tidy⟩

/-- Every move keeps the books. -/
theorem move {event? : Option (LedgerEvent Place Bytes)} (h : e.Sound)
    (hmove : Moves e event? e') : e'.Sound := by
  cases hmove with
  | rearranges healthy alike => exact (h.rearranged alike).withFaults _
  | begins healthy => exact h.begun.withFaults _
  | writes healthy written => exact (h.keeping written).withFaults _
  | commitsNothing healthy hopen nothing => exact (h.closed hopen).withFaults _
  | commits healthy hopen something applied =>
    -- the registry is corrected after the writes were installed
    obtain ⟨-, rfl⟩ := Store.apply_eq_ok_iff.1 applied
    exact ((h.installed _).closed hopen).withFaults _
  | closes healthy hopen => exact (h.closed hopen).withFaults _
  | drops id => exact h.discard id

end Sound

/-- Every engine that is reached is sound. -/
theorem Reaches.sound {options : StoreOptions} {history : History}
    (h : Reaches (ofOptions options) history e) : e.Sound :=
  h.induction (motive := fun _ => Sound) (sound_ofOptions options) Sound.move

end Engine

end SecondaryIndex
