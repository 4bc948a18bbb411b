import SecondaryIndex.Proofs.Engine.Isolation
import SecondaryIndex.Proofs.Engine.Once

/-!
# Engines that answer alike from now on

Whether something that was done to an engine matters is a question about the engine with it and the
engine without it: do they answer alike, whatever is called later on? Two differences must be allowed
for. The numbers that later transactions get may be others, so answers are compared up to a renaming of
numbers. And a transaction may have been written in, which those who use it may tell, but nobody else
as long as it is not committed; such transactions are *hidden*.

`Engine.Echoes rename hidden e e'` says that every history from `e` on has its echo from `e'` on, with the
same calls under the new numbers, and the same answers to all calls that are not made through hidden
transactions. The invariant that carries it is `Engine.Corresponds`: the stores are the same but for open
iterators, the same faults are to come, and the transactions are the same but for what hidden ones have
written. `Corresponds.perform` is its step and `Corresponds.reaches` the run.
-/

namespace SecondaryIndex

/-- A call with other numbers for the transactions. -/
def StoreCall.renamed (rename : TransactionId → TransactionId) : StoreCall → StoreCall
  | .get id ns key => .get (rename id) ns key
  | .put id ns key value => .put (rename id) ns key value
  | .delete id ns key => .delete (rename id) ns key
  | .iterator id ns range => .iterator (rename id) ns range
  | .commit id => .commit (rename id)
  | .rollback id => .rollback (rename id)
  | .drop id => .drop (rename id)
  | call => call

/-- An answer with other numbers for the transactions. -/
def StoreAnswer.renamed (rename : TransactionId → TransactionId) : StoreAnswer → StoreAnswer
  | .begun id => .begun (rename id)
  | answer => answer

namespace Store

variable (store : Store) (n : Nat)

/-- Creating a namespace asks nothing of the open iterators, and leaves their number as it is. -/
theorem createNamespace_withIterators (ns : Namespace) :
    (store.withIterators n).createNamespace ns = (store.createNamespace ns).withIterators n := by
  show (if store.tables.contains ns then _ else _) = Store.withIterators (if _ then _ else _) n
  split <;> rfl

/-- A flush asks nothing of the open iterators. -/
theorem flush_withIterators (ns : Namespace) :
    (store.withIterators n).flush ns = (store.flush ns).map (·.withIterators n) := by
  have htable : (store.withIterators n).table ns = store.table ns := rfl
  unfold flush
  rw [htable]
  cases store.table ns <;> rfl

/-- A batch asks nothing of the open iterators, whether it is applied or refused. -/
theorem apply_withIterators (start : Nat) (writes : WriteSet) :
    (store.withIterators n).apply start writes =
      (store.apply start writes).map (·.withIterators n) := by
  have haccept : (store.withIterators n).accept = store.accept := rfl
  rw [apply_eq, apply_eq, haccept]
  cases writes.entries.forM fun e => store.accept start e.1 e.2 <;> rfl

end Store

/-- A commit looks at no iterator. -/
theorem Transaction.commit_withIterators (tx : Transaction) (store : Store) (n : Nat) :
    tx.commit (store.withIterators n) =
      ((tx.commit store).1, (tx.commit store).2.1, (tx.commit store).2.2.withIterators n) := by
  unfold Transaction.commit
  rw [Store.apply_withIterators]
  split
  · rfl
  · split
    · rfl
    · cases store.apply tx.start tx.writes <;> rfl

namespace Engine

open Program

variable {rename : TransactionId → TransactionId} {hidden : TransactionId → Prop} {e e' e₁ e₁' : Engine}
  {id : TransactionId}

/-- Engines that nobody can tell apart who does not use hidden transactions. -/
structure Corresponds (rename : TransactionId → TransactionId) (hidden : TransactionId → Prop)
    (e e' : Engine) : Prop where
  store : ∃ n, e'.store = e.store.withIterators n
  faults : e'.faults = e.faults
  next : e'.nextTransaction = rename e.nextTransaction
  succ : ∀ id, e.nextTransaction ≤ id → rename (id + 1) = rename id + 1
  injective : rename.Injective
  shown : ∀ id, ¬ hidden id → e'.transactions.get? (rename id) = e.transactions.get? id
  frames : ∀ id, (e'.transactions.get? (rename id)).map Transaction.frame =
    (e.transactions.get? id).map Transaction.frame

namespace Corresponds

variable (h : Corresponds rename hidden e e')

include h

/-- Corresponding engines draw the same fate for a call. -/
theorem fails_eq (call : EngineCall) : e'.fails call = e.fails call := by
  rw [fails, fails, h.faults]

/-- Corresponding engines correspond after the draw too. -/
theorem drawn (call : EngineCall) : Corresponds rename hidden (e.drawn call) (e'.drawn call) := by
  refine ⟨h.store, ?_, h.next, h.succ, h.injective, h.shown, h.frames⟩
  show (e'.faults.draw call).2 = (e.faults.draw call).2
  rw [h.faults]

/-- Only the number of open iterators may differ in the stores that correspond. -/
theorem withStore {s s' : Store} (hs : ∃ n, s' = s.withIterators n) :
    Corresponds rename hidden { e with store := s } { e' with store := s' } :=
  ⟨hs, h.faults, h.next, h.succ, h.injective, h.shown, h.frames⟩

/-- A transaction begun on both sides goes by the next number of each, which the renaming sends to one another. -/
theorem begun : Corresponds rename hidden e.begun e'.begun := by
  obtain ⟨n, hstore⟩ := h.store
  have hstart : ({ start := e'.store.lastCommit } : Transaction) = { start := e.store.lastCommit } := by
    rw [hstore, Store.withIterators_lastCommit]
  have hget (id : TransactionId) :
      e'.begun.transactions.get? (rename id) =
        if e.nextTransaction = id then some { start := e.store.lastCommit }
        else e'.transactions.get? (rename id) := by
    show (e'.transactions.insert e'.nextTransaction { start := e'.store.lastCommit }).get? _ = _
    rw [SortedMap.get?_insert, h.next, hstart]
    simp only [h.injective.eq_iff]
  have hget' (id : TransactionId) : e.begun.transactions.get? id =
      if e.nextTransaction = id then some { start := e.store.lastCommit }
      else e.transactions.get? id := SortedMap.get?_insert _ _ _ _
  refine ⟨⟨n, ?_⟩, h.faults, ?_, fun id hid => h.succ id (Nat.le_of_succ_le hid), h.injective,
    fun id hid => ?_, fun id => ?_⟩
  · show e'.store.enter = _
    rw [hstore]
    rfl
  · show e'.nextTransaction + 1 = rename (e.nextTransaction + 1)
    rw [h.succ _ (Nat.le_refl _), h.next]
  · rw [hget, hget', h.shown id hid]
  · rw [hget, hget']
    split
    · rfl
    · exact h.frames id

/-- A transaction is replaced on both sides, and the store as well. -/
theorem replaced {tx tx' : Transaction} (hframe : tx'.frame = tx.frame)
    (htx : ¬ hidden id → tx' = tx) {s s' : Store} (hs : ∃ n, s' = s.withIterators n) :
    Corresponds rename hidden { e.keeping id tx with store := s }
      { e'.keeping (rename id) tx' with store := s' } := by
  have hget (j : TransactionId) : (e'.transactions.insert (rename id) tx').get? (rename j) =
      if id = j then some tx' else e'.transactions.get? (rename j) := by
    rw [SortedMap.get?_insert]
    simp only [h.injective.eq_iff]
  have hget' (j : TransactionId) : (e.transactions.insert id tx).get? j =
      if id = j then some tx else e.transactions.get? j := SortedMap.get?_insert _ _ _ _
  refine ⟨hs, h.faults, h.next, h.succ, h.injective, fun j hj => ?_, fun j => ?_⟩
  · show (e'.transactions.insert (rename id) tx').get? (rename j) = (e.transactions.insert id tx).get? j
    rw [hget, hget']
    split
    · next heq => rw [htx (heq ▸ hj)]
    · exact h.shown j hj
  · show ((e'.transactions.insert (rename id) tx').get? (rename j)).map _ =
      ((e.transactions.insert id tx).get? j).map _
    rw [hget, hget']
    split
    · exact congrArg some hframe
    · exact h.frames j

/-- A transaction kept on one side is kept under its other name on the other side. -/
theorem keeping (tx : Transaction) :
    Corresponds rename hidden (e.keeping id tx) (e'.keeping (rename id) tx) :=
  h.replaced rfl (fun _ => rfl) h.store

/-- A transaction forgotten on both sides leaves them corresponding. -/
theorem discarded : Corresponds rename hidden (e.discard id) (e'.discard (rename id)) := by
  obtain ⟨n, hstore⟩ := h.store
  have hframe := h.frames id
  unfold discard
  cases hget : e.transactions.get? id with
  | none =>
    rw [hget] at hframe
    rw [Option.map_eq_none_iff.1 hframe]
    exact h
  | some tx =>
    rw [hget] at hframe
    obtain ⟨tx', hget', hsame⟩ := Option.map_eq_some_iff.1 hframe
    obtain ⟨hstart, hfinished⟩ := Prod.mk.inj hsame
    rw [hget']
    refine ⟨⟨n, ?_⟩, h.faults, h.next, h.succ, h.injective, fun j hj => ?_, fun j => ?_⟩
    -- what is given up is the start, and both transactions have the same one
    · show tx'.abandon e'.store = (tx.abandon e.store).withIterators n
      unfold Transaction.abandon
      rw [hfinished, hstart, hstore]
      split <;> rfl
    · show (e'.transactions.erase (rename id)).get? (rename j) = (e.transactions.erase id).get? j
      rw [SortedMap.get?_erase, SortedMap.get?_erase, h.shown j hj]
      simp only [h.injective.eq_iff]
    · show ((e'.transactions.erase (rename id)).get? (rename j)).map _ =
        ((e.transactions.erase id).get? j).map _
      rw [SortedMap.get?_erase, SortedMap.get?_erase]
      simp only [h.injective.eq_iff]
      split
      · rfl
      · exact h.frames j

/-- Work in a hidden transaction, on both sides. -/
theorem worked (hid : hidden id) (hk : e.Keeps id e₁) (hk' : e'.Keeps (rename id) e₁')
    (hf : e₁'.faults = e₁.faults) : Corresponds rename hidden e₁ e₁' := by
  obtain ⟨n, hstore⟩ := h.store
  obtain ⟨m, hm⟩ := hk.store
  obtain ⟨m', hm'⟩ := hk'.store
  refine ⟨⟨m', ?_⟩, hf, ?_, fun j hj => h.succ j (hk.nextTransaction ▸ hj), h.injective,
    fun j hj => ?_, fun j => ?_⟩
  · rw [hm', hm, hstore, Store.withIterators_withIterators, Store.withIterators_withIterators]
  · rw [hk'.nextTransaction, hk.nextTransaction, h.next]
  · have hne : j ≠ id := fun heq => hj (heq ▸ hid)
    rw [hk.others j hne, hk'.others _ (h.injective.ne hne), h.shown j hj]
  · by_cases hj : j = id
    · rw [hj, hk'.own, hk.own, h.frames id]
    · rw [hk.others j hj, hk'.others _ (h.injective.ne hj), h.frames j]

/-! ### What is seen of shown transactions -/

/-- A transaction that is not hidden is held on both sides or on neither, and it is the same one. -/
theorem held_eq (hid : ¬ hidden id) : e'.held (rename id) = e.held id := by
  unfold held
  rw [h.shown id hid]

/-- A transaction that is not hidden reads the same records on both sides. -/
theorem recordOf_eq (hid : ¬ hidden id) (ns : Namespace) (key : Bytes) :
    e'.recordOf (rename id) ns key = e.recordOf id ns key := by
  obtain ⟨n, hstore⟩ := h.store
  unfold recordOf
  rw [h.held_eq hid, hstore]
  rfl

/-- A write of such a transaction is taken on both sides or refused on both. -/
theorem writtenTo_eq (hid : ¬ hidden id) (ns : Namespace) (key : Bytes) (slot : Slot) :
    e'.writtenTo (rename id) ns key slot = e.writtenTo id ns key slot := by
  obtain ⟨n, hstore⟩ := h.store
  unfold writtenTo
  rw [h.held_eq hid, hstore]
  rfl

/-- Such a transaction sees the same keys of a range on both sides. -/
theorem keysOf_eq (hid : ¬ hidden id) (ns : Namespace) (range : Range) :
    e'.keysOf (rename id) ns range = e.keysOf id ns range := by
  obtain ⟨n, hstore⟩ := h.store
  unfold keysOf
  rw [h.held_eq hid, hstore]
  rfl

end Corresponds

/-! ### Calls and their echoes -/

/-- A call and its echo: they are answered alike unless they are made through a hidden transaction, and
lead to engines that correspond unless they commit one. -/
structure Echoed (rename : TransactionId → TransactionId) (hidden : TransactionId → Prop)
    (call : StoreCall) (r r' : Except EngineError StoreAnswer × Engine) : Prop where
  answer : (∀ id, call.through? = some id → ¬ hidden id) →
    r'.1 = r.1.map (StoreAnswer.renamed rename)
  corresponds : (∀ id, hidden id → call.event? r.1 ≠ some (.commits id) ∧
      (call.renamed rename).event? r'.1 ≠ some (.commits (rename id))) →
    Corresponds rename hidden r.2 r'.2

variable {call : StoreCall} {ns : Namespace} {key : Bytes} {slot : Slot}

/-- A call is echoed if the answer of the other side is this one's renamed, whatever the answer is. -/
theorem Echoed.of_eq {r r' : Except EngineError StoreAnswer × Engine}
    (hanswer : r'.1 = r.1.map (StoreAnswer.renamed rename))
    (h : Corresponds rename hidden r.2 r'.2) : Echoed rename hidden call r r' :=
  ⟨fun _ => hanswer, fun _ => h⟩

/-- Nothing is asked of the answer to a call through a hidden transaction. -/
theorem Echoed.of_hidden {r r' : Except EngineError StoreAnswer × Engine}
    (hthrough : call.through? = some id) (hid : hidden id)
    (h : (call.event? r.1 ≠ some (.commits id) ∧
        (call.renamed rename).event? r'.1 ≠ some (.commits (rename id))) →
      Corresponds rename hidden r.2 r'.2) : Echoed rename hidden call r r' :=
  ⟨fun hshown => absurd hid (hshown id hthrough), fun hnot => h (hnot id hid)⟩

/-- What a write comes to that has not drawn a failure. -/
def writeOf (e : Engine) (id : TransactionId) (ns : Namespace) (key : Bytes) (slot : Slot)
    (kind : EngineCall) : Except EngineError Unit × Engine :=
  match e.writtenTo id ns key slot with
  | .ok tx => (.ok ⟨⟩, (e.drawn kind).keeping id tx)
  | .error err => (.error err, e.drawn kind)

/-- A buffered write touches only its own transaction, and draws one fate. -/
theorem keeps_writeOf (e : Engine) (id : TransactionId) (ns : Namespace) (key : Bytes) (slot : Slot)
    (kind : EngineCall) : (e.drawn kind).Keeps id (writeOf e id ns key slot kind).2 ∧
      (writeOf e id ns key slot kind).2.faults = (e.drawn kind).faults := by
  unfold writeOf
  cases hw : e.writtenTo id ns key slot with
  | error err => exact ⟨.refl _ _, rfl⟩
  | ok tx =>
    have hw' : (e.drawn kind).writtenTo id ns key slot = .ok tx := hw
    exact ⟨keeps_keeping hw', rfl⟩

namespace Corresponds

variable (h : Corresponds rename hidden e e')

include h

/-- A call that has not drawn a failure is echoed by one that has not drawn a failure. -/
theorem echoed_guarded {α : Type} (kind : EngineCall) {x x' : EngineM α} {f f' : α → StoreAnswer}
    {r r' : Except EngineError α × Engine}
    (hx : x.run e = if e.fails kind then (.error (.injected kind), e.drawn kind) else r)
    (hx' : x'.run e' = if e'.fails kind then (.error (.injected kind), e'.drawn kind) else r')
    (hgo : Echoed rename hidden call (r.1.map f, r.2) (r'.1.map f', r'.2)) :
    Echoed rename hidden call ((f <$> x).run e) ((f' <$> x').run e') := by
  rw [run_map, run_map, hx, hx', h.fails_eq]
  split
  · exact .of_eq rfl (h.drawn kind)
  · exact hgo

/-- A write, whichever of the two calls makes it. -/
theorem echoed_write (kind : EngineCall) (hthrough : call.through? = some id) :
    Echoed rename hidden call
      ((writeOf e id ns key slot kind).1.map fun _ => .done, (writeOf e id ns key slot kind).2)
      ((writeOf e' (rename id) ns key slot kind).1.map fun _ => .done,
        (writeOf e' (rename id) ns key slot kind).2) := by
  have hdrawn := h.drawn kind
  by_cases hid : hidden id
  · refine .of_hidden hthrough hid fun _ => ?_
    -- on each side the write is made or refused, and its transaction keeps its frame
    obtain ⟨hk, hf⟩ := keeps_writeOf e id ns key slot kind
    obtain ⟨hk', hf'⟩ := keeps_writeOf e' (rename id) ns key slot kind
    exact hdrawn.worked hid hk hk' (by rw [hf, hf', hdrawn.faults])
  · unfold writeOf
    rw [h.writtenTo_eq hid]
    cases e.writtenTo id ns key slot with
    | error err => exact .of_eq rfl hdrawn
    | ok tx => exact .of_eq rfl (hdrawn.keeping tx)

end Corresponds

end Engine

/-- How a transaction ends that is not committed. -/
def Transaction.aborted (tx : Transaction) (store : Store) : Transaction × Store :=
  if tx.finished then (tx, store) else (tx.close, store.leave tx.start)

/-- A rollback leaves the store of an abort, whether it answers well or not. -/
theorem Transaction.rollback_eq (tx : Transaction) (store : Store) :
    (tx.rollback store).2 = tx.aborted store := by
  unfold Transaction.rollback Transaction.aborted
  split <;> rfl

/-- A refused commit leaves the store of an abort. -/
theorem Transaction.commit_eq_of_error {tx : Transaction} {store : Store} {err : EngineError}
    (h : (tx.commit store).1 = .error err) : (tx.commit store).2 = tx.aborted store := by
  unfold Transaction.aborted
  rcases Engine.commit_cases tx store with ⟨hfin, hc⟩ | ⟨-, -, hc⟩ | ⟨-, -, _, -, hc⟩ |
    ⟨hfin, -, _, -, hc⟩
  · rw [hc, hfin, if_pos rfl]
  · rw [hc] at h
    cases h
  · rw [hc] at h
    cases h
  · rw [hc, hfin]
    rfl

/-- A rollback asks nothing of the open iterators. -/
theorem Transaction.rollback_withIterators (tx : Transaction) (store : Store) (n : Nat) :
    tx.rollback (store.withIterators n) =
      ((tx.rollback store).1, (tx.rollback store).2.1, (tx.rollback store).2.2.withIterators n) := by
  unfold Transaction.rollback
  split <;> rfl

namespace Engine

open Program

variable {rename : TransactionId → TransactionId} {hidden : TransactionId → Prop} {e e' : Engine}
  {id : TransactionId} {call : StoreCall}

/-- What the end of a transaction comes to that has not drawn a failure. -/
def endingOf (e : Engine) (id : TransactionId) (kind : EngineCall)
    (ending : Transaction → Store → Except EngineError Unit × Transaction × Store) :
    Except EngineError Unit × Engine :=
  match e.held id with
  | .ok tx => ((ending tx e.store).1, (e.drawn kind).ended id tx ending)
  | .error err => (.error err, e.drawn kind)

/-- What opening an iterator comes to that has not drawn a failure. -/
def openedOf (e : Engine) (id : TransactionId) (ns : Namespace) (range : Range) :
    Except EngineError RawIterator × Engine :=
  match e.keysOf id ns range with
  | .ok keys => (.ok { keys }, (e.drawn .iterator).iterating)
  | .error err => (.error err, e.drawn .iterator)

/-- Opening an iterator touches no transaction, and draws one fate. -/
theorem keeps_openedOf (e : Engine) (id : TransactionId) (ns : Namespace) (range : Range) :
    (e.drawn .iterator).Keeps id (openedOf e id ns range).2 ∧
      (openedOf e id ns range).2.faults = (e.drawn .iterator).faults := by
  unfold openedOf
  cases e.keysOf id ns range with
  | error err => exact ⟨.refl _ _, rfl⟩
  | ok keys => exact ⟨(idles_iterating _).keeps, rfl⟩

namespace Corresponds

variable (h : Corresponds rename hidden e e')

include h

/-- A transaction that ends on both sides without being committed. -/
theorem aborted {tx tx' : Transaction} (hframe : tx'.frame = tx.frame)
    {ending : Transaction → Store → Except EngineError Unit × Transaction × Store}
    (hid : hidden id) (hending : (ending tx e.store).2 = tx.aborted e.store)
    (hending' : (ending tx' e'.store).2 = tx'.aborted e'.store) :
    Corresponds rename hidden (e.ended id tx ending) (e'.ended (rename id) tx' ending) := by
  obtain ⟨n, hstore⟩ := h.store
  obtain ⟨hstart, hfinished⟩ := Prod.mk.inj hframe
  unfold ended
  rw [hending, hending']
  unfold Transaction.aborted
  rw [hfinished]
  split
  · exact h.replaced hframe (fun hnot => absurd hid hnot) ⟨n, hstore⟩
  · have hclosed : tx'.close.frame = tx.close.frame := Prod.ext hstart rfl
    refine h.replaced hclosed (fun hnot => absurd hid hnot) ⟨n, ?_⟩
    rw [hstore, hstart]
    rfl

/-- The end of a transaction, whichever of the two calls makes it. -/
theorem echoed_ending (kind : EngineCall) (hthrough : call.through? = some id)
    {ending : Transaction → Store → Except EngineError Unit × Transaction × Store}
    (hiterators : ∀ tx store n, ending tx (store.withIterators n) =
      ((ending tx store).1, (ending tx store).2.1, (ending tx store).2.2.withIterators n))
    (hcommits : ∀ tx store, (ending tx store).2 = tx.aborted store ∨
      (ending tx store).1 = .ok () ∧ call = .commit id) :
    Echoed rename hidden call
      ((endingOf e id kind ending).1.map fun _ => .done, (endingOf e id kind ending).2)
      ((endingOf e' (rename id) kind ending).1.map fun _ => .done,
        (endingOf e' (rename id) kind ending).2) := by
  have hdrawn := h.drawn kind
  unfold endingOf
  by_cases hid : hidden id
  · refine .of_hidden hthrough hid ?_
    -- both transactions are held, or both are not
    have hframe := h.frames id
    unfold held
    cases hget : e.transactions.get? id with
    | none =>
      rw [hget] at hframe
      rw [Option.map_eq_none_iff.1 hframe]
      exact fun _ => hdrawn
    | some tx =>
      rw [hget] at hframe
      obtain ⟨tx', hget', hsame⟩ := Option.map_eq_some_iff.1 hframe
      rw [hget']
      have hdone {outcome : Except EngineError Unit} (id : TransactionId) (hok : outcome = .ok ()) :
          (StoreCall.commit id).event? (outcome.map fun _ => .done) = some (.commits id) := by
        rw [hok]
        rfl
      rintro ⟨hnot, hnot'⟩
      refine hdrawn.aborted hsame hid ((hcommits tx e.store).resolve_right ?_)
        ((hcommits tx' e'.store).resolve_right ?_)
      · rintro ⟨hok, rfl⟩
        exact hnot (hdone id hok)
      · rintro ⟨hok, rfl⟩
        exact hnot' (hdone (rename id) hok)
  · obtain ⟨n, hstore⟩ := h.store
    rw [h.held_eq hid]
    cases e.held id with
    | error err => exact .of_eq rfl hdrawn
    | ok tx =>
      have hends : ending tx e'.store =
          ((ending tx e.store).1, (ending tx e.store).2.1, (ending tx e.store).2.2.withIterators n) := by
        rw [hstore, hiterators]
      refine .of_eq ?_ ?_
      · show (ending tx e'.store).1.map _ = ((ending tx e.store).1.map _).map _
        rw [hends]
        cases (ending tx e.store).1 <;> rfl
      · show Corresponds rename hidden
          { (e.drawn kind).keeping id (ending tx e.store).2.1 with store := (ending tx e.store).2.2 }
          { (e'.drawn kind).keeping (rename id) (ending tx e'.store).2.1 with
            store := (ending tx e'.store).2.2 }
        rw [hends]
        exact hdrawn.replaced rfl (fun _ => rfl) ⟨n, rfl⟩

/-- An iterator opened through corresponding transactions runs over the same keys. -/
theorem echoed_iterator (hthrough : call.through? = some id) {ns : Namespace} {range : Range} :
    Echoed rename hidden call
      ((openedOf e id ns range).1.map .iterator, (openedOf e id ns range).2)
      ((openedOf e' (rename id) ns range).1.map .iterator, (openedOf e' (rename id) ns range).2) := by
  have hdrawn := h.drawn .iterator
  by_cases hid : hidden id
  · refine .of_hidden hthrough hid fun _ => ?_
    obtain ⟨hk, hf⟩ := keeps_openedOf e id ns range
    obtain ⟨hk', hf'⟩ := keeps_openedOf e' (rename id) ns range
    exact hdrawn.worked hid hk hk' (by rw [hf, hf', hdrawn.faults])
  · unfold openedOf
    rw [h.keysOf_eq hid]
    cases e.keysOf id ns range with
    | error err => exact .of_eq rfl hdrawn
    | ok keys =>
      obtain ⟨n, hstore⟩ := h.store
      exact .of_eq rfl (hdrawn.withStore ⟨e'.store.openIterators + 1, by
        rw [drawn_store, hstore]
        rfl⟩)

/-- Every call is echoed. -/
theorem perform (call : StoreCall) :
    Echoed rename hidden call ((perform call).run e) ((perform (call.renamed rename)).run e') := by
  -- the stores are the same but for the number of open iterators, which no answer depends on
  obtain ⟨n, hstore⟩ := h.store
  cases call with
  | createNamespace ns =>
    refine .of_eq rfl (h.withStore ⟨n, ?_⟩)
    rw [hstore]
    exact Store.createNamespace_withIterators _ _ _
  | flush ns =>
    simp only [Engine.perform, StoreCall.renamed, run_bind, run_ask]
    rw [hstore, Store.flush_withIterators]
    cases e.store.flush ns with
    | error err => exact .of_eq rfl h
    | ok store => exact .of_eq rfl (h.withStore ⟨n, rfl⟩)
  | flushAll =>
    refine .of_eq rfl (h.withStore ⟨n, ?_⟩)
    rw [hstore]
    rfl
  | recentTally ns range =>
    refine h.echoed_guarded .recentTally (run_recentTally _ _ _) (run_recentTally _ _ _) ?_
    refine .of_eq ?_ (h.drawn _)
    rw [hstore]
    show (e.store.recentTally ns range).map _ = ((e.store.recentTally ns range).map _).map _
    cases e.store.recentTally ns range <;> rfl
  | olderSize ns range =>
    refine h.echoed_guarded .olderSize (run_olderSize _ _ _) (run_olderSize _ _ _) ?_
    refine .of_eq ?_ (h.drawn _)
    rw [hstore]
    show (e.store.olderSize ns range).map _ = ((e.store.olderSize ns range).map _).map _
    cases e.store.olderSize ns range <;> rfl
  | begin =>
    refine h.echoed_guarded .begin (run_begin _) (run_begin _) ?_
    refine .of_eq ?_ (h.drawn _).begun
    rw [h.next]
    rfl
  | get id ns key =>
    refine h.echoed_guarded .get (run_lookup _ _ _ _) (run_lookup _ _ _ _) ?_
    -- of a hidden transaction nothing is said
    refine ⟨fun hshown => ?_, fun _ => h.drawn _⟩
    rw [h.recordOf_eq (hshown id rfl)]
    cases e.recordOf id ns key <;> rfl
  | put id ns key value =>
    exact h.echoed_guarded .put (run_put _ _ _ _ _) (run_put _ _ _ _ _) (h.echoed_write .put rfl)
  | delete id ns key =>
    exact h.echoed_guarded .delete (run_delete _ _ _ _) (run_delete _ _ _ _)
      (h.echoed_write .delete rfl)
  | iterator id ns range =>
    exact h.echoed_guarded .iterator (run_openIterator _ _ _ _) (run_openIterator _ _ _ _)
      (h.echoed_iterator rfl)
  | releaseIterator => exact .of_eq rfl (h.withStore ⟨_, by rw [hstore]; rfl⟩)
  | commit id =>
    refine h.echoed_guarded .commit (run_commit _ _) (run_commit _ _) ?_
    refine h.echoed_ending .commit rfl Transaction.commit_withIterators fun tx store => ?_
    -- a commit that went through is in the history and not hidden; one that failed leaves an abort
    cases hc : (tx.commit store).1 with
    | ok u => exact .inr ⟨rfl, rfl⟩
    | error err => exact .inl (Transaction.commit_eq_of_error hc)
  | rollback id =>
    refine h.echoed_guarded .rollback (run_rollback _ _) (run_rollback _ _) ?_
    exact h.echoed_ending .rollback rfl Transaction.rollback_withIterators fun tx store =>
      .inl (tx.rollback_eq store)
  | drop id => exact .of_eq rfl h.discarded

end Corresponds

/-! ### Histories and their echoes -/

end Engine

/-- No hidden transaction was committed in a history. -/
def History.Spares (history : History) (hidden : TransactionId → Prop) : Prop :=
  ∀ id, hidden id → .commits id ∉ history.trace

/-- A history and its echo: the calls were answered alike that were not made through a hidden
transaction. -/
def History.AnsweredAlike (rename : TransactionId → TransactionId) (hidden : TransactionId → Prop)
    (history history' : History) : Prop :=
  List.Forall₂ (fun entry entry' => (∀ id, entry.1.through? = some id → ¬ hidden id) →
    entry'.2 = entry.2.map (StoreAnswer.renamed rename)) history history'

/-- Two stores hold the same records, and give the same statistics of them. -/
structure Store.Matches (s s' : Store) : Prop where
  read : s'.read = s.read
  recentTally : ∀ ns range, s'.recentTally ns range = s.recentTally ns range
  olderSize : ∀ ns range, s'.olderSize ns range = s.olderSize ns range

namespace Engine

variable {rename : TransactionId → TransactionId} {hidden : TransactionId → Prop} {e e' f : Engine}
  {id : TransactionId}

/-- Whatever faults are to come, every history from the first engine on has an echo from the second on:
the same calls, under the new numbers of transactions. As long as no hidden transaction is committed in
either, the calls that are not made through hidden transactions are answered alike, and the stores hold
the same records with the same statistics. -/
def Echoes (rename : TransactionId → TransactionId) (hidden : TransactionId → Prop)
    (e e' : Engine) : Prop :=
  ∀ faults history f, Reaches { e with faults } history f →
    ∃ history' f', Reaches { e' with faults } history' f' ∧
      history'.map Prod.fst = history.map (fun entry => entry.1.renamed rename) ∧
      (history.Spares hidden → history'.Spares (fun id => ∃ j, hidden j ∧ rename j = id) →
        history.AnsweredAlike rename hidden history' ∧ f.store.Matches f'.store)

/-- A history spares the hidden transactions if its last call commits none of them and the rest spares them. -/
theorem spares_cons {history : History} {call : StoreCall}
    {answer : Except EngineError StoreAnswer} :
    History.Spares ((call, answer) :: history) hidden ↔
      (∀ id, hidden id → call.event? answer ≠ some (.commits id)) ∧ history.Spares hidden := by
  unfold History.Spares
  simp only [trace_cons, List.mem_append, Option.mem_toList, not_or, imp_and, forall_and,
    ne_eq]

/-- Corresponding engines have stores that match. -/
theorem Corresponds.storeMatches (h : Corresponds rename hidden e e') : e.store.Matches e'.store := by
  obtain ⟨n, hstore⟩ := h.store
  rw [hstore]
  exact ⟨rfl, fun _ _ => rfl, fun _ _ => rfl⟩

/-- Engines that correspond go on to correspond, call by call. -/
theorem Corresponds.reaches (h : Corresponds rename hidden e e') {history : History}
    (reached : Reaches e history f) :
    ∃ history' f', Reaches e' history' f' ∧
      history'.map Prod.fst = history.map (fun entry => entry.1.renamed rename) ∧
      (history.Spares hidden → history'.Spares (fun id => ∃ j, hidden j ∧ rename j = id) →
        history.AnsweredAlike rename hidden history' ∧ Corresponds rename hidden f f') := by
  induction reached with
  | refl => exact ⟨[], e', .refl, rfl, fun _ _ => ⟨.nil, h⟩⟩
  | call reached call ih =>
    obtain ⟨history', f', reached', hcalls, halike⟩ := ih
    refine ⟨_, _, reached'.call (call.renamed rename), ?_, fun hspares hspares' => ?_⟩
    · rw [List.map_cons, List.map_cons, hcalls]
    · obtain ⟨hnot, hspares⟩ := spares_cons.1 hspares
      obtain ⟨hnot', hspares'⟩ := spares_cons.1 hspares'
      obtain ⟨hanswers, hcorresponds⟩ := halike hspares hspares'
      have hechoed := hcorresponds.perform call
      refine ⟨.cons hechoed.answer hanswers, hechoed.corresponds fun id hid => ⟨hnot id hid, ?_⟩⟩
      exact hnot' (rename id) ⟨id, hid, rfl⟩

/-- Engines that correspond under every fault plan echo one another. -/
theorem echoes_of_corresponds (h : ∀ faults : FaultPlan,
    Corresponds rename hidden { e with faults } { e' with faults }) : Echoes rename hidden e e' := by
  intro faults history f reached
  obtain ⟨history', f', reached', hcalls, halike⟩ := (h faults).reaches reached
  refine ⟨history', f', reached', hcalls, fun hspares hspares' => ?_⟩
  obtain ⟨hanswers, hcorresponds⟩ := halike hspares hspares'
  exact ⟨hanswers, hcorresponds.storeMatches⟩

/-- Makes room for `d` numbers from `n` on. -/
def shifted (n d i : Nat) : Nat := if i < n then i else i + d

/-- Numbers given out from `n` on are moved up by `d`. -/
theorem shifted_of_le {n d i : Nat} (h : n ≤ i) : shifted n d i = i + d :=
  if_neg (Nat.not_lt_of_le h)

/-- No two numbers are moved to one. -/
theorem shifted_injective (n d : Nat) : (shifted n d).Injective := by
  intro i j hij
  unfold shifted at hij
  split at hij <;> split at hij <;> omega

/-- The transactions that are still to be begun get higher numbers, by as much as one engine is ahead
of the other. -/
def renumber (e e' : Engine) : TransactionId → TransactionId :=
  shifted e.nextTransaction (e'.nextTransaction - e.nextTransaction)

/-- Where nothing lasting happened, nobody notices later on. -/
theorem Repeats.echoes (h : e.Repeats e') (hsound : e.Sound) :
    Echoes (renumber e e') (fun _ => False) e e' := by
  have hget (id : TransactionId) :
      e'.transactions.get? (renumber e e' id) = e.transactions.get? id := by
    rw [h.transactions]
    by_cases hid : id < e.nextTransaction
    · exact congrArg _ (if_pos hid)
    · -- these numbers are still to be given out, on both sides
      have hle := Nat.le_of_not_lt hid
      have hnew : renumber e e' id = id + (e'.nextTransaction - e.nextTransaction) := shifted_of_le hle
      rw [hnew, hsound.fresh id hle, hsound.fresh _ (Nat.le_add_right_of_le hle)]
  refine echoes_of_corresponds fun faults => ⟨h.store, rfl, ?_, fun id hid => ?_,
    shifted_injective _ _, fun id _ => hget id, fun id => congrArg _ (hget id)⟩
  · have hnext : renumber e e' e.nextTransaction =
        e.nextTransaction + (e'.nextTransaction - e.nextTransaction) := shifted_of_le (Nat.le_refl _)
    exact (hnext.trans (Nat.add_sub_of_le h.numbers)).symm
  · have hle : e.nextTransaction ≤ id := hid
    unfold renumber
    rw [shifted_of_le hle, shifted_of_le (Nat.le_succ_of_le hle), Nat.add_right_comm]

/-- Where only the writes of one transaction have changed, nobody else notices until it is committed. -/
theorem Keeps.echoes (h : e.Keeps id e') : Echoes (fun id => id) (· = id) e e' :=
  echoes_of_corresponds fun _ => ⟨h.store, rfl, h.nextTransaction, fun _ _ => rfl,
    Function.injective_id, h.others, fun j => by
      by_cases hj : j = id
      · rw [hj]
        exact h.own
      · exact congrArg _ (h.others j hj)⟩

end Engine

end SecondaryIndex
