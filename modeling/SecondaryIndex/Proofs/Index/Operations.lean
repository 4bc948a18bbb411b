import SecondaryIndex.Proofs.Index.Atomic
import SecondaryIndex.Proofs.Index.Effects

/-!
# The operations of an index

Besides the calls that read and write pairs (`IndexCall`), an index tells the range of a key, estimates
how many entries a range has, and answers questions about its size within a budget. An `IndexOperation`
is any of these, and `AnyIndex.operate` carries it out in a context.

All of them are atomic (`AnyIndex.operate_atomic`). What writes does so in one transaction. What answers
from a cursor writes nothing, so that it may fail after its transaction has been settled. Estimates do
not even begin a transaction.
-/

namespace SecondaryIndex

variable {K V : Type}

/-- A question about the size of an index. -/
inductive Question (K V : Type)
  | entries
  | keys
  | valuesOfKey (key : K)
  | values
  | keysWithValue (value : V)

/-- What a question would be answered by within a budget, if an answer fits. -/
def Statistics.count? (stats : Statistics K V) (budget : Budget) (estimateOk : Bool) :
    Question K V → Option Count
  | .entries => stats.entries budget estimateOk
  | .keys => stats.keys budget estimateOk
  | .valuesOfKey key => stats.valuesOfKey key budget estimateOk
  | .values => stats.values budget estimateOk
  | .keysWithValue value => stats.keysWithValue value budget estimateOk

/-- Anything that can be asked of an index. -/
inductive IndexOperation (K V : Type)
  | call (call : IndexCall K V)
  | span (key : K)
  | estimateRange (range : Range)
  | estimateKey (key : K)
  | estimateSize
  /-- Asks for a count and computes it. -/
  | count (question : Question K V) (budget : Budget) (estimateOk : Bool)

/-- What an index reports; `unavailable` is for questions that no answer fits. -/
inductive IndexReport (K V : Type)
  | answer (answer : IndexAnswer K V)
  | span (span : Bytes × Bound)
  | number (n : Nat)
  | unavailable

/-- Carries out an operation in a context. -/
def AnyIndex.operate (index : AnyIndex K V) (ctx : Context) :
    IndexOperation K V → IndexM (IndexReport K V)
  | .call call => .answer <$> index.perform ctx call
  | .span key => .span <$> IndexM.ofEncoding (index.forward.span key)
  | .estimateRange range => .number <$> index.forward.estimateRange range
  | .estimateKey key => .number <$> index.forward.estimateKey key
  | .estimateSize => .number <$> index.forward.estimateSize
  | .count question budget estimateOk =>
    match (index.statistics ctx).count? budget estimateOk question with
    | some count => .number <$> count.value
    | none => pure .unavailable

/-- The complete writes of an operation that succeeds where a view is seen. -/
def IndexOperation.Effect (index : AnyIndex K V) (f : Place → Option Bytes)
    (operation : IndexOperation K V) (c : Changes Place Bytes) : Prop :=
  match operation with
  | call asked => asked.Effect index f c
  | _ => c = .nothing

/-- Nothing is written. -/
def Effect.none : Effect := fun _ c => c = .nothing

namespace Index

open Program IndexM

variable {K V : Type} (index : Index K V) (ctx : Context) (key : K) (value : V)

/-! ### Queries -/

/-- A cursor that is opened commits nothing. -/
theorem openCursor_atomic {α : Type} (range : Range) (decode : Bytes → Except EncodingError α)
    (seeking : Seeking α) (stride : Stride) :
    Atomic index.Allows ctx .none (index.openCursor ctx range decode seeking stride) := by
  have hopen : Atomic index.Allows ctx .none (index.openIterator ctx range) := by
    have hacts (f : Place → Option Bytes) (id : TransactionId) : Acts False [index.ns] id f
        (ofEngine (Engine.openIterator id index.ns range)) fun c _ => c = .nothing :=
      .openIterator List.mem_cons_self fun keys _ => rfl
    exact .transactionally (fun id => .openIterator index.ns range) hacts fun _ => idle_releaseIterator
  exact hopen.observed (fun _ => index.options.metrics) (fun _ => Counters.countOpened) _

/-- The range of a key is computed without the engine. -/
theorem keyRange_idle : Idle (index.keyRange key) := fun db => by
  rw [run_keyRange]
  exact .refl _

theorem find_atomic : Atomic index.Allows ctx .none (index.find ctx key) :=
  .preceded (index.keyRange_idle key) fun range => index.openCursor_atomic ctx range _ _ _

/-- Draining comes after the cursor was opened. -/
theorem drained {α : Type} {program : IndexM (Cursor α)} {allowed : Allowance}
    (h : Atomic allowed ctx .none program) :
    Atomic allowed ctx .none (program >>= fun cursor => cursor.count) :=
  h.followed (fun cursor => count_idle cursor) (.inr fun _ _ hc => hc)

/-- The first value of a key is read without a change. -/
theorem findFirst_atomic : Atomic index.Allows ctx .none (index.findFirst ctx key) := by
  refine .preceded (index.keyRange_idle key) fun range => ?_
  have hacts (f : Place → Option Bytes) (id : TransactionId) : Acts False [index.ns] id f
      (IndexM.withIterator id index.ns range fun iterator => do
        IndexM.ofEngine Engine.status
        pure iterator.seekFirst.key?) fun c _ => c = .nothing :=
    .look List.mem_cons_self fun keys _ => rfl
  have hlook : Atomic index.Allows ctx .none
      (IndexM.within ctx fun id =>
        IndexM.withIterator id index.ns range fun iterator => do
          IndexM.ofEngine Engine.status
          pure iterator.seekFirst.key?) := .within (fun id => .look index.ns range _) hacts
  refine hlook.followed (fun physical? => ?_) (.inr fun _ _ hc => hc)
  cases physical? with
  | none => exact fun _ => .refl _
  | some physical => exact idle_encoding _

/-! ### Estimates -/

theorem estimateRange_idle (range : Range) : Idle (index.estimateRange range) := by
  refine Idle.bind (fun db => ?_) fun recent => Idle.bind (fun db => ?_) fun older =>
    (idle_observe _ _).bind fun _ => idle_pure _
  · rw [run_ofEngine, Engine.run_recentTally]
    split <;> exact Engine.idles_drawn _ _
  · rw [run_ofEngine, Engine.run_olderSize]
    split <;> exact Engine.idles_drawn _ _

theorem estimateKey_idle : Idle (index.estimateKey key) :=
  (index.keyRange_idle key).bind fun range => index.estimateRange_idle range

end Index

namespace Statistics

open IndexM

/-! ### Questions -/

/-- What answers a question drains a cursor or is an estimate. -/
theorem value_of_count? {stats : Statistics K V} {question : Question K V} {budget : Budget}
    {estimateOk : Bool} {count : Count} (h : stats.count? budget estimateOk question = some count)
    {P : IndexM Nat → Prop} (hestimate : ∀ range, P (stats.forward.estimateRange range))
    (hestimateKey : ∀ key, P (stats.forward.estimateKey key))
    (hscan : ∀ {α : Type} (range : Range) (decode : Bytes → Except EncodingError α) (seeking : Seeking α)
      (stride : Stride), P (stats.forward.openCursor stats.ctx range decode seeking stride >>= Cursor.count))
    (hfind : ∀ key, P (stats.forward.find stats.ctx key >>= Cursor.count))
    (hreverse : ∀ reverse value, stats.reverse? = some reverse →
      P (reverse.find stats.ctx value >>= Cursor.count)) : P count.value := by
  have hestimable {value estimate : IndexM Nat} (hvalue : P value) (hestimated : P estimate)
      (heq : estimable budget estimateOk value estimate = some count) : P count.value := by
    unfold estimable at heq
    split at heq
    · cases heq
      exact hvalue
    · split at heq
      · cases heq
        exact hestimated
      · cases heq
  have hscanning {value : IndexM Nat} (hvalue : P value)
      (heq : scanning budget value = some count) : P count.value := by
    unfold scanning at heq
    split at heq
    · cases heq
      exact hvalue
    · cases heq
  cases question with
  | entries => exact hestimable (hscan _ _ _ _) (hestimate _) h
  | keys => exact hscanning (hscan _ _ _ _) h
  | valuesOfKey key => exact hestimable (hfind key) (hestimateKey key) h
  | values => exact hscanning (hscan _ _ _ _) h
  | keysWithValue value =>
    -- the reverse half is scanned, if there is one and the budget allows it
    replace h : (if budget.allowsScan || estimateOk then
        stats.reverse?.map fun reverse => Count.exact do (← reverse.find stats.ctx value).count
      else none) = some count := h
    split at h
    · obtain ⟨reverse, hsome, rfl⟩ := Option.map_eq_some_iff.1 h
      exact hreverse reverse value hsome
    · cases h

end Statistics

namespace AnyIndex

open Program IndexM

variable {K V : Type} (index : AnyIndex K V) (ctx : Context) (key : K) (value : V)

/-! ### Writes -/

/-- An addition commits the pair in every half at once, or nothing. -/
theorem add_atomic : Atomic index.Allows ctx
    (fun _ c => index.Encodes key value ∧ c = .placing (index.StoredAt key value))
    (index.add ctx key value) := by
  cases index with
  | oneWay index =>
    have hacts (f : Place → Option Bytes) (id : TransactionId) : Acts False [index.ns] id f
        (index.insertWithin id key value) fun c _ =>
        (oneWay index).Encodes key value ∧ c = .placing ((oneWay index).StoredAt key value) := by
      refine .mono (Index.insertWithin_puts List.mem_cons_self False.elim) ?_
      rintro c ⟨⟩ ⟨p, hp, rfl⟩
      exact ⟨⟨p, hp⟩, Index.placing_storedAt hp⟩
    exact .followed (.within (fun id => index.insertWithin_confined id key value) hacts)
      (fun _ => idle_observe _ _) (.inl fun _ _ => ⟨(), rfl⟩)
  | twoWay index =>
    have hacts (f : Place → Option Bytes) (id : TransactionId) :
        Acts False [index.forward.ns, index.reverse.ns] id f
          (do index.forward.insertWithin id key value
              index.reverse.insertWithin id value key) fun c _ =>
        (twoWay index).Encodes key value ∧ c = .placing ((twoWay index).StoredAt key value) := by
      refine .mono (TwoWayIndex.insert_puts List.mem_cons_self
        (List.mem_cons_of_mem _ List.mem_cons_self)) ?_
      exact fun _ _ ⟨hp, hq, hc⟩ => ⟨⟨hp, hq⟩, hc⟩
    exact .followed (.within (fun id => index.insert_confined id key value) hacts)
      (fun _ => idle_observe _ _) (.inl fun _ _ => ⟨(), rfl⟩)

/-- A removal commits the deletion in every half at once, or nothing. -/
theorem remove_atomic : Atomic index.Allows ctx
    (fun f c => index.Encodes key value ∧ c = .clearing f (index.StoredAt key value))
    (index.remove ctx key value) := by
  -- what follows the transaction only counts, and cannot fail
  have hcounting (id? : Option MetricsId) (removed : Bool) :
      Idle (if removed then IndexM.observe id? (Counters.countRemoved 1) else pure () :
        IndexM Unit) := by
    cases removed with
    | true => exact idle_observe _ _
    | false => exact idle_pure _
  have hcounted (id? : Option MetricsId) (removed : Bool) (db : Database) :
      ∃ u, ((if removed then IndexM.observe id? (Counters.countRemoved 1) else pure () :
        IndexM Unit).run db).1 = .ok u := by
    cases removed <;> exact ⟨(), rfl⟩
  cases index with
  | oneWay index =>
    have hacts (f : Place → Option Bytes) (id : TransactionId) : Acts False [index.ns] id f
        (index.eraseWithin id key value) fun c _ =>
        (oneWay index).Encodes key value ∧ c = .clearing f ((oneWay index).StoredAt key value) := by
      refine .mono (Index.eraseWithin_deletes List.mem_cons_self False.elim) ?_
      rintro c _ ⟨p, hp, -, rfl⟩
      exact ⟨⟨p, hp⟩, Index.clearing_storedAt hp⟩
    exact .followed (.within (fun id => index.eraseWithin_confined id key value) hacts)
      (hcounting _) (.inl (hcounted _))
  | twoWay index =>
    have hacts (f : Place → Option Bytes) (id : TransactionId) :
        Acts False [index.forward.ns, index.reverse.ns] id f
          (do let removed ← index.forward.eraseWithin id key value
              let _ ← index.reverse.eraseWithin id value key
              pure removed) fun c _ =>
        (twoWay index).Encodes key value ∧ c = .clearing f ((twoWay index).StoredAt key value) := by
      refine .mono (TwoWayIndex.erase_deletes List.mem_cons_self
        (List.mem_cons_of_mem _ List.mem_cons_self)) ?_
      exact fun _ _ ⟨hp, hq, hc⟩ => ⟨⟨hp, hq⟩, hc⟩
    exact .followed (.within (fun id => index.erase_confined id key value) hacts)
      (hcounting _) (.inl (hcounted _))

/-- The removal of a key commits all its deletions at once, or nothing. -/
theorem removeAll_atomic : Atomic index.Allows ctx
    (fun f c => index.forward.codec.Fits key ∧ index.ReadsBack f key ∧
      c = .clearing f (index.Under f key))
    (index.removeAll ctx key) := by
  cases index with
  | oneWay index =>
    have hacts (f : Place → Option Bytes) (id : TransactionId) : Acts False [index.ns] id f
        (List.length <$> index.eraseAllWithin id key) fun c _ =>
        (oneWay index).forward.codec.Fits key ∧ (oneWay index).ReadsBack f key ∧
          c = .clearing f ((oneWay index).Under f key) := by
      refine .map (Index.eraseAllWithin_deletes List.mem_cons_self False.elim) ?_
      rintro c keys ⟨rfl, lower, upper, hspan, hkeys⟩
      exact ⟨EntryCodec.fits_of_span hspan, trivial, Index.clearing_under hspan hkeys⟩
    exact .observed (.within (fun id => .map (index.eraseAllWithin_confined id key)) hacts)
      (fun _ => index.options.metrics) Counters.countRemoved _
  | twoWay index =>
    have hacts (f : Place → Option Bytes) (id : TransactionId) :
        Acts False [index.forward.ns, index.reverse.ns] id f
          (do let doomed ← index.forward.eraseAllWithin id key
              index.eraseReverseWithin id key doomed
              pure doomed.length) fun c _ =>
        (twoWay index).forward.codec.Fits key ∧ (twoWay index).ReadsBack f key ∧
          c = .clearing f ((twoWay index).Under f key) :=
      TwoWayIndex.eraseAll_deletes List.mem_cons_self (List.mem_cons_of_mem _ List.mem_cons_self)
    exact .observed (.within (fun id => index.eraseAll_confined id key) hacts)
      (fun _ => index.forward.options.metrics) Counters.countRemoved _

/-! ### All operations -/

/-- A query of the forward half is one of the index. -/
theorem forward_atomic {α : Type} {program : IndexM α} {effect : Effect}
    (h : Atomic index.forward.Allows ctx effect program) : Atomic index.Allows ctx effect program :=
  h.mono (fun _ _ => index.allows_of_forward) fun _ _ hc => hc

/-- Every call of an index commits its whole effect or nothing. -/
theorem perform_atomic (call : IndexCall K V) :
    Atomic index.Allows ctx (fun f c => call.Effect index f c) (index.perform ctx call) := by
  have hforward {α : Type} {program : IndexM α} (h : Atomic index.forward.Allows ctx .none program) :=
    index.forward_atomic ctx h
  cases call with
  | add key value => exact .map (index.add_atomic ctx key value)
  | remove key value => exact .map (index.remove_atomic ctx key value)
  | removeAll key => exact .map (index.removeAll_atomic ctx key)
  | findFirst key => exact .map (hforward (index.forward.findFirst_atomic ctx key))
  | find key => exact .map (hforward (index.forward.find_atomic ctx key))
  | scanKeys => exact .map (hforward (index.forward.openCursor_atomic ctx _ _ _ _))
  | scanDistinctKeys => exact .map (hforward (index.forward.openCursor_atomic ctx _ _ _ _))
  | scanValues => exact .map (hforward (index.forward.openCursor_atomic ctx _ _ _ _))
  | count => exact .map (hforward (Index.drained ctx (index.forward.openCursor_atomic ctx _ _ _ _)))
  | countKey key => exact .map (hforward (Index.drained ctx (index.forward.find_atomic ctx key)))
  | findByValue value =>
    cases index with
    | oneWay index => exact .of_idle (idle_pure _) fun _ => rfl
    | twoWay index =>
      exact .map ((index.reverse.find_atomic ctx value).mono (fun _ _ => .inr) fun _ _ hc => hc)

/-- Nothing is written to count, however a question is answered. -/
theorem count_atomic {question : Question K V} {budget : Budget} {estimateOk : Bool} {count : Count}
    (h : (index.statistics ctx).count? budget estimateOk question = some count) :
    Atomic index.Allows ctx .none count.value := by
  have hscan {α : Type} {program : IndexM (Cursor α)}
      (hp : Atomic index.forward.Allows ctx .none program) :
      Atomic index.Allows ctx .none (program >>= Cursor.count) :=
    index.forward_atomic ctx (Index.drained ctx hp)
  refine Statistics.value_of_count? h (P := Atomic index.Allows ctx .none)
    (fun range => .of_idle (index.forward.estimateRange_idle range) fun _ => rfl)
    (fun key => .of_idle (index.forward.estimateKey_idle key) fun _ => rfl)
    (fun _ _ _ _ => hscan (index.forward.openCursor_atomic ctx _ _ _ _))
    (fun key => hscan (index.forward.find_atomic ctx key)) fun reverse value hreverse => ?_
  cases index with
  | oneWay index => cases hreverse
  | twoWay index =>
    cases hreverse
    refine Index.drained ctx ?_
    exact (index.reverse.find_atomic ctx value).mono (fun _ _ => .inr) fun _ _ hc => hc

/-- All operations of an index are all or nothing. -/
theorem operate_atomic (operation : IndexOperation K V) :
    Atomic index.Allows ctx (fun f c => operation.Effect index f c) (index.operate ctx operation) := by
  have hidle {α : Type} {program : IndexM α} (h : Idle program) :
      Atomic index.Allows ctx .none program := .of_idle h fun _ => rfl
  cases operation with
  | call call => exact .map (index.perform_atomic ctx call)
  | span key => exact .map (hidle (idle_encoding _))
  | estimateRange range => exact .map (hidle (index.forward.estimateRange_idle range))
  | estimateKey key => exact .map (hidle (index.forward.estimateKey_idle key))
  | estimateSize => exact .map (hidle (index.forward.estimateRange_idle Index.fullRange))
  | count question budget estimateOk =>
    simp only [operate]
    cases hcount : (index.statistics ctx).count? budget estimateOk question with
    | some count => exact .map (index.count_atomic ctx hcount)
    | none => exact hidle (idle_pure _)

end AnyIndex

end SecondaryIndex
