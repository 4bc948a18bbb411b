import SecondaryIndex.Proofs.Engine.Sound
import SecondaryIndex.Proofs.Index.Operations
import SecondaryIndex.Proofs.Index.Refinement

/-!
# Operations that are rejected

An operation that takes a key encodes it before it does anything else. So a key that is too long for
its layout is rejected, and the database is as it was (`AnyIndex.operate_rejects`). Within an ambient
transaction no call of the engine has been made by then. An operation that auto-commits and writes has
begun a transaction of its own; that was rolled back and given up, which leaves nothing behind but the
number it has used (`Engine.discard_rollback_begun`).

Nothing is asked of the ambient transaction or of the namespaces, since neither is looked at.
-/

namespace SecondaryIndex

variable {K V α β : Type}

/-! ### A transaction that did nothing -/

/-- Who enters the registry and leaves it again has not been there. -/
theorem Store.leave_enter {store : Store} (h : store.Tidy) :
    store.enter.leave store.lastCommit = store := by
  have hactive : (store.enter.leave store.lastCommit).active = store.active := by
    refine SortedMap.ext_get? fun start => ?_
    simp only [leave, enter, SortedMap.get?_alter]
    by_cases hstart : store.lastCommit = start
    · subst hstart
      have hpos := h store.lastCommit
      cases hget : store.active.get? store.lastCommit with
      | none => simp
      | some n =>
        rw [hget] at hpos
        have hn : n ≠ 0 := fun hn => hpos (congrArg some hn)
        simp [hn]
    · simp [hstart]
  calc store.enter.leave store.lastCommit
      = { store with active := (store.enter.leave store.lastCommit).active } := rfl
    _ = store := by rw [hactive]

namespace Engine

variable {e : Engine}

/-- The engine after some transactions were begun and forgotten: their numbers are used up. -/
def numbered (e : Engine) (next : TransactionId) : Engine := { e with nextTransaction := next }

/-- Of a transaction that is over and then given up, only its number is left, and what became of the store. -/
theorem discard_keeping_begun (hsound : e.Sound) {tx : Transaction} (hfinished : tx.finished = true)
    (store : Store) :
    ({ e.begun.keeping e.nextTransaction tx with store } : Engine).discard e.nextTransaction =
      { e.numbered (e.nextTransaction + 1) with store } := by
  have hfound : (e.begun.keeping e.nextTransaction tx).transactions.get? e.nextTransaction = some tx := by
    simp only [keeping, SortedMap.get?_insert, if_true]
  have hgone : (e.begun.keeping e.nextTransaction tx).transactions.erase e.nextTransaction =
      e.transactions := by
    refine SortedMap.ext_get? fun id => ?_
    simp only [keeping, begun, SortedMap.get?_erase, SortedMap.get?_insert]
    by_cases hid : id = e.nextTransaction
    · rw [if_pos hid, hid, hsound.fresh _ (Nat.le_refl _)]
    · have hid' : ¬ e.nextTransaction = id := fun heq => hid heq.symm
      simp only [if_neg hid, if_neg hid']
  unfold discard
  dsimp only
  rw [hfound]
  dsimp only
  -- what is given up is over, so the store is left alone
  rw [hgone, Transaction.abandon, if_pos hfinished]
  rfl

/-- A transaction that is begun, rolled back and given up leaves nothing behind but its number. -/
theorem discard_rollback_begun (hsound : e.Sound) (hhealthy : e.faults = .healthy) :
    ((rollback e.nextTransaction).run e.begun).2.discard e.nextTransaction =
      e.numbered (e.nextTransaction + 1) := by
  have hheld : e.begun.held e.nextTransaction = .ok { start := e.store.lastCommit } := by
    simp [held, begun, SortedMap.get?_insert]
  have hrolled : ((rollback e.nextTransaction).run e.begun).2 =
      e.begun.ended e.nextTransaction { start := e.store.lastCommit } Transaction.rollback := by
    rw [run_rollback, fails_of_healthy e.begun _ hhealthy, hheld, drawn_of_healthy e.begun _ hhealthy]
    rfl
  have hended : e.begun.ended e.nextTransaction { start := e.store.lastCommit } Transaction.rollback =
      { e.begun.keeping e.nextTransaction { start := e.store.lastCommit, finished := true } with
        store := e.store.enter.leave e.store.lastCommit } := rfl
  rw [hrolled, hended, Store.leave_enter hsound.tidy]
  exact discard_keeping_begun hsound rfl e.store

end Engine

/-! ### Programs that are rejected -/

/-- A program fails with an error and leaves the database as it was, except that it may have used up
the number of a transaction of its own. -/
def IndexM.Rejects (ctx : Context) (db : Database) (program : IndexM α) (err : IndexError) : Prop :=
  ∃ next, (ctx.isSome → next = db.engine.nextTransaction) ∧
    program.run db = (.error err, { db with engine := db.engine.numbered next })

namespace IndexM.Rejects

open Program

variable {ctx : Context} {db : Database} {err : IndexError} {program : IndexM α}

/-- Nothing was done at all. -/
theorem at_once (h : program.run db = (.error err, db)) : Rejects ctx db program err :=
  ⟨db.engine.nextTransaction, fun _ => rfl, h⟩

/-- What comes after a rejection is not run. -/
theorem followed (h : Rejects ctx db program err) (rest : α → IndexM β) :
    Rejects ctx db (program >>= rest) err := by
  obtain ⟨next, hnext, hrun⟩ := h
  exact ⟨next, hnext, run_bind_error hrun⟩

/-- A rejection gives no result to be changed. -/
theorem map (h : Rejects ctx db program err) (f : α → β) : Rejects ctx db (f <$> program) err := by
  rw [map_eq_pure_bind]
  exact h.followed _

/-- What does nothing within a transaction does nothing in a context. -/
theorem transactionally {operation : TransactionId → IndexM α} {undo : α → IndexM Unit}
    (hsound : db.engine.Sound) (hhealthy : db.engine.faults = .healthy)
    (h : ∀ id db, (operation id).run db = (.error err, db)) :
    Rejects ctx db (IndexM.transactionally ctx operation undo) err := by
  cases ctx with
  | some id => exact .at_once (h id db)
  | none =>
    refine ⟨db.engine.nextTransaction + 1, nofun, ?_⟩
    have hbegin : (ofEngine Engine.begin).run db =
        (.ok db.engine.nextTransaction, { db with engine := db.engine.begun }) := by
      refine run_ofEngine_ok ?_
      rw [Engine.run_begin, Engine.fails_of_healthy _ _ hhealthy, Engine.drawn_of_healthy _ _ hhealthy]
      rfl
    rw [run_transactionally_none operation undo hbegin, h, run_settle_error]
    have hforgotten := Engine.discard_rollback_begun hsound hhealthy
    exact congrArg (fun e => (Except.error err, { db with engine := e })) hforgotten

end IndexM.Rejects

/-! ### Keys that are too long -/

/-- What is reported of a key that is longer than its layout allows. -/
def EntryCodec.tooLong (codec : EntryCodec K V) (key : K) : IndexError :=
  .encoding (.keyTooLong (codec.keys.encode key).length codec.layout.keyLimit)

namespace EntryCodec

variable {codec : EntryCodec K V} {key : K} (h : ¬ codec.Fits key)

include h

/-- A key that does not fit has no stem. -/
theorem stem_of_not_fits : (codec.stem key).mapError .encoding = .error (codec.tooLong key) :=
  congrArg (Except.mapError IndexError.encoding) (if_neg h)

/-- A key that does not fit is encoded with no value. -/
theorem encode_of_not_fits (value : V) :
    (codec.encode key value).mapError .encoding = .error (codec.tooLong key) := by
  have hstem : codec.layout.stem (codec.keys.encode key) = _ := if_neg h
  unfold encode Layout.join
  rw [hstem]
  rfl

/-- A key that does not fit has no span. -/
theorem span_of_not_fits : (codec.span key).mapError .encoding = .error (codec.tooLong key) := by
  have hstem : codec.layout.stem (codec.keys.encode key) = _ := if_neg h
  unfold span Layout.span
  rw [hstem]
  rfl

end EntryCodec

namespace Index

open Program IndexM

variable {index : Index K V} {key : K} {id : TransactionId} {ctx : Context} {db : Database}
  (h : ¬ index.codec.Fits key)

include h

theorem span_rejects : (ofEncoding (index.span key)).run db = (.error (index.codec.tooLong key), db) := by
  rw [run_ofEncoding]
  exact congrArg (·, db) (EntryCodec.span_of_not_fits h)

theorem keyRange_rejects : (index.keyRange key).run db = (.error (index.codec.tooLong key), db) :=
  run_bind_error (span_rejects h)

theorem encode_rejects (value : V) :
    (ofEncoding (index.codec.encode key value)).run db = (.error (index.codec.tooLong key), db) := by
  rw [run_ofEncoding, EntryCodec.encode_of_not_fits h]

/-- An insertion is rejected by its first encoding, before it writes. -/
theorem insertWithin_rejects (value : V) :
    (index.insertWithin id key value).run db = (.error (index.codec.tooLong key), db) :=
  run_bind_error (encode_rejects h value)

theorem eraseWithin_rejects (value : V) :
    (index.eraseWithin id key value).run db = (.error (index.codec.tooLong key), db) :=
  run_bind_error (encode_rejects h value)

/-- The removal of a key is rejected by its span, before it lists. -/
theorem eraseAllWithin_rejects :
    (index.eraseAllWithin id key).run db = (.error (index.codec.tooLong key), db) :=
  run_bind_error (keyRange_rejects h)

/-- A cursor over a key that does not fit is never opened. -/
theorem find_rejects : Rejects ctx db (index.find ctx key) (index.codec.tooLong key) :=
  .at_once (run_bind_error (keyRange_rejects h))

theorem findFirst_rejects : Rejects ctx db (index.findFirst ctx key) (index.codec.tooLong key) :=
  .at_once (run_bind_error (keyRange_rejects h))

theorem countKey_rejects : Rejects ctx db (index.countKey ctx key) (index.codec.tooLong key) :=
  (find_rejects h).followed _

theorem estimateKey_rejects : Rejects ctx db (index.estimateKey key) (index.codec.tooLong key) :=
  .at_once (run_bind_error (keyRange_rejects h))

end Index

/-! ### Operations that take a key -/

/-- The key that an operation takes. A question takes its key only if it is answered at all. -/
def IndexOperation.key? : IndexOperation K V → Option K
  | call asked => asked.key?
  | span key | estimateKey key => some key
  | count (.valuesOfKey key) budget estimateOk =>
    if budget.allowsScan || estimateOk then some key else none
  | estimateRange _ | estimateSize | count _ _ _ => none

namespace AnyIndex

open Program IndexM

variable {index : AnyIndex K V} {key : K} {value : V} {ctx : Context} {db : Database}

/-- A question about the values of a key is answered by a scan or by an estimate. -/
theorem operate_count_cases (index : AnyIndex K V) (ctx : Context) {question : Question K V}
    {budget : Budget} {estimateOk : Bool}
    (hkey : (IndexOperation.count question budget estimateOk).key? = some key) :
    index.operate ctx (.count question budget estimateOk) =
        IndexReport.number <$> index.forward.countKey ctx key ∨
      index.operate ctx (.count question budget estimateOk) =
        IndexReport.number <$> index.forward.estimateKey key := by
  cases question with
  | valuesOfKey key' =>
    have hif : (if budget.allowsScan || estimateOk then some key' else none) = some key := hkey
    obtain ⟨hanswered, hsame⟩ := Option.ite_none_right_eq_some.1 hif
    obtain rfl := Option.some.inj hsame
    have hcount : (index.statistics ctx).count? budget estimateOk (.valuesOfKey key') =
        if budget.allowsScan then some (.exact (index.forward.countKey ctx key'))
        else if estimateOk then some (.estimated (index.forward.estimateKey key')) else none := rfl
    simp only [operate, hcount]
    cases hscan : budget.allowsScan with
    | true => exact .inl rfl
    | false =>
      rw [hscan, Bool.false_or] at hanswered
      rw [hanswered]
      exact .inr rfl
  | entries | keys | values | keysWithValue _ => cases hkey

/-- An operation that takes a key does one of eight things with it. -/
theorem operate_keyed {P : (γ : Type) → IndexM γ → Prop} {operation : IndexOperation K V}
    (hkey : operation.key? = some key)
    (hmap : ∀ {γ δ : Type} {program : IndexM γ} (f : γ → δ), P γ program → P δ (f <$> program))
    (hadd : ∀ value, operation = .call (.add key value) → P Unit (index.add ctx key value))
    (hremove : ∀ value, operation = .call (.remove key value) → P Unit (index.remove ctx key value))
    (hremoveAll : operation = .call (.removeAll key) → P Nat (index.removeAll ctx key))
    (hfindFirst : P V (index.forward.findFirst ctx key))
    (hfind : P (Cursor V) (index.forward.find ctx key))
    (hcountKey : P Nat (index.forward.countKey ctx key))
    (hspan : P (Bytes × Bound) (ofEncoding (index.forward.span key)))
    (hestimateKey : P Nat (index.forward.estimateKey key)) :
    P (IndexReport K V) (index.operate ctx operation) := by
  cases operation with
  | span key' =>
    cases hkey
    exact hmap _ hspan
  | estimateKey key' =>
    cases hkey
    exact hmap _ hestimateKey
  -- without a key there is nothing to show
  | estimateRange range => cases hkey
  | estimateSize => cases hkey
  | count question budget estimateOk =>
    -- a count about a key reads its values or estimates them
    rcases operate_count_cases index ctx hkey with hcount | hcount
    · rw [hcount]
      exact hmap _ hcountKey
    · rw [hcount]
      exact hmap _ hestimateKey
  | call asked =>
    cases asked with
    | add key' value =>
      cases hkey
      exact hmap _ (hmap _ (hadd value rfl))
    | remove key' value =>
      cases hkey
      exact hmap _ (hmap _ (hremove value rfl))
    | removeAll key' =>
      cases hkey
      exact hmap _ (hmap _ (hremoveAll rfl))
    | findFirst key' =>
      cases hkey
      exact hmap _ (hmap _ hfindFirst)
    | find key' =>
      cases hkey
      exact hmap _ (hmap _ hfind)
    | countKey key' =>
      cases hkey
      exact hmap _ (hmap _ hcountKey)
    | scanKeys | scanDistinctKeys | scanValues | count | findByValue _ => cases hkey

section

variable (hsound : db.engine.Sound) (hhealthy : db.engine.faults = .healthy)
  (h : ¬ index.forward.codec.Fits key)

include hsound hhealthy h

/-- An addition is rejected by the forward half, before either half is written. -/
theorem add_rejects : Rejects ctx db (index.add ctx key value) (index.forward.codec.tooLong key) := by
  cases index with
  | oneWay index =>
    exact (Rejects.transactionally hsound hhealthy fun id db =>
      Index.insertWithin_rejects h value).followed _
  | twoWay index =>
    exact (Rejects.transactionally hsound hhealthy fun id db =>
      run_bind_error (Index.insertWithin_rejects h value)).followed _

/-- A removal is rejected by the forward half, before either half is written. -/
theorem remove_rejects :
    Rejects ctx db (index.remove ctx key value) (index.forward.codec.tooLong key) := by
  cases index with
  | oneWay index =>
    exact (Rejects.transactionally hsound hhealthy fun id db =>
      Index.eraseWithin_rejects h value).followed _
  | twoWay index =>
    exact (Rejects.transactionally hsound hhealthy fun id db =>
      run_bind_error (Index.eraseWithin_rejects h value)).followed _

/-- The removal of a key is rejected by the forward half. -/
theorem removeAll_rejects :
    Rejects ctx db (index.removeAll ctx key) (index.forward.codec.tooLong key) := by
  cases index with
  | oneWay index =>
    refine (Rejects.transactionally hsound hhealthy fun id db => ?_).followed _
    rw [map_eq_pure_bind]
    exact run_bind_error (Index.eraseAllWithin_rejects h)
  | twoWay index =>
    exact (Rejects.transactionally hsound hhealthy fun id db =>
      run_bind_error (Index.eraseAllWithin_rejects h)).followed _

/-- Whatever takes a key that is too long is rejected. -/
theorem operate_rejects {operation : IndexOperation K V} (hkey : operation.key? = some key) :
    Rejects ctx db (index.operate ctx operation) (index.forward.codec.tooLong key) := by
  refine operate_keyed (P := fun _ program => Rejects ctx db program (index.forward.codec.tooLong key))
    hkey (fun f hrejects => hrejects.map f) ?_ ?_ ?_ ?_ ?_ ?_ ?_ ?_
  · exact fun value _ => add_rejects hsound hhealthy h
  · exact fun value _ => remove_rejects hsound hhealthy h
  · exact fun _ => removeAll_rejects hsound hhealthy h
  · exact Index.findFirst_rejects h
  · exact Index.find_rejects h
  · exact Index.countKey_rejects h
  · exact .at_once (Index.span_rejects h)
  · exact Index.estimateKey_rejects h

end

end AnyIndex

end SecondaryIndex
