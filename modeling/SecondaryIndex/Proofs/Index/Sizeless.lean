import SecondaryIndex.Index.AnyIndex
import SecondaryIndex.Proofs.Cursor.Interrupted
import SecondaryIndex.Proofs.Index.Context
import SecondaryIndex.Proofs.Parallel.Program

/-!
# Programs that ask for no sizes

The sizes of records are added up only where they are asked for: by the statistics of the store, and by the estimates of
an index that are made of them. No other call of the engine fails since a size is too large (`Engine.Sizeless`), and
no other program of an index or a cursor does (`IndexM.Sizeless`).

`Program.NeverFails stops x` says that a program does not fail in a certain way, wherever it is run. There is one rule
for each way of building programs, and one lemma for each program that is built.
-/

namespace SecondaryIndex

/-! ### Programs -/

namespace Program

variable {ε σ α β γ : Type} {stops : ε → Prop}

/-- An outcome of two parts fails in a certain way only if one of them does. -/
theorem not_failsWith_bind {r : Except ε α} {f : α → Except ε β} (h : ¬ FailsWith stops r)
    (hf : ∀ a, ¬ FailsWith stops (f a)) : ¬ FailsWith stops (r >>= f) := by
  cases r with
  | ok a => exact hf a
  | error err => exact h

/-- A result that is mapped is no failure. -/
theorem not_failsWith_map {r : Except ε α} (f : α → β) (h : ¬ FailsWith stops r) :
    ¬ FailsWith stops (r.map f) := by
  cases r with
  | ok a => exact id
  | error err => exact h

/-- An error that is translated stands for no other than it did before. -/
theorem not_failsWith_mapError {δ : Type} {stops' : δ → Prop} {f : ε → δ} (hstops : ∀ err, stops' (f err) → stops err)
    {r : Except ε α} (h : ¬ FailsWith stops r) : ¬ FailsWith stops' (r.mapError f) := by
  cases r with
  | ok a => exact id
  | error err => exact fun herr => h (hstops err herr)

/-- A program does not fail in a certain way, wherever it is run. -/
def NeverFails (stops : ε → Prop) (x : ExceptT ε (StateM σ) α) : Prop := ∀ s, ¬ FailsWith stops (x.run s).1

namespace NeverFails

variable {x : ExceptT ε (StateM σ) α}

theorem pure (a : α) : NeverFails stops (Pure.pure a : ExceptT ε (StateM σ) α) := fun _ => id

/-- A failure of another kind. -/
theorem throw {err : ε} (h : ¬ stops err) : NeverFails stops (throw err : ExceptT ε (StateM σ) α) := fun _ => h

/-- To look at the state cannot fail. -/
theorem get : NeverFails stops (getThe σ : ExceptT ε (StateM σ) σ) := fun _ => id

theorem set (s : σ) : NeverFails stops (MonadStateOf.set s : ExceptT ε (StateM σ) PUnit) := fun _ => id

/-- To change the state cannot fail. -/
theorem modify (f : σ → σ) : NeverFails stops (modifyThe σ f : ExceptT ε (StateM σ) PUnit) := fun _ => id

/-- An outcome that does not depend on the state. -/
theorem outcome {r : Except ε α} (h : ¬ FailsWith stops r) :
    NeverFails stops (ExceptT.mk (Pure.pure r) : ExceptT ε (StateM σ) α) := fun _ => h

/-- Neither of two parts fails, so the whole does not. -/
theorem bind {f : α → ExceptT ε (StateM σ) β} (h : NeverFails stops x) (hf : ∀ a, NeverFails stops (f a)) :
    NeverFails stops (x >>= f) := by
  intro s
  have hx := h s
  rw [run_bind]
  rcases hrun : x.run s with ⟨err | a, t⟩
  · rw [hrun] at hx
    exact hx
  · exact hf a t

/-- A result that is mapped was no failure before. -/
theorem map (f : α → β) (h : NeverFails stops x) : NeverFails stops (f <$> x) := by
  rw [map_eq_pure_bind]
  exact h.bind fun a => .pure (f a)

/-- A loop does not fail if none of its rounds does. -/
theorem forM {l : List γ} {act : γ → ExceptT ε (StateM σ) PUnit} (h : ∀ c, NeverFails stops (act c)) :
    NeverFails stops (l.forM act) := by
  induction l with
  | nil => exact .pure _
  | cons c l ih =>
    rw [List.forM_eq_forM, List.forM_cons, ← List.forM_eq_forM]
    exact (h c).bind fun _ => ih

/-- What is done for each member of a list does not fail if it fails for none of them. -/
theorem mapM {l : List γ} {act : γ → ExceptT ε (StateM σ) α} (h : ∀ c, NeverFails stops (act c)) :
    NeverFails stops (l.mapM act) := by
  induction l with
  | nil => exact .pure _
  | cons c l ih =>
    rw [List.mapM_cons]
    exact (h c).bind fun _ => ih.bind fun _ => .pure _

/-- A failure that is handled was of another kind. -/
theorem tryCatch {f : ε → ExceptT ε (StateM σ) α} (h : NeverFails stops x)
    (hf : ∀ err, ¬ stops err → NeverFails stops (f err)) : NeverFails stops (tryCatch x f) := by
  intro s
  have hx := h s
  rw [run_tryCatch]
  rcases hrun : x.run s with ⟨err | a, t⟩
  · rw [hrun] at hx
    exact hf err hx t
  · exact id

end NeverFails

end Program

open Program

/-! ### The store and the engine -/

namespace Store

variable (store : Store) {α : Type}

/-- A table that is missing is told to be so. -/
theorem not_overflow_table (ns : Namespace) : ¬ FailsWith (· = .overflow) (store.table ns) := by
  unfold table
  split <;> exact nofun

/-- A commit is refused for a missing table or for a conflict. -/
theorem not_overflow_apply (start : Nat) (writes : WriteSet) :
    ¬ FailsWith (· = .overflow) (store.apply start writes) := by
  have haccept (ns : Namespace) (batch : Batch) : ¬ FailsWith (· = .overflow) (store.accept start ns batch) := by
    refine not_failsWith_bind (store.not_overflow_table ns) fun table => ?_
    split <;> exact nofun
  have hall : ¬ FailsWith (· = .overflow) (writes.entries.forM fun e => store.accept start e.1 e.2) := by
    induction writes.entries with
    | nil => exact id
    | cons e entries ih =>
      rw [List.forM_eq_forM, List.forM_cons, ← List.forM_eq_forM]
      exact not_failsWith_bind (haccept e.1 e.2) fun _ => ih
  exact not_failsWith_bind hall fun _ => id

end Store

namespace Transaction

variable (tx : Transaction) (store : Store) (ns : Namespace)

/-- A transaction that is over is told to be so. -/
theorem not_overflow_requireOpen : ¬ FailsWith (· = .overflow) tx.requireOpen := by
  unfold requireOpen
  split <;> exact nofun

/-- A look-up reads the buffer of a transaction, or a table. -/
theorem not_overflow_get (key : Bytes) : ¬ FailsWith (· = .overflow) (tx.get store ns key) := by
  refine not_failsWith_bind tx.not_overflow_requireOpen fun _ => ?_
  split
  · exact nofun
  · exact not_failsWith_bind (store.not_overflow_table ns) fun _ => id

/-- A write goes to the buffer of a transaction, and looks for the table only. -/
theorem not_overflow_write (key : Bytes) (slot : Slot) :
    ¬ FailsWith (· = .overflow) (tx.write store ns key slot) :=
  not_failsWith_bind tx.not_overflow_requireOpen fun _ =>
    not_failsWith_bind (store.not_overflow_table ns) fun _ => id

/-- The keys of a range are collected and not weighed. -/
theorem not_overflow_view (range : Range) : ¬ FailsWith (· = .overflow) (tx.view store ns range) :=
  not_failsWith_bind tx.not_overflow_requireOpen fun _ =>
    not_failsWith_bind (store.not_overflow_table ns) fun _ => id

/-- A commit fails as the store refuses it. -/
theorem not_overflow_commit : ¬ FailsWith (· = .overflow) (tx.commit store).1 := by
  have happly := store.not_overflow_apply tx.start tx.writes
  unfold commit
  split
  · exact nofun
  split
  · exact nofun
  split
  · exact nofun
  · next herr =>
    rw [herr] at happly
    exact happly

/-- A rollback fails only for a transaction that is over. -/
theorem not_overflow_rollback : ¬ FailsWith (· = .overflow) (tx.rollback store).1 := by
  unfold rollback
  split <;> exact nofun

end Transaction

namespace Engine

variable {α : Type} (id : TransactionId) (ns : Namespace) (key : Bytes)

/-- A call that no size is too large for. -/
abbrev Sizeless (x : EngineM α) : Prop := NeverFails (· = .overflow) x

/-- A call may fail on its own account. -/
theorem sizeless_invoke (call : EngineCall) : Sizeless (invoke call) := by
  intro e
  rw [run_invoke]
  split <;> exact nofun

/-- To ask the store is sizeless if the question is. -/
theorem sizeless_ask {query : Store → Except EngineError α} (h : ∀ store, ¬ FailsWith (· = .overflow) (query store)) :
    Sizeless (ask query) := fun e => h e.store

/-- A transaction is found, or counts as over. -/
theorem sizeless_transaction : Sizeless (transaction id) := by
  intro e
  rw [run_transaction]
  unfold held
  split <;> exact nofun

/-- To begin a transaction draws a fate and nothing more. -/
theorem sizeless_begin : Sizeless begin :=
  (sizeless_invoke .begin).bind fun _ => .bind .get fun _ => .bind (.set _) fun _ => .pure _

/-- A look-up. -/
theorem sizeless_lookup : Sizeless (lookup id ns key) :=
  (sizeless_invoke .get).bind fun _ => (sizeless_transaction id).bind fun tx =>
    sizeless_ask fun store => tx.not_overflow_get store ns key

/-- A write that has drawn its fate. -/
theorem sizeless_write (slot : Slot) : Sizeless (write id ns key slot) :=
  (sizeless_transaction id).bind fun tx =>
    (sizeless_ask fun store => tx.not_overflow_write store ns key slot).bind fun _ => .modify _

theorem sizeless_put (value : Bytes) : Sizeless (put id ns key value) :=
  (sizeless_invoke .put).bind fun _ => sizeless_write id ns key _

theorem sizeless_delete : Sizeless (delete id ns key) :=
  (sizeless_invoke .delete).bind fun _ => sizeless_write id ns key _

/-- A transaction is ended without a size if its way of ending asks for none. -/
theorem sizeless_finish {ending : Transaction → Store → Except EngineError Unit × Transaction × Store}
    (h : ∀ tx store, ¬ FailsWith (· = .overflow) (ending tx store).1) : Sizeless (finish id ending) :=
  (sizeless_transaction id).bind fun tx => .bind .get fun e =>
    .bind (.modify _) fun _ => .bind (.modify _) fun _ => .outcome (h tx e.store)

/-- A commit. -/
theorem sizeless_commit : Sizeless (commit id) :=
  (sizeless_invoke .commit).bind fun _ => sizeless_finish id Transaction.not_overflow_commit

/-- A rollback. -/
theorem sizeless_rollback : Sizeless (rollback id) :=
  (sizeless_invoke .rollback).bind fun _ => sizeless_finish id Transaction.not_overflow_rollback

/-- What a transaction sees is listed without its sizes. -/
theorem sizeless_visibleKeys (range : Range) : Sizeless (visibleKeys id ns range) :=
  (sizeless_transaction id).bind fun tx =>
    (sizeless_ask fun store => tx.not_overflow_view store ns range).bind fun _ => .pure _

/-- An iterator is opened over what its transaction sees. -/
theorem sizeless_openIterator (range : Range) : Sizeless (openIterator id ns range) :=
  (sizeless_invoke .iterator).bind fun _ => (sizeless_visibleKeys id ns range).bind fun _ =>
    .bind (.modify _) fun _ => .pure _

/-- The health of an iterator is a matter of fate. -/
theorem sizeless_status : Sizeless status := sizeless_invoke .status

end Engine

/-! ### Programs over a database -/

namespace IndexM

variable {α β : Type} {x : IndexM α}

/-- A program that no size is too large for. -/
abbrev Sizeless (x : IndexM α) : Prop := NeverFails (· = .storage .overflow) x

/-- A call of the engine fails on a database as it does on the engine. -/
theorem sizeless_ofEngine {x : EngineM α} (h : Engine.Sizeless x) : Sizeless (ofEngine x) := by
  intro db
  rw [run_ofEngine]
  refine not_failsWith_mapError ?_ (h db.engine)
  exact fun _ => IndexError.storage.inj

/-- A failure to encode is no size that is too large. -/
theorem not_overflow_encoding (outcome : Except EncodingError α) :
    ¬ FailsWith (· = .storage .overflow) (outcome.mapError IndexError.encoding) := by
  cases outcome <;> exact nofun

/-- An encoding is sizeless. -/
theorem sizeless_ofEncoding (outcome : Except EncodingError α) : Sizeless (ofEncoding outcome) :=
  .outcome (not_overflow_encoding outcome)

/-- A failure that is handed on as a value is of another kind. -/
theorem sizeless_attempt_bind {f : Except IndexError α → IndexM β} (h : Sizeless x)
    (hf : ∀ outcome, ¬ FailsWith (· = .storage .overflow) outcome → Sizeless (f outcome)) :
    Sizeless (attempt x >>= f) := by
  intro db
  rw [run_bind_ok (run_attempt x db)]
  exact hf _ (h db) _

/-- An iterator is released whatever comes of the program that uses it. -/
theorem sizeless_withIterator {id : TransactionId} {ns : Namespace} {range : Range}
    {program : RawIterator → IndexM α} (h : ∀ it, Sizeless (program it)) :
    Sizeless (withIterator id ns range program) :=
  (sizeless_ofEngine (Engine.sizeless_openIterator id ns range)).bind fun it =>
    sizeless_attempt_bind (h it) fun _ houtcome => .bind (.modify _) fun _ => .outcome houtcome

/-- A transaction is settled without a size, whether the operation in it succeeded or failed. -/
theorem sizeless_settle (id : TransactionId) {outcome : Except IndexError α} {undo : α → IndexM Unit}
    (h : ¬ FailsWith (· = .storage .overflow) outcome) (hundo : ∀ a, Sizeless (undo a)) :
    Sizeless (settle id outcome undo) := by
  cases outcome with
  | ok a =>
    refine sizeless_attempt_bind (sizeless_ofEngine (Engine.sizeless_commit id)) fun ended hended => ?_
    cases ended with
    | ok _ => exact .pure a
    | error err => exact (hundo a).bind fun _ => .throw hended
  | error err =>
    exact sizeless_attempt_bind (sizeless_ofEngine (Engine.sizeless_rollback id)) fun _ _ => .throw h

/-- A call asks for no size in any context if its operation asks for none, and what takes it back neither. -/
theorem sizeless_transactionally (ctx : Context) {operation : TransactionId → IndexM α} {undo : α → IndexM Unit}
    (h : ∀ id, Sizeless (operation id)) (hundo : ∀ a, Sizeless (undo a)) :
    Sizeless (transactionally ctx operation undo) := by
  cases ctx with
  | some id => exact h id
  | none =>
    exact (sizeless_ofEngine Engine.sizeless_begin).bind fun id =>
      sizeless_attempt_bind (h id) fun outcome houtcome =>
        sizeless_attempt_bind (sizeless_settle id houtcome hundo) fun _ hresult =>
          .bind (.modify _) fun _ => .outcome hresult

/-- What acquires nothing has nothing to take back. -/
theorem sizeless_within (ctx : Context) {operation : TransactionId → IndexM α}
    (h : ∀ id, Sizeless (operation id)) : Sizeless (within ctx operation) :=
  sizeless_transactionally ctx h fun _ => .pure _

end IndexM

/-! ### Cursors -/

namespace Cursor

variable {α : Type} (cursor : Cursor α) (db : Database)

/-- Where a step arrives, the iterator may be unhealthy and the item may be unreadable. -/
theorem not_overflow_arrive {move : Except IndexError Move} (hmove : cursor.Heads move) (edge : Position) :
    ¬ FailsWith (· = .storage .overflow) (((arrive (α := α) move edge).run.run cursor).run db).1.1 := by
  rw [run_arrive]
  cases hmove with
  | refused h => exact h _
  | edge => exact nofun
  | goes place =>
    dsimp only
    split
    · exact nofun
    · unfold landed
      split
      · exact not_failsWith_map _ (IndexM.not_overflow_encoding _)
      · exact nofun

/-- A step forward as a whole. -/
theorem not_overflow_next : ¬ FailsWith (· = .storage .overflow) ((next.run.run cursor).run db).1.1 :=
  cursor.not_overflow_arrive db cursor.heads_forward .pastEnd

/-- A step backward as a whole. -/
theorem not_overflow_prev : ¬ FailsWith (· = .storage .overflow) ((prev.run.run cursor).run db).1.1 :=
  cursor.not_overflow_arrive db cursor.heads_backward .beforeStart

/-- The item under a cursor may be unreadable or not there. -/
theorem not_overflow_present : ¬ FailsWith (· = .storage .overflow) cursor.present := by
  cases hpresent : cursor.present with
  | error err => exact present_not_storage hpresent _
  | ok item => exact id

/-- A seek encodes its item and asks for the health of the iterator. -/
theorem not_overflow_seek (item : α) :
    ¬ FailsWith (· = .storage .overflow) (((seek item).run.run cursor).run db).1.1 := by
  rw [run_seek]
  cases htarget : cursor.target item with
  | error err => exact target_not_storage htarget _
  | ok goal =>
    dsimp only
    split <;> exact nofun

/-- The error that stops a drain is that of a step. -/
theorem not_overflow_drain (steps : Nat) :
    ¬ FailsWith (· = .storage .overflow) (outcomeOf (((drain (α := α) steps).run cursor).run db).1.1) := by
  induction steps generalizing cursor db with
  | zero => exact nofun
  | succ steps ih =>
    have hnext := cursor.not_overflow_next db
    rw [run_drain_succ]
    rcases hrun : (next.run.run cursor).run db with ⟨⟨err | _ | item, cursor'⟩, db'⟩
    · rw [hrun] at hnext
      exact hnext
    · exact nofun
    · have hrest := ih cursor' db'
      dsimp only
      generalize ((drain steps).run cursor').run db' = r at hrest ⊢
      obtain ⟨⟨⟨items, _ | err⟩, cursor''⟩, db''⟩ := r
      · exact nofun
      · exact hrest

/-- Items are collected without their sizes. -/
theorem sizeless_collect : IndexM.Sizeless cursor.collect := by
  intro db
  rw [run_collect]
  exact cursor.not_overflow_drain db _

/-- Counting the items of a cursor is sizeless. -/
theorem sizeless_count : IndexM.Sizeless cursor.count := by
  rw [count_eq]
  exact .map _ cursor.sizeless_collect

end Cursor

/-! ### Indexes -/

namespace Index

open IndexM

variable {K V α : Type} (index : Index K V) (ctx : Context) (id : TransactionId) (key : K) (value : V)

/-- The range of a key comes from its encoding. -/
theorem sizeless_keyRange : Sizeless (index.keyRange key) :=
  (sizeless_ofEncoding _).bind fun _ => .pure _

/-- To insert an entry encodes it and puts it. -/
theorem sizeless_insertWithin : Sizeless (index.insertWithin id key value) :=
  (sizeless_ofEncoding _).bind fun _ => sizeless_ofEngine (Engine.sizeless_put id index.ns _ _)

/-- To erase an entry looks it up before. -/
theorem sizeless_eraseWithin : Sizeless (index.eraseWithin id key value) := by
  refine (sizeless_ofEncoding _).bind fun physical =>
    (sizeless_ofEngine (Engine.sizeless_lookup id index.ns physical)).bind fun record => ?_
  cases record with
  | none => exact .pure _
  | some _ => exact (sizeless_ofEngine (Engine.sizeless_delete id index.ns physical)).bind fun _ => .pure _

/-- To erase all entries of a key collects them before. -/
theorem sizeless_eraseAllWithin : Sizeless (index.eraseAllWithin id key) := by
  have hcollect (it : RawIterator) : Sizeless (do
      let keys := it.collect
      ofEngine Engine.status
      pure keys) := (sizeless_ofEngine Engine.sizeless_status).bind fun _ => .pure _
  exact (index.sizeless_keyRange key).bind fun _ => (sizeless_withIterator hcollect).bind fun _ =>
    .bind (.forM fun physical => sizeless_ofEngine (Engine.sizeless_delete id index.ns physical)) fun _ => .pure _

theorem sizeless_add : Sizeless (index.add ctx key value) :=
  (sizeless_within ctx fun id => index.sizeless_insertWithin id key value).bind fun _ => .modify _

theorem sizeless_remove : Sizeless (index.remove ctx key value) := by
  refine (sizeless_within ctx fun id => index.sizeless_eraseWithin id key value).bind fun removed => ?_
  cases removed with
  | false => exact .pure _
  | true => exact .modify _

theorem sizeless_removeAll : Sizeless (index.removeAll ctx key) :=
  (sizeless_within ctx fun id => (index.sizeless_eraseAllWithin id key).map _).bind fun _ =>
    .bind (.modify _) fun _ => .pure _

/-- A cursor is opened over an iterator of its own. -/
theorem sizeless_openCursor (range : Range) (decode : Bytes → Except EncodingError α) (seeking : Seeking α)
    (stride : Stride) : Sizeless (index.openCursor ctx range decode seeking stride) :=
  (sizeless_transactionally ctx (fun id => sizeless_ofEngine (Engine.sizeless_openIterator id index.ns range))
    fun _ => .modify _).bind fun _ => .bind (.modify _) fun _ => .pure _

/-- The first value is read off an iterator. -/
theorem sizeless_findFirst : Sizeless (index.findFirst ctx key) := by
  have hlook (it : RawIterator) : Sizeless (do
      ofEngine Engine.status
      pure it.seekFirst.key?) := (sizeless_ofEngine Engine.sizeless_status).bind fun _ => .pure _
  refine (index.sizeless_keyRange key).bind fun _ =>
    (sizeless_within ctx fun _ => sizeless_withIterator hlook).bind fun physical? => ?_
  cases physical? with
  | none => exact .throw nofun
  | some physical => exact sizeless_ofEncoding _

theorem sizeless_find : Sizeless (index.find ctx key) :=
  (index.sizeless_keyRange key).bind fun _ => index.sizeless_openCursor ctx _ _ _ _

theorem sizeless_count : Sizeless (index.count ctx) :=
  (index.sizeless_openCursor ctx _ _ _ _).bind Cursor.sizeless_count

theorem sizeless_countKey : Sizeless (index.countKey ctx key) :=
  (index.sizeless_find ctx key).bind Cursor.sizeless_count

end Index

namespace TwoWayIndex

open IndexM

variable {K V : Type} (index : TwoWayIndex K V) (ctx : Context) (key : K) (value : V)

theorem sizeless_add : Sizeless (index.add ctx key value) :=
  (sizeless_within ctx fun id => (index.forward.sizeless_insertWithin id key value).bind fun _ =>
    index.reverse.sizeless_insertWithin id value key).bind fun _ => .modify _

theorem sizeless_remove : Sizeless (index.remove ctx key value) := by
  have herase (id : TransactionId) : Sizeless (do
      let removed ← index.forward.eraseWithin id key value
      let _ ← index.reverse.eraseWithin id value key
      pure removed) :=
    (index.forward.sizeless_eraseWithin id key value).bind fun _ =>
      (index.reverse.sizeless_eraseWithin id value key).bind fun _ => .pure _
  refine (sizeless_within ctx herase).bind fun removed => ?_
  cases removed with
  | false => exact .pure _
  | true => exact .modify _

theorem sizeless_removeAll : Sizeless (index.removeAll ctx key) := by
  have hreverse (id : TransactionId) (doomed : List Bytes) : Sizeless (index.eraseReverseWithin id key doomed) :=
    .forM fun physical => (sizeless_ofEncoding _).bind fun value =>
      (index.reverse.sizeless_eraseWithin id value key).bind fun _ => .pure _
  have herase (id : TransactionId) : Sizeless (do
      let doomed ← index.forward.eraseAllWithin id key
      index.eraseReverseWithin id key doomed
      pure doomed.length) :=
    (index.forward.sizeless_eraseAllWithin id key).bind fun doomed =>
      (hreverse id doomed).bind fun _ => .pure _
  exact (sizeless_within ctx herase).bind fun _ => .bind (.modify _) fun _ => .pure _

end TwoWayIndex

namespace AnyIndex

open IndexM

variable {K V : Type} (index : AnyIndex K V) (ctx : Context) (key : K) (value : V)

theorem sizeless_add : Sizeless (index.add ctx key value) := by
  cases index with
  | oneWay index => exact index.sizeless_add ctx key value
  | twoWay index => exact index.sizeless_add ctx key value

/-- Pairs are added one by one. -/
theorem sizeless_addMany (pairs : List (K × V)) : Sizeless (index.addMany ctx pairs) :=
  .bind (.forM fun pair => index.sizeless_add ctx pair.1 pair.2) fun _ => .pure _

theorem sizeless_remove : Sizeless (index.remove ctx key value) := by
  cases index with
  | oneWay index => exact index.sizeless_remove ctx key value
  | twoWay index => exact index.sizeless_remove ctx key value

theorem sizeless_removeAll : Sizeless (index.removeAll ctx key) := by
  cases index with
  | oneWay index => exact index.sizeless_removeAll ctx key
  | twoWay index => exact index.sizeless_removeAll ctx key

end AnyIndex

end SecondaryIndex
