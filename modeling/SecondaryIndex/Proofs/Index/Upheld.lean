import SecondaryIndex.Proofs.Engine.Mentions
import SecondaryIndex.Proofs.Index.Runs

/-!
# Invariants that an index upholds

Not everything that is true of a database can be read off its ledger: the layers that a record lies in, say, or
what counters have counted. `Upholds inv program post` is the tool for such facts. The program keeps the invariant
`inv`, whatever comes of it, and what it gives satisfies `post`. There is one rule for each way of building
programs.

An invariant has to be shown to last only once, for the calls on a store (`Lasting`): they keep it as long as
they write what is allowed. Then whatever an index reads upholds it, and so do the parts of the
operations that write, since these write entries and remove what is listed (`Index.Permits`). What an operation
counts once it is through is left to the invariant in question.
-/

namespace SecondaryIndex

variable {α β : Type}

/-- What counts neither additions nor removals. -/
def Counters.Incidental (count : Counters → Counters) : Prop :=
  ∀ c, (count c).added = c.added ∧ (count c).removed = c.removed

/-- What calls on a store keep that write nothing but what is allowed, and what does not depend on whether anything
but additions and removals was counted. -/
structure Lasting (allowed : Allowance) (inv : Database → Prop) : Prop where
  perform : ∀ {db : Database} (call : StoreCall), inv db →
    (∀ x slot, call.write? = some (x, slot) → allowed x slot) →
    inv { db with engine := ((Engine.perform call).run db.engine).2 }
  drawn : ∀ {db : Database}, inv db → inv { db with engine := db.engine.drawn .status }
  counted : ∀ {db : Database} {count : Counters → Counters} (id? : Option MetricsId), inv db →
    Counters.Incidental count → inv (db.observe id? count)

/-- A program that keeps an invariant, whatever comes of it, and gives what it should. -/
def Upholds (inv : Database → Prop) (program : IndexM α) (post : α → Prop) : Prop :=
  ∀ db, inv db → inv (program.run db).2 ∧ ∀ a, (program.run db).1 = .ok a → post a

namespace Upholds

open Program IndexM

variable {inv : Database → Prop} {allowed : Allowance} {program : IndexM α} {post : α → Prop}
  {post' : β → Prop} {id : TransactionId} {ns : Namespace} {range : Range}

/-! ### Building programs -/

/-- What is said of the result can be left out. -/
theorem anyway (h : Upholds inv program post) : Upholds inv program fun _ => True :=
  fun db hdb => ⟨(h db hdb).1, fun _ _ => trivial⟩

theorem pure {a : α} (h : post a) : Upholds inv (Pure.pure a : IndexM α) post := by
  refine fun db hdb => ⟨hdb, fun a' ha => ?_⟩
  cases ha
  exact h

/-- A failure gives no result that anything need be said of. -/
theorem throw (err : IndexError) : Upholds inv (throw err : IndexM α) post :=
  fun _ hdb => ⟨hdb, nofun⟩

/-- The rest starts out from a result of which the first part has said something. -/
theorem bind {rest : α → IndexM β} (h : Upholds inv program post)
    (hrest : ∀ a, post a → Upholds inv (rest a) post') : Upholds inv (program >>= rest) post' := by
  intro db hdb
  obtain ⟨hkept, hgiven⟩ := h db hdb
  rw [run_bind]
  rcases hrun : program.run db with ⟨err | a, db'⟩
  · rw [hrun] at hkept
    exact ⟨hkept, nofun⟩
  -- what the first part has left is where the second one starts
  · rw [hrun] at hkept hgiven
    exact hrest a (hgiven a rfl) db' hkept

/-- Changing the result changes nothing of the database. -/
theorem map {f : α → β} (h : Upholds inv program fun a => post' (f a)) :
    Upholds inv (f <$> program) post' := by
  rw [map_eq_pure_bind]
  exact h.bind fun a ha => .pure ha

/-- An encoding does not touch the database, and the result is what it gave. -/
theorem encoding (outcome : Except EncodingError α) :
    Upholds inv (ofEncoding outcome) fun a => outcome = .ok a := by
  refine fun db hdb => ⟨hdb, fun a ha => ?_⟩
  cases outcome with
  | error err => cases ha
  | ok a' =>
    cases ha
    rfl

/-- A loop upholds what every round of it upholds. -/
theorem forM {l : List β} {act : β → IndexM PUnit} (h : ∀ b ∈ l, Upholds inv (act b) fun _ => True) :
    Upholds inv (l.forM act) fun _ => True := by
  induction l with
  | nil => exact .pure trivial
  | cons b l ih =>
    rw [List.forM_eq_forM, List.forM_cons, ← List.forM_eq_forM]
    exact (h b List.mem_cons_self).bind fun _ _ => ih fun c hc => h c (List.mem_cons_of_mem b hc)

/-- A change of the database upholds what it keeps. -/
theorem modify {f : Database → Database} (h : ∀ db, inv db → inv (f db)) :
    Upholds inv (modifyThe Database f) fun _ => True :=
  fun db hdb => ⟨h db hdb, fun _ _ => trivial⟩

/-- An attempt upholds what is attempted, and has its result where there is one. -/
theorem attempt (h : Upholds inv program post) :
    Upholds inv (IndexM.attempt program) fun outcome => ∀ a, outcome = .ok a → post a := by
  intro db hdb
  rw [run_attempt]
  obtain ⟨hkept, hgiven⟩ := h db hdb
  refine ⟨hkept, fun outcome houtcome => ?_⟩
  cases houtcome
  exact hgiven

theorem ofOutcome {outcome : Except IndexError α} (h : ∀ a, outcome = .ok a → post a) :
    Upholds inv (IndexM.ofOutcome outcome) post :=
  fun _ hdb => ⟨hdb, h⟩

/-! ### Calls of the engine -/

section Calls

variable (h : Lasting allowed inv)

include h

/-- A program of an engine that answers a call on the store. -/
theorem call {program : EngineM α} {answer : α → StoreAnswer} (asked : StoreCall)
    (hasked : Engine.perform asked = answer <$> program)
    (hwrite : ∀ x slot, asked.write? = some (x, slot) → allowed x slot) :
    Upholds inv (ofEngine program) fun _ => True := by
  intro db hdb
  have hkept := h.perform asked hdb hwrite
  rw [hasked, run_map] at hkept
  exact ⟨hkept, fun _ _ => trivial⟩

theorem lookup (id : TransactionId) (ns : Namespace) (key : Bytes) :
    Upholds inv (ofEngine (Engine.lookup id ns key)) fun _ => True :=
  .call h (.get id ns key) rfl nofun

/-- A buffered write of what is allowed upholds what outlasts all that is allowed. -/
theorem put {key value : Bytes} (hallowed : allowed (ns, key) (some value)) :
    Upholds inv (ofEngine (Engine.put id ns key value)) fun _ => True := by
  refine .call h (.put id ns key value) rfl fun x slot hx => ?_
  cases hx
  exact hallowed

/-- A buffered deletion does so too, where it is allowed. -/
theorem delete {key : Bytes} (hallowed : allowed (ns, key) none) :
    Upholds inv (ofEngine (Engine.delete id ns key)) fun _ => True := by
  refine .call h (.delete id ns key) rfl fun x slot hx => ?_
  cases hx
  exact hallowed

theorem status : Upholds inv (ofEngine Engine.status) fun _ => True := by
  refine fun db hdb => ⟨?_, fun _ _ => trivial⟩
  rw [run_ofEngine, Engine.run_status]
  exact h.drawn hdb

/-- An iterator lists what its transaction sees, where the invariant holds. -/
theorem openIterator (id : TransactionId) (ns : Namespace) (range : Range) :
    Upholds inv (ofEngine (Engine.openIterator id ns range)) fun it =>
      ∃ db keys, inv db ∧ db.engine.keysOf id ns range = .ok keys ∧ it = { keys } := by
  intro db hdb
  refine ⟨(call h (.iterator id ns range) rfl nofun db hdb).1, fun it hit => ?_⟩
  rw [run_ofEngine, Engine.run_openIterator] at hit
  cases hfails : db.engine.fails .iterator with
  | true =>
    rw [hfails] at hit
    cases hit
  | false =>
    rw [hfails, if_neg Bool.false_ne_true] at hit
    cases hkeys : db.engine.keysOf id ns range with
    | error err =>
      rw [hkeys] at hit
      cases hit
    | ok keys =>
      rw [hkeys] at hit
      exact ⟨db, keys, hdb, hkeys, (Except.ok.inj hit).symm⟩

/-- Releasing an iterator upholds what lasts. -/
theorem released : Upholds inv IndexM.releaseIterator fun _ => True :=
  .modify fun _ hdb => h.perform .releaseIterator hdb nofun

/-- Counting an incidental event upholds what lasts. -/
theorem observe {count : Counters → Counters} (id? : Option MetricsId) (hcount : Counters.Incidental count) :
    Upholds inv (IndexM.observe id? count) fun _ => True :=
  .modify fun _ hdb => h.counted id? hdb hcount

/-- Looking into an iterator. -/
theorem look (id : TransactionId) (ns : Namespace) (range : Range) (look : RawIterator → α) :
    Upholds inv
      (IndexM.withIterator id ns range fun it => do
        ofEngine Engine.status
        Pure.pure (look it))
      fun a => ∃ db keys, inv db ∧ db.engine.keysOf id ns range = .ok keys ∧ a = look { keys } := by
  refine (openIterator h id ns range).bind ?_
  rintro it ⟨db, keys, hdb, hkeys, rfl⟩
  have hlook : Upholds inv (do ofEngine Engine.status; Pure.pure (look { keys }) : IndexM α)
      (· = look { keys }) := (status h).bind fun _ _ => .pure rfl
  refine hlook.attempt.bind fun outcome houtcome => (released h).bind fun _ _ => ?_
  exact .ofOutcome fun a ha => ⟨db, keys, hdb, hkeys, houtcome a ha⟩

/-- Settling commits or rolls back, and perhaps undoes; each of them upholds what lasts. -/
theorem settle {outcome : Except IndexError α} {undo : α → IndexM Unit} (id : TransactionId)
    (houtcome : ∀ a, outcome = .ok a → post a) (hundo : ∀ a, Upholds inv (undo a) fun _ => True) :
    Upholds inv (IndexM.settle id outcome undo) post := by
  unfold IndexM.settle
  cases outcome with
  | error err =>
    have hrollback := call h (.rollback id) rfl nofun
    refine hrollback.attempt.bind fun ended _ => ?_
    cases ended <;> exact .throw err
  | ok a =>
    have hcommit := call h (.commit id) rfl nofun
    refine hcommit.attempt.bind fun ended _ => ?_
    cases ended with
    | ok _ => exact .pure (houtcome a rfl)
    | error err => exact (hundo a).bind fun _ _ => .throw err

/-- A transaction around an operation upholds what the operation does within any transaction. -/
theorem transactionally {ctx : Context} {operation : TransactionId → IndexM α} {undo : α → IndexM Unit}
    (hoperation : ∀ id, Upholds inv (operation id) post)
    (hundo : ∀ a, Upholds inv (undo a) fun _ => True) :
    Upholds inv (IndexM.transactionally ctx operation undo) post := by
  cases ctx with
  | some id => exact hoperation id
  | none =>
    refine (call h .begin rfl nofun).bind fun id _ => (hoperation id).attempt.bind fun outcome houtcome => ?_
    refine (settle h id houtcome hundo).attempt.bind fun result hresult => ?_
    have hdiscard : Upholds inv (modifyThe Database (Database.mapEngine fun engine => engine.discard id))
        fun _ => True := .modify fun _ hdb => h.perform (.drop id) hdb nofun
    exact hdiscard.bind fun _ _ => .ofOutcome hresult

theorem within {ctx : Context} {operation : TransactionId → IndexM α}
    (hoperation : ∀ id, Upholds inv (operation id) post) :
    Upholds inv (IndexM.within ctx operation) post :=
  transactionally h hoperation fun _ => .pure trivial

end Calls

end Upholds

/-! ### Cursors -/

namespace Counters

theorem incidental_opened : Incidental countOpened := fun _ => ⟨rfl, rfl⟩

theorem incidental_closed : Incidental countClosed := fun _ => ⟨rfl, rfl⟩

theorem incidental_scan (n : Nat) : Incidental (countScan n) := fun _ => ⟨rfl, rfl⟩

theorem incidental_estimate : Incidental countEstimate := fun _ => ⟨rfl, rfl⟩

end Counters

namespace Cursor

variable {inv : Database → Prop} {allowed : Allowance} {db : Database}

/-- A step asks for the health of the iterator, and for nothing else. -/
theorem next_upholds (h : Lasting allowed inv) (hdb : inv db) (cursor : Cursor α) :
    inv ((next.run.run cursor).run db).2 := by
  show inv (((arrive cursor.forward .pastEnd).run.run cursor).run db).2
  rw [run_arrive]
  rcases cursor.forward with err | _ | it
  · exact hdb
  · exact hdb
  · exact h.drawn hdb

/-- Releasing a cursor counts at most one event and gives up at most one iterator. -/
theorem release_upholds (h : Lasting allowed inv) (hdb : inv db) (cursor : Cursor α) :
    inv (cursor.release db) := by
  unfold release
  split
  · exact hdb
  · exact h.counted _ (h.perform .releaseIterator hdb nofun) Counters.incidental_closed

/-- Collecting upholds what every step of the cursor does. -/
theorem collect_upholds (h : Lasting allowed inv) (cursor : Cursor α) :
    Upholds inv cursor.collect fun _ => True :=
  fun _ hdb => ⟨collect_keeps cursor _ _ hdb (fun cursor _ hdb => next_upholds h hdb cursor)
    (fun cursor _ hdb => release_upholds h hdb cursor)
    fun _ _ _ hdb => h.counted _ hdb (Counters.incidental_scan _), fun _ _ => trivial⟩

/-- Counting what a cursor yields that was just opened. -/
theorem count_upholds (h : Lasting allowed inv) {program : IndexM (Cursor α)}
    (hprogram : Upholds inv program fun _ => True) : Upholds inv (program >>= count) fun _ => True :=
  hprogram.bind fun cursor _ => by
    rw [count_eq]
    exact .map (cursor.collect_upholds h)

end Cursor

/-! ### Indexes -/

variable {K V : Type} {inv : Database → Prop} {allowed : Allowance}

namespace Index

/-- An index may write its entries, and remove what it finds listed. -/
structure Permits (index : Index K V) (allowed : Allowance) (inv : Database → Prop) : Prop where
  put : ∀ {physical}, index.Entry physical → allowed (index.ns, physical) (some emptyValue)
  delete : ∀ {physical}, index.Entry physical → allowed (index.ns, physical) none
  listed : ∀ {db : Database} {id : TransactionId} {range : Range} {keys : List Bytes}, inv db →
    db.engine.keysOf id index.ns range = .ok keys → ∀ key ∈ keys, allowed (index.ns, key) none

variable (index : Index K V) (ctx : Context) (id : TransactionId) (key : K) (value : V)

section Reading

theorem keyRange_upholds : Upholds inv (index.keyRange key) fun _ => True :=
  (Upholds.encoding _).bind fun _ _ => .pure trivial

variable (h : Lasting allowed inv)

include h

/-- A cursor opened counts one event and takes one iterator. -/
theorem openCursor_upholds (range : Range) (decode : Bytes → Except EncodingError α) (seeking : Seeking α)
    (stride : Stride) :
    Upholds inv (index.openCursor ctx range decode seeking stride) fun _ => True := by
  have hopen : Upholds inv (index.openIterator ctx range) fun _ => True :=
    .transactionally h (fun id => (Upholds.openIterator h id index.ns range).anyway) fun _ => .released h
  exact hopen.bind fun _ _ => (Upholds.observe h _ Counters.incidental_opened).bind fun _ _ => .pure trivial

theorem find_upholds : Upholds inv (index.find ctx key) fun _ => True :=
  (index.keyRange_upholds key).bind fun _ _ => index.openCursor_upholds ctx h _ _ _ _

theorem findFirst_upholds : Upholds inv (index.findFirst ctx key) fun _ => True := by
  refine (index.keyRange_upholds key).bind fun range _ => ?_
  refine (Upholds.within h fun id => (Upholds.look h id index.ns range _).anyway).bind fun physical? _ => ?_
  cases physical? with
  | none => exact .throw _
  | some physical => exact (Upholds.encoding _).anyway

theorem estimateRange_upholds (range : Range) : Upholds inv (index.estimateRange range) fun _ => True :=
  (Upholds.call h (.recentTally index.ns range) rfl nofun).bind fun _ _ =>
    (Upholds.call h (.olderSize index.ns range) rfl nofun).bind fun _ _ =>
      (Upholds.observe h _ Counters.incidental_estimate).bind fun _ _ => .pure trivial

theorem estimateKey_upholds : Upholds inv (index.estimateKey key) fun _ => True :=
  (index.keyRange_upholds key).bind fun range _ => index.estimateRange_upholds h range

end Reading

/-! What is done within a transaction writes what is allowed. -/

section Writing

variable (h : Lasting allowed inv) (hpermits : index.Permits allowed inv)

include h hpermits

/-- An insertion upholds what outlasts the writes its index allows. -/
theorem insertWithin_upholds : Upholds inv (index.insertWithin id key value) fun _ => True :=
  (Upholds.encoding _).bind fun _ hencode => .put h (hpermits.put ⟨key, value, hencode⟩)

/-- A removal upholds what outlasts the deletions its index allows. -/
theorem eraseWithin_upholds : Upholds inv (index.eraseWithin id key value) fun _ => True := by
  refine (Upholds.encoding _).bind fun physical hencode => (Upholds.lookup h _ _ _).bind fun slot _ => ?_
  cases slot with
  | none => exact .pure trivial
  | some bytes =>
    exact (Upholds.delete h (hpermits.delete ⟨key, value, hencode⟩)).bind fun _ _ => .pure trivial

/-- The removal of a key does so listing first and deleting afterwards. -/
theorem eraseAllWithin_upholds : Upholds inv (index.eraseAllWithin id key) fun _ => True := by
  rw [eraseAllWithin_eq]
  refine (index.keyRange_upholds key).bind fun range _ => ?_
  refine (Upholds.look h id index.ns range fun it => it.keys).bind ?_
  rintro doomed ⟨db, keys, hdb, hkeys, hdoomed⟩
  rw [show doomed = keys from hdoomed]
  have hdelete : Upholds inv (keys.forM fun physical =>
      IndexM.ofEngine (Engine.delete id index.ns physical)) fun _ => True :=
    .forM fun physical hmem => .delete h (hpermits.listed hdb hkeys physical hmem)
  exact hdelete.bind fun _ _ => .pure trivial

end Writing

end Index

namespace TwoWayIndex

variable (index : TwoWayIndex K V) (id : TransactionId) (key : K) (value : V)
  (h : Lasting allowed inv) (hforward : index.forward.Permits allowed inv)
  (hreverse : index.reverse.Permits allowed inv)

include h hforward hreverse

/-- An insertion into both halves upholds what outlasts the writes of both. -/
theorem insert_upholds : Upholds inv
    (do index.forward.insertWithin id key value
        index.reverse.insertWithin id value key) fun _ => True :=
  (index.forward.insertWithin_upholds id key value h hforward).bind fun _ _ =>
    index.reverse.insertWithin_upholds id value key h hreverse

/-- A removal from both halves upholds what outlasts the deletions of both. -/
theorem erase_upholds : Upholds inv
    (do let removed ← index.forward.eraseWithin id key value
        let _ ← index.reverse.eraseWithin id value key
        pure removed) fun _ => True :=
  (index.forward.eraseWithin_upholds id key value h hforward).bind fun _ _ =>
    (index.reverse.eraseWithin_upholds id value key h hreverse).bind fun _ _ => .pure trivial

theorem eraseAll_upholds : Upholds inv
    (do let doomed ← index.forward.eraseAllWithin id key
        index.eraseReverseWithin id key doomed
        pure doomed.length) fun _ => True := by
  refine (index.forward.eraseAllWithin_upholds id key h hforward).bind fun doomed _ => ?_
  have herase : Upholds inv (index.eraseReverseWithin id key doomed) fun _ => True :=
    .forM fun physical _ => (Upholds.encoding _).bind fun value _ =>
      (index.reverse.eraseWithin_upholds id value key h hreverse).bind fun _ _ => .pure trivial
  exact herase.bind fun _ _ => .pure trivial

end TwoWayIndex

/-- A call that adds or removes pairs. -/
def IndexCall.Writes : IndexCall K V → Prop
  | .add _ _ => True
  | .remove _ _ => True
  | .removeAll _ => True
  | _ => False

namespace AnyIndex

/-- Every half of an index may write its entries, and remove what it finds listed. -/
structure Permits (index : AnyIndex K V) (allowed : Allowance) (inv : Database → Prop) : Prop where
  forward : index.forward.Permits allowed inv
  reverse : ∀ reverse, index.reverse? = some reverse → reverse.Permits allowed inv

variable (index : AnyIndex K V) (ctx : Context) (h : Lasting allowed inv)

include h

/-- Whatever is read upholds an invariant. -/
theorem perform_upholds_of_reads {call : IndexCall K V} (hreads : ¬call.Writes) :
    Upholds inv (index.perform ctx call) fun _ => True := by
  cases call with
  | add key value => exact absurd trivial hreads
  | remove key value => exact absurd trivial hreads
  | removeAll key => exact absurd trivial hreads
  | findFirst key => exact .map (index.forward.findFirst_upholds ctx key h)
  | find key => exact .map (index.forward.find_upholds ctx key h)
  | scanKeys => exact .map (index.forward.openCursor_upholds ctx h _ _ _ _)
  | scanDistinctKeys => exact .map (index.forward.openCursor_upholds ctx h _ _ _ _)
  | scanValues => exact .map (index.forward.openCursor_upholds ctx h _ _ _ _)
  | count => exact .map (Cursor.count_upholds h (index.forward.openCursor_upholds ctx h _ _ _ _))
  | countKey key => exact .map (Cursor.count_upholds h (index.forward.find_upholds ctx key h))
  | findByValue value =>
    cases index with
    | oneWay index => exact .pure trivial
    | twoWay index => exact .map (index.reverse.find_upholds ctx value h)

/-- Whatever is written upholds an invariant that does not depend on what is counted. -/
theorem perform_upholds (hpermits : index.Permits allowed inv)
    (hcounted : ∀ db id? count, inv db → inv (db.observe id? count)) (call : IndexCall K V) :
    Upholds inv (index.perform ctx call) fun _ => True := by
  have hobserve (id? : Option MetricsId) (count : Counters → Counters) :
      Upholds inv (IndexM.observe id? count) fun _ => True := .modify fun db => hcounted db id? count
  have hremoved (id? : Option MetricsId) (removed : Bool) :
      Upholds inv (if removed then IndexM.observe id? (Counters.countRemoved 1) else pure () : IndexM Unit)
        fun _ => True := by
    cases removed with
    | true => exact hobserve _ _
    | false => exact .pure trivial
  have hnumber (id? : Option MetricsId) (n : Nat) :
      Upholds inv (do IndexM.observe id? (Counters.countRemoved n); pure n) fun _ => True :=
    (hobserve _ _).bind fun _ _ => .pure trivial
  -- a call that only reads upholds more than what lasts, and was settled before
  by_cases hwrites : call.Writes
  · cases index with
    | oneWay index =>
      have hindex : index.Permits allowed inv := hpermits.forward
      cases call with
      | add key value =>
        exact .map ((Upholds.within h fun id => index.insertWithin_upholds id key value h hindex).bind
          fun _ _ => hobserve _ _)
      | remove key value =>
        exact .map ((Upholds.within h fun id => index.eraseWithin_upholds id key value h hindex).bind
          fun _ _ => hremoved _ _)
      | removeAll key =>
        have hlength (id : TransactionId) :
            Upholds inv (List.length <$> index.eraseAllWithin id key) fun _ => True :=
          .map (index.eraseAllWithin_upholds id key h hindex)
        exact .map ((Upholds.within h hlength).bind fun _ _ => hnumber _ _)
      | _ => exact hwrites.elim
    | twoWay index =>
      have hforward : index.forward.Permits allowed inv := hpermits.forward
      have hreverse : index.reverse.Permits allowed inv := hpermits.reverse _ rfl
      cases call with
      | add key value =>
        exact .map ((Upholds.within h fun id => index.insert_upholds id key value h hforward hreverse).bind
          fun _ _ => hobserve _ _)
      | remove key value =>
        exact .map ((Upholds.within h fun id => index.erase_upholds id key value h hforward hreverse).bind
          fun _ _ => hremoved _ _)
      | removeAll key =>
        exact .map ((Upholds.within h fun id => index.eraseAll_upholds id key h hforward hreverse).bind
          fun _ _ => hnumber _ _)
      | _ => exact hwrites.elim
  · exact index.perform_upholds_of_reads ctx h hwrites

/-- Every operation of an index upholds what outlasts all its index may write and whatever is counted. -/
theorem operate_upholds (hpermits : index.Permits allowed inv)
    (hcounted : ∀ db id? count, inv db → inv (db.observe id? count)) (operation : IndexOperation K V) :
    Upholds inv (index.operate ctx operation) fun _ => True := by
  cases operation with
  | call call => exact .map (index.perform_upholds ctx h hpermits hcounted call)
  | span key => exact .map (Upholds.encoding _).anyway
  | estimateRange range => exact .map (index.forward.estimateRange_upholds h range)
  | estimateKey key => exact .map (index.forward.estimateKey_upholds key h)
  | estimateSize => exact .map (index.forward.estimateRange_upholds h Index.fullRange)
  | count question budget estimateOk =>
    simp only [operate]
    cases hcount : (index.statistics ctx).count? budget estimateOk question with
    | none => exact .pure trivial
    | some count =>
      refine .map (Statistics.value_of_count? hcount (P := fun value => Upholds inv value fun _ => True)
        ?_ ?_ ?_ ?_ ?_)
      · exact fun range => index.forward.estimateRange_upholds h range
      · exact fun key => index.forward.estimateKey_upholds key h
      · exact fun _ _ _ _ => Cursor.count_upholds h (index.forward.openCursor_upholds ctx h _ _ _ _)
      · exact fun key => Cursor.count_upholds h (index.forward.find_upholds ctx key h)
      · exact fun reverse value _ => Cursor.count_upholds h (reverse.find_upholds ctx value h)

end AnyIndex

end SecondaryIndex
