import SecondaryIndex.Proofs.Index.Sizeless
import SecondaryIndex.Proofs.Session.Program

/-!
# Who asks for sizes

A session is broken off by a size that is too large. The steps that ask for sizes are the statistics of the store, the
estimates of an index, and a count that is computed and is an estimate (`Session.Step.asksSizes`). Whatever state a
session is in, no other step breaks it off (`Session.asksSizes_of_breaksOff`).
-/

namespace SecondaryIndex

open Program

namespace Session

variable {α : Type}

/-- Whether a count is computed and is an estimate. -/
def StatisticsQuery.estimates (budget : Budget) (estimateOk : Bool) : StatisticsQuery → Bool
  | .entries | .valuesOfKey _ => !budget.allowsScan && estimateOk
  | .keys | .values | .keysWithValue _ => false

/-- Whether a step asks for sizes, which are added up then. -/
def Step.asksSizes : Step → Bool
  | .store (.recentTally _ _) | .store (.olderSize _ _) => true
  | .index _ _ _ (.estimateRange _) | .index _ _ _ (.estimateKey _) | .index _ _ _ .estimateSize => true
  | .index _ _ _ (.statistics query budget estimateOk _ force) => force && query.estimates budget estimateOk
  | _ => false

/-- A program that does not break a session off. -/
abbrev Sizeless (x : SessionM α) : Prop := NeverFails (fun err => err.breaksOff = true) x

/-- Of the failures of an index only an overflow breaks a session off. -/
theorem eq_overflow_of_breaksOff_index {err : IndexError} (h : (StepError.index err).breaksOff = true) :
    err = .storage .overflow := by
  unfold StepError.breaksOff at h
  split at h
  · next heq => cases heq
  · next heq => exact StepError.index.inj heq
  · cases h

/-- Of the failures of the engine only an overflow does. -/
theorem eq_overflow_of_breaksOff_engine {err : EngineError} (h : (StepError.engine err).breaksOff = true) :
    err = .overflow := by
  unfold StepError.breaksOff at h
  split at h
  · next heq => exact StepError.engine.inj heq
  · next heq => cases heq
  · cases h

/-- A sizeless program over the database does not break the session off. -/
theorem sizeless_ofIndex {x : IndexM α} (h : IndexM.Sizeless x) : Sizeless (ofIndex x) := by
  intro s
  refine not_failsWith_mapError ?_ (h s.database)
  exact fun _ => eq_overflow_of_breaksOff_index

/-- A sizeless call of the engine is sizeless in a session. -/
theorem sizeless_ofEngine {x : EngineM α} (h : Engine.Sizeless x) : Sizeless (ofEngine x) := by
  intro s
  refine not_failsWith_mapError ?_ (h s.database.engine)
  exact fun _ => eq_overflow_of_breaksOff_engine

theorem sizeless_ofStore {query : Store → Except EngineError α}
    (h : ∀ store, ¬ FailsWith (· = .overflow) (query store)) : Sizeless (ofStore query) :=
  sizeless_ofEngine (Engine.sizeless_ask h)

theorem sizeless_modifyStore (f : Store → Store) : Sizeless (modifyStore f) :=
  sizeless_ofEngine (.modify _)

/-- A handle that stands for nothing is told to the caller. -/
theorem sizeless_resolve (handles : SortedMap Handle α) (handle : Handle) : Sizeless (resolve handles handle) := by
  unfold resolve
  split
  · exact .pure _
  · exact .throw nofun

theorem sizeless_transaction (tx : Handle) : Sizeless (transaction tx) :=
  .bind .get fun s => sizeless_resolve s.transactions tx

/-- The transaction of a context is found by its handle. -/
theorem sizeless_contextOf (tx? : Option Handle) : Sizeless (contextOf tx?) := by
  cases tx? with
  | none => exact .pure _
  | some tx => exact (sizeless_transaction tx).map _

/-- A text that is no item is told to be so. -/
theorem sizeless_readItem (kind : ItemKind) (text : String) : Sizeless (readItem kind text) := by
  unfold readItem
  split
  · exact .pure _
  · exact .throw nofun

/-- Reading the items of a list of pairs is sizeless. -/
theorem sizeless_readPairs (keys values : ItemKind) (pairs : List (String × String)) :
    Sizeless (readPairs keys values pairs) :=
  .mapM fun pair => (sizeless_readItem keys pair.1).bind fun _ =>
    (sizeless_readItem values pair.2).bind fun _ => .pure _

/-! ### Steps on the store and on iterators -/

/-- Words are put one after the other. -/
theorem sizeless_putWords (id : TransactionId) (ns : Namespace) (first : UInt64) (n : Nat) :
    Sizeless (putWords id ns first n) := by
  induction n generalizing first with
  | zero => exact .pure _
  | succ n ih => exact (sizeless_ofEngine (Engine.sizeless_put id ns _ _)).bind fun _ => ih _

/-- Keys are listed without the sizes of their records. -/
theorem sizeless_dumpKeys (ns : Namespace) (tx? : Option Handle) : Sizeless (dumpKeys ns tx?) := by
  cases tx? with
  | none =>
    exact sizeless_ofStore fun store => not_failsWith_bind (store.not_overflow_table ns) fun _ => id
  | some tx =>
    exact (sizeless_transaction tx).bind fun id => sizeless_ofEngine (Engine.sizeless_visibleKeys id ns _)

/-- A conflict that is told with or without its namespace breaks off nothing. -/
theorem sizeless_commit (tx : Handle) (hideNamespace : Bool) : Sizeless (commit tx hideNamespace) := by
  refine (sizeless_transaction tx).bind fun id =>
    .tryCatch ((sizeless_ofEngine (Engine.sizeless_commit id)).bind fun _ => .pure _) fun err herr => ?_
  split
  · split
    · exact .pure _
    · exact .throw nofun
  · exact .throw herr

/-- A step on the store that is not one of its statistics. -/
theorem sizeless_store {step : StoreStep} (h : (Step.store step).asksSizes = false) :
    Sizeless (performStore step) := by
  cases step with
  | createNamespace ns => exact (sizeless_modifyStore _).bind fun _ => .pure _
  | hasNamespace ns => exact sizeless_ofStore fun _ => id
  | flush ns =>
    exact (sizeless_ofStore fun store => not_failsWith_bind (store.not_overflow_table ns) fun _ => id).bind
      fun _ => (sizeless_modifyStore _).bind fun _ => .pure _
  | flushAll => exact (sizeless_modifyStore _).bind fun _ => .pure _
  | openIterators => exact sizeless_ofStore fun _ => id
  | recentTally ns range => cases h
  | olderSize ns range => cases h
  | dump ns tx? => exact (sizeless_dumpKeys ns tx?).bind fun _ => .pure _
  | begin tx =>
    exact (sizeless_ofEngine Engine.sizeless_begin).bind fun _ => .bind (.modify _) fun _ => .pure _
  | commit tx hideNamespace => exact sizeless_commit tx hideNamespace
  | rollback tx =>
    exact (sizeless_transaction tx).bind fun id =>
      (sizeless_ofEngine (Engine.sizeless_rollback id)).bind fun _ => .pure _
  | drop tx => exact (sizeless_transaction tx).bind fun _ => .bind (.modify _) fun _ => .pure _
  | pending tx =>
    exact (sizeless_transaction tx).bind fun id =>
      (sizeless_ofEngine (Engine.sizeless_transaction id)).bind fun _ => .pure _
  | get tx ns key =>
    exact (sizeless_transaction tx).bind fun id =>
      (sizeless_ofEngine (Engine.sizeless_lookup id ns key)).bind fun _ => .pure _
  | put tx ns key value =>
    exact (sizeless_transaction tx).bind fun id =>
      (sizeless_ofEngine (Engine.sizeless_put id ns key value)).bind fun _ => .pure _
  | putRange tx ns first n =>
    exact (sizeless_transaction tx).bind fun id => (sizeless_putWords id ns first n).bind fun _ => .pure _
  | delete tx ns key =>
    exact (sizeless_transaction tx).bind fun id =>
      (sizeless_ofEngine (Engine.sizeless_delete id ns key)).bind fun _ => .pure _
  | iterator it tx ns range =>
    exact (sizeless_transaction tx).bind fun id =>
      (sizeless_ofEngine (Engine.sizeless_openIterator id ns range)).bind fun _ =>
        .bind (.modify _) fun _ => .pure _
  | context tx? => exact (sizeless_contextOf tx?).bind fun _ => .pure _
  | fault call skip times => exact .bind (.modify _) fun _ => .pure _
  | clearFaults => exact .bind (.modify _) fun _ => .pure _
  | index ix spec => exact .bind .get fun _ => .bind (.set _) fun _ => .pure _

theorem sizeless_moveIterator (it : Handle) (move : RawIterator → RawIterator) :
    Sizeless (moveIterator it move) :=
  .bind .get fun s => (sizeless_resolve s.iterators it).bind fun _ => .bind (.modify _) fun _ => .pure _

/-- Each step of a raw iterator. -/
theorem sizeless_iterator (it : Handle) (step : IteratorStep) : Sizeless (performIterator it step) := by
  cases step with
  | status =>
    exact .bind .get fun s => (sizeless_resolve s.iterators it).bind fun _ =>
      (sizeless_ofEngine Engine.sizeless_status).bind fun _ => .pure _
  | drop =>
    exact .bind .get fun s => (sizeless_resolve s.iterators it).bind fun _ =>
      .bind (.modify _) fun _ => .pure _
  | _ => exact sizeless_moveIterator it _

/-! ### Steps on indexes -/

/-- A cursor that is opened is put under its handle. -/
theorem sizeless_openCursor (c : Handle) (kind : ItemKind) {x : IndexM (Cursor kind.Carrier)}
    (h : IndexM.Sizeless x) : Sizeless (openCursor c kind x) :=
  (sizeless_ofIndex h).bind fun _ => .bind (.modify _) fun _ => .pure _

/-- A count that is no estimate is computed without any size. -/
theorem sizeless_askStatistics {keys values : ItemKind} (stats : Statistics keys.Carrier values.Carrier)
    {budget : Budget} {estimateOk : Bool} {query : StatisticsQuery} {rest : Option Count → SessionM α}
    (hnone : Sizeless (rest none))
    (hrest : ∀ count, (query.estimates budget estimateOk = false → IndexM.Sizeless count.value) →
      Sizeless (rest (some count))) :
    Sizeless (askStatistics stats budget estimateOk query >>= rest) := by
  have hexact {value : IndexM Nat} (h : IndexM.Sizeless value) :
      Sizeless (rest (Statistics.scanning budget value)) := by
    unfold Statistics.scanning
    split
    · exact hrest _ fun _ => h
    · exact hnone
  have hestimable {value estimate : IndexM Nat} (h : IndexM.Sizeless value)
      (hquery : query.estimates budget estimateOk = (!budget.allowsScan && estimateOk)) :
      Sizeless (rest (Statistics.estimable budget estimateOk value estimate)) := by
    unfold Statistics.estimable
    split
    · exact hrest _ fun _ => h
    split
    -- no scan is allowed and an estimate is accepted: then the count is an estimate
    · next hscan hok =>
      refine hrest _ fun hnot => ?_
      rw [hquery, hok, Bool.and_true, Bool.not_eq_false'] at hnot
      exact absurd hnot hscan
    · exact hnone
  cases query with
  | entries => exact hestimable (stats.forward.sizeless_count stats.ctx) rfl
  | keys =>
    exact hexact ((stats.forward.sizeless_openCursor stats.ctx _ _ _ _).bind Cursor.sizeless_count)
  | valuesOfKey key =>
    rw [askStatistics, bind_assoc]
    exact (sizeless_readItem keys key).bind fun key => hestimable (stats.forward.sizeless_countKey stats.ctx key) rfl
  | values =>
    exact hexact ((stats.forward.sizeless_openCursor stats.ctx _ _ _ _).bind Cursor.sizeless_count)
  | keysWithValue value =>
    rw [askStatistics, bind_assoc]
    refine (sizeless_readItem values value).bind fun value => ?_
    show Sizeless (rest (if budget.allowsScan || estimateOk then
      stats.reverse?.map fun reverse => Count.exact (reverse.find stats.ctx value >>= Cursor.count) else none))
    split
    · cases stats.reverse? with
      | none => exact hnone
      | some reverse =>
        exact hrest _ fun _ => (reverse.sizeless_find stats.ctx value).bind Cursor.sizeless_count
    · exact hnone

section Index

variable {ix : Handle} {half? : Option Half} {tx? : Option Handle} {step : IndexStep}

/-- A step on an index that is not one of its estimates. -/
theorem sizeless_onIndex (held : IndexHandle) (ctx : Context)
    (h : (Step.index ix half? tx? step).asksSizes = false) : Sizeless (performOnIndex held ctx step) := by
  obtain ⟨keys, values, index⟩ := held
  cases step with
  | name => exact .pure _
  | lifecycle => exact .pure _
  | add key value =>
    exact (sizeless_readItem keys key).bind fun key => (sizeless_readItem values value).bind fun value =>
      (sizeless_ofIndex (index.sizeless_add ctx key value)).bind fun _ => .pure _
  | addMany pairs =>
    exact (sizeless_readPairs keys values pairs).bind fun pairs =>
      (sizeless_ofIndex (index.sizeless_addMany ctx pairs)).bind fun _ => .pure _
  | remove key value =>
    exact (sizeless_readItem keys key).bind fun key => (sizeless_readItem values value).bind fun value =>
      (sizeless_ofIndex (index.sizeless_remove ctx key value)).bind fun _ => .pure _
  | removeAll key =>
    exact (sizeless_readItem keys key).bind fun key =>
      (sizeless_ofIndex (index.sizeless_removeAll ctx key)).bind fun _ => .pure _
  | findFirst key =>
    exact (sizeless_readItem keys key).bind fun key =>
      (sizeless_ofIndex (index.forward.sizeless_findFirst ctx key)).bind fun _ => .pure _
  | find c key =>
    exact (sizeless_readItem keys key).bind fun key =>
      sizeless_openCursor c values (index.forward.sizeless_find ctx key)
  | scanKeys c => exact sizeless_openCursor c keys (index.forward.sizeless_openCursor ctx _ _ _ _)
  | scanDistinctKeys c => exact sizeless_openCursor c keys (index.forward.sizeless_openCursor ctx _ _ _ _)
  | scanValues c => exact sizeless_openCursor c values (index.forward.sizeless_openCursor ctx _ _ _ _)
  | findByValue c value =>
    unfold performOnIndex
    dsimp only
    split
    · exact .pure _
    · next reverse _ =>
      exact (sizeless_readItem values value).bind fun value =>
        sizeless_openCursor c keys (reverse.sizeless_find ctx value)
  | count => exact (sizeless_ofIndex (index.forward.sizeless_count ctx)).bind fun _ => .pure _
  | countKey key =>
    exact (sizeless_readItem keys key).bind fun key =>
      (sizeless_ofIndex (index.forward.sizeless_countKey ctx key)).bind fun _ => .pure _
  | span key =>
    exact (sizeless_readItem keys key).bind fun _ =>
      (sizeless_ofIndex (IndexM.sizeless_ofEncoding _)).bind fun _ => .pure _
  -- the steps that do ask sizes
  | estimateRange range => cases h
  | estimateKey key => cases h
  | estimateSize => cases h
  | statistics query budget estimateOk meanwhile force =>
    -- a count that is no estimate reads items, and what is added in the meantime asks no sizes
    refine sizeless_askStatistics _ (.pure _) fun count hvalue => ?_
    refine (sizeless_readPairs keys values meanwhile).bind fun pairs =>
      (sizeless_ofIndex (index.sizeless_addMany none pairs)).bind fun _ => ?_
    cases force with
    | false => exact .pure _
    | true => exact (sizeless_ofIndex (hvalue h)).bind fun _ => .pure _
  | describe => exact .pure _
  | metrics => exact .bind .get fun _ => .pure _
  | namespaceName => exact .pure _
  | layout => exact .pure _
  | physicalKey key value =>
    exact (sizeless_readItem keys key).bind fun _ => (sizeless_readItem values value).bind fun _ =>
      (sizeless_ofIndex (IndexM.sizeless_ofEncoding _)).bind fun _ => .pure _

/-- A step on an index that asks no sizes is sizeless. -/
theorem sizeless_index (h : (Step.index ix half? tx? step).asksSizes = false) :
    Sizeless (performIndex ix half? tx? step) := by
  refine .bind .get fun s => (sizeless_resolve s.indexes ix).bind fun held => ?_
  have hrest (held : IndexHandle) : Sizeless (do performOnIndex held (← contextOf tx?) step) :=
    (sizeless_contextOf tx?).bind fun ctx => sizeless_onIndex held ctx h
  cases half? with
  | none => exact .bind (.pure _) hrest
  | some half =>
    dsimp only
    split
    · exact .bind (.pure _) hrest
    · exact .bind (.throw nofun) hrest

end Index

/-! ### Steps of cursors -/

section Cursors

variable {kind : ItemKind} (cursor : Cursor kind.Carrier) (c : Handle)

/-- Each step of a cursor that can be read. -/
theorem not_overflow_cursorProgram {step : CursorStep} {program : CursorM kind.Carrier Answer}
    (h : cursorProgram kind step = some program) (db : Database) :
    ¬ FailsWith (· = .storage .overflow) ((program.run.run cursor).run db).1.1 := by
  cases step with
  | next =>
    cases h
    rw [Cursor.run_map]
    exact not_failsWith_map _ (cursor.not_overflow_next db)
  | prev =>
    cases h
    rw [Cursor.run_map]
    exact not_failsWith_map _ (cursor.not_overflow_prev db)
  | current =>
    cases h
    rw [Cursor.run_map, Cursor.run_current]
    exact not_failsWith_map _ cursor.not_overflow_present
  | seek text =>
    obtain ⟨item, -, rfl⟩ := Option.map_eq_some_iff.1 h
    rw [Cursor.run_map]
    exact not_failsWith_map _ (cursor.not_overflow_seek db item)
  | close =>
    cases h
    exact nofun
  | state =>
    cases h
    exact nofun
  | describe =>
    cases h
    exact nofun

/-- Each use of a cursor that ends it. -/
theorem sizeless_ending (ending : CursorEnding) : Sizeless (performEnding c ending) := by
  have hprogram (kind : ItemKind) (cursor : Cursor kind.Carrier) :
      IndexM.Sizeless (endingProgram kind cursor ending) := by
    cases ending with
    | count => exact cursor.sizeless_count.map _
    | collect => exact cursor.sizeless_collect.bind fun _ => .pure _
    | items => exact fun _ => id
    | drop => exact .bind (.modify _) fun _ => .pure _
  refine .bind .get fun s => (sizeless_resolve s.cursors c).bind fun held => ?_
  obtain ⟨kind, cursor, done?⟩ := held
  have hrest : Sizeless (do
      modifyThe Session fun session => { session with cursors := session.cursors.erase c }
      ofIndex (endingProgram kind cursor ending)) :=
    .bind (.modify _) fun _ => sizeless_ofIndex (hprogram kind cursor)
  dsimp only
  split
  · exact .bind (.throw nofun) fun _ => hrest
  · exact .bind (.pure _) fun _ => hrest

/-- Each step of an iteration. -/
theorem sizeless_iteration (step : IterationStep) : Sizeless (performIteration c step) := by
  refine .bind .get fun s => (sizeless_resolve s.cursors c).bind fun held => ?_
  unfold iterate
  split
  · exact .bind (.modify _) fun _ => .pure _
  · -- an error that comes up on the way is an item of what the iteration gives
    exact fun _ => id
  · exact .throw nofun

end Cursors

theorem sizeless_refuse (handle? : Option (HandleKind × Handle)) : Sizeless (refuse handle?) := by
  cases handle? with
  | none => exact .throw nofun
  | some holding =>
    intro s
    rw [run_refuse]
    split <;> exact nofun

/-! ### All steps -/

/-- A reply breaks a session off as the program does that it was given by. -/
theorem breaksOff_reply {x : SessionM Answer} (h : Sizeless x) (s : Session) :
    ((reply x).run s).1.breaksOff = false := by
  have hx := h s
  show Reply.breaksOff { outcome := (x.run s).1 } = false
  cases hrun : (x.run s).1 with
  | ok answer => rfl
  | error err =>
    rw [hrun] at hx
    exact Bool.eq_false_of_not_eq_true hx

/-- A step of a cursor moves it and asks for its health, at most. -/
theorem breaksOff_performCursor (c : Handle) (step : CursorStep) (s : Session) :
    ((performCursor c step).run s).1.breaksOff = false := by
  cases hget : s.cursors.get? c with
  | none =>
    rw [run_performCursor_of_none hget]
    rfl
  | some held =>
    obtain ⟨kind, cursor, _ | done⟩ := held
    · rw [run_performCursor_of_some hget]
      cases hprogram : cursorProgram kind step with
      | none => rfl
      | some program =>
        have hrun := not_overflow_cursorProgram cursor hprogram s.database
        dsimp only
        generalize (program.run.run cursor).run s.database = r at hrun ⊢
        obtain ⟨⟨err | answer, cursor'⟩, db'⟩ := r
        · exact Bool.eq_false_of_not_eq_true fun hbreaks => hrun (eq_overflow_of_breaksOff_index hbreaks)
        · rfl
    · rw [run_performCursor_of_iterated hget]
      rfl

/-- A step that breaks a session off asks for sizes. -/
theorem asksSizes_of_breaksOff {s : Session} {step : Step} (h : ((perform step).run s).1.breaksOff = true) :
    step.asksSizes = true := by
  by_contra hasks
  rw [Bool.not_eq_true] at hasks
  have hgoes : ((perform step).run s).1.breaksOff = false := by
    cases step with
    | store step => exact breaksOff_reply (sizeless_store hasks) s
    | iterator it step => exact breaksOff_reply (sizeless_iterator it step) s
    | index ix half? tx? step => exact breaksOff_reply (sizeless_index hasks) s
    | cursor c step => exact breaksOff_performCursor c step s
    | iteration c step => exact breaksOff_reply (sizeless_iteration c step) s
    | ending c ending => exact breaksOff_reply (sizeless_ending c ending) s
    | unreadable handle? => exact breaksOff_reply (sizeless_refuse handle?) s
  rw [hgoes] at h
  cases h

/-- A session goes on over steps that ask for no sizes. -/
theorem goesOn_of_asksSizes {steps : List Step} (h : ∀ step ∈ steps, step.asksSizes = false) (s : Session) :
    s.GoesOn steps := by
  induction steps generalizing s with
  | nil => exact goesOn_nil s
  | cons step steps ih =>
    obtain ⟨hstep, hsteps⟩ := List.forall_mem_cons.1 h
    refine goesOn_cons_iff.2 ⟨Bool.eq_false_of_not_eq_true fun hbreaks => ?_, ih hsteps _⟩
    rw [asksSizes_of_breaksOff hbreaks] at hstep
    cases hstep

end Session

end SecondaryIndex
