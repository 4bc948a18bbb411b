import SecondaryIndex.Codec.Lemmas
import SecondaryIndex.Proofs.Index.Runs
import SecondaryIndex.Proofs.Twin.Operations

/-!
# Runs with and without a reverse half

A list of requests is served twice, by an index in the one run and by a two-way index over the same forward
namespace in the other (`Database.serve`). A request is an operation that both of them have, or anything else
that leaves the reverse half alone: calls on the store, transactions and other indexes, cursors, counters.

The two runs cannot be told apart (`TwoWayIndex.indistinguishable`). All answers are the same, except that a
commit that is refused for a conflict may be refused for one in another namespace; and all counters count the
same. The databases are twins all along, which every request preserves (`Request.simulate`).
-/

namespace SecondaryIndex

open Program

/-- What is answered to an action. -/
inductive ActionAnswer : Type 1
  | store (answer : Except EngineError StoreAnswer)
  | index {K V : Type} (report : Except IndexError (IndexReport K V))
  /-- What a cursor answers, and what it is afterwards. -/
  | cursor {α : Type} (answer : Except IndexError (CursorAnswer α)) (after : Cursor α)
  | collected {α : Type} (items : Except IndexError (List α))
  /-- What an iteration gives up to the end, and whether it gives nothing from then on. -/
  | items {α : Type} (items : List (Except IndexError α) × Bool)
  | installed (id : MetricsId)
  | done

/-- The answer to an action. -/
def Action.answer (db : Database) : Action → ActionAnswer
  | store call => .store ((Engine.perform call).run db.engine).1
  | index asked ctx operation => .index ((asked.operate ctx operation).run db).1
  | cursor walked call =>
    .cursor (((Cursor.perform call).run.run walked).run db).1.1
      (((Cursor.perform call).run.run walked).run db).1.2
  | collect walked => .collected (walked.collect.run db).1
  | items walked => .items (walked.items.run db).1
  | release _ => .done
  | installMetrics => .installed db.installMetrics.1
  | faults _ => .done

/-- Answers that are the same, but for the namespace in which a commit is refused. -/
inductive ActionAnswer.Alike : ActionAnswer → ActionAnswer → Prop
  | same (answer : ActionAnswer) : Alike answer answer
  | conflict (ns ns' : Namespace) :
    Alike (.store (.error (.conflict ns))) (.store (.error (.conflict ns')))

/-- What is asked of a database with an index, whichever index that is. -/
inductive Request (K V : Type) : Type 1
  /-- An operation on the index. -/
  | own (ctx : Context) (operation : IndexOperation K V)
  /-- Anything else. -/
  | other (action : Action)

variable {K V K' V' : Type}

/-- What is done for a request. -/
def Request.action (asked : AnyIndex K V) : Request K V → Action
  | own ctx operation => .index asked ctx operation
  | other action => action

/-- Serves requests one after the other, and gives the answers and the database they lead to. -/
def Database.serve (asked : AnyIndex K V) (db : Database) :
    List (Request K V) → List ActionAnswer × Database
  | [] => ([], db)
  | request :: later =>
    let (answers, last) := serve asked ((request.action asked).run db) later
    ((request.action asked).answer db :: answers, last)

/-- An action that chooses no faults, does not use the reverse namespace of an index, and does not write to the
forward one. -/
inductive Action.Spares (index : TwoWayIndex K V) : Action → Prop
  | store (call : StoreCall)
    (writes : ∀ ns, call.target? = some ns → ns ∉ (AnyIndex.twoWay index).namespaces)
    (touches : ∀ ns, call.touched? = some ns → ns ≠ index.reverse.ns) : Spares index (.store call)
  | reading {K' V' : Type} (asked : AnyIndex K' V') (ctx : Context) (operation : IndexOperation K' V')
    (reads : ¬ operation.Writes) (touches : ∀ ns ∈ asked.namespaces, ns ≠ index.reverse.ns) :
    Spares index (.index asked ctx operation)
  | elsewhere {K' V' : Type} (asked : AnyIndex K' V') (ctx : Context) (operation : IndexOperation K' V')
    (writes : ∀ ns ∈ asked.namespaces, ns ∉ (AnyIndex.twoWay index).namespaces) :
    Spares index (.index asked ctx operation)
  | cursor {α : Type} (cursor : Cursor α) (call : CursorCall α) : Spares index (.cursor cursor call)
  | collect {α : Type} (cursor : Cursor α) : Spares index (.collect cursor)
  | items {α : Type} (cursor : Cursor α) : Spares index (.items cursor)
  | release {α : Type} (cursor : Cursor α) : Spares index (.release cursor)
  | installMetrics : Spares index .installMetrics

namespace Request

/-- A request that can be served with a reverse half as well as without: it is a shared operation on the index,
whose namespaces exist, or it spares the reverse half. -/
inductive Permitted (index : TwoWayIndex K V) (db : Database) : Request K V → Prop
  | own (ctx : Context) (operation : IndexOperation K V) (shared : operation.Shared index)
    (there : ∀ ns ∈ (AnyIndex.twoWay index).namespaces, db.engine.store.hasNamespace ns = true) :
    Permitted index db (.own ctx operation)
  | other (action : Action) (spares : action.Spares index) : Permitted index db (.other action)

/-- Requests that are permitted when their turn comes. -/
def AllPermitted (index : TwoWayIndex K V) (db : Database) : List (Request K V) → Prop
  | [] => True
  | request :: later => request.Permitted index db ∧
    AllPermitted index ((request.action (.twoWay index)).run db) later

end Request

/-! ### One request -/

variable {index : TwoWayIndex K V} {spaces : List Namespace} {db db' : Database}

namespace ActionAnswer

theorem alike_of_eq {answer answer' : ActionAnswer} (h : answer' = answer) : Alike answer answer' := by
  obtain rfl := h
  exact .same _

/-- Answers of a store are alike if they are the same, or if both tell of a conflict. -/
theorem alike_store {outcome outcome' : Except EngineError StoreAnswer}
    (h : Engine.SameOrConflict outcome outcome') : Alike (.store outcome) (.store outcome') := by
  cases h with
  | same outcome => exact .same _
  | conflict ns ns' => exact .conflict ns ns'

end ActionAnswer

/-- What no transaction notices keeps twins, if they stay alike. -/
theorem Database.Alike.idled {db₁ db₁' : Database} (h : Database.Twins index spaces db db')
    (hidles : db.engine.Idles db₁.engine) (hidles' : db'.engine.Idles db₁'.engine)
    (halike : Database.AlikeBut index.reverse.ns db₁ db₁') : Database.Twins index spaces db₁ db₁' := by
  have hworks : Engine.Works (fun _ _ => False) 0 db.engine db₁.engine := .of_idles hidles
  have hworks' : Engine.Works (fun _ _ => False) 0 db'.engine db₁'.engine := .of_idles hidles'
  refine ⟨h.engines.worked hworks hworks' halike.engines ?_ index.presentation.nothing, halike.metrics⟩
  rw [hidles'.ledger_eq, Ledger.write_nothing]

/-- Namespaces that are found to be there. -/
theorem Database.Alike.there (h : Database.Twins index spaces db db') {found : List Namespace}
    (hfound : ∀ ns ∈ found, db'.engine.store.hasNamespace ns = true) :
    Database.Twins index found db db' :=
  ⟨⟨h.engines.alike, h.engines.sound, h.engines.pairs, hfound⟩, h.metrics⟩

theorem Database.Alike.forget (h : Database.Twins index spaces db db') : Database.Twins index [] db db' :=
  h.there nofun

/-- Whatever is done with twin databases that spares the reverse half is answered alike, and leaves them twins. -/
theorem Action.Spares.simulate {action : Action} (h : action.Spares index) (hsane : index.Sane)
    (hdb : Database.Twins index spaces db db') :
    ActionAnswer.Alike (action.answer db) (action.answer db') ∧
      Database.Twins index spaces (action.run db) (action.run db') := by
  -- an operation in step with itself is answered alike and leaves the databases twins
  have htracks {K' V' : Type} {asked : AnyIndex K' V'} {ctx : Context}
      {operation : IndexOperation K' V'}
      (ho : Tracks (Database.Twins index spaces) Eq (asked.operate ctx operation)
        (asked.operate ctx operation)) :
      ActionAnswer.Alike ((Action.index asked ctx operation).answer db)
          ((Action.index asked ctx operation).answer db') ∧
        Database.Twins index spaces ((Action.index asked ctx operation).run db)
          ((Action.index asked ctx operation).run db') :=
    ⟨ActionAnswer.alike_of_eq (congrArg _ (ho db db' hdb).1.eq), (ho db db' hdb).2⟩
  cases h with
  | store call writes touches =>
    obtain ⟨hanswer, hengines⟩ := hdb.engines.perform hsane writes touches
    exact ⟨ActionAnswer.alike_store hanswer, hengines, hdb.metrics⟩
  | reading asked ctx operation reads touches =>
    exact htracks (AnyIndex.tracks_reading hsane ctx touches reads)
  | elsewhere asked ctx operation writes =>
    exact htracks (AnyIndex.tracks_elsewhere hsane ctx writes operation)
  | cursor cursor call =>
    -- a cursor works on the iterator it was opened over, and leaves both databases idle
    obtain ⟨hanswer, halike⟩ := cursor.alike_perform hdb.alikeBut call
    have hsame := congrArg (fun r => ActionAnswer.cursor r.1 r.2) hanswer
    exact ⟨ActionAnswer.alike_of_eq hsame,
      hdb.idled (cursor.perform_idles db call) (cursor.perform_idles db' call) halike⟩
  | collect cursor =>
    obtain ⟨hanswer, halike⟩ := (Cursor.inStep_alikeBut _).collect rfl db db' hdb.alikeBut
    exact ⟨ActionAnswer.alike_of_eq (congrArg _ hanswer.eq),
      hdb.idled (cursor.collect_idle db) (cursor.collect_idle db') halike⟩
  | items cursor =>
    obtain ⟨hanswer, halike⟩ := (Cursor.inStep_alikeBut _).items rfl hdb.alikeBut
    exact ⟨ActionAnswer.alike_of_eq (congrArg _ hanswer),
      hdb.idled (cursor.items_idles db) (cursor.items_idles db') halike⟩
  | release cursor =>
    exact ⟨.same _, hdb.idled (cursor.release_idles db) (cursor.release_idles db')
      (cursor.alike_release hdb.alikeBut)⟩
  | installMetrics =>
    refine ⟨ActionAnswer.alike_of_eq ?_, hdb.engines, ?_⟩
    · exact congrArg (fun metrics => ActionAnswer.installed metrics.size) hdb.metrics
    · exact congrArg (fun metrics => metrics.insert metrics.size {}) hdb.metrics

/-- A request is answered alike with and without the reverse half. -/
theorem Request.simulate [DecidableEq K] [DecidableEq V] (hsane : index.Sane) {request : Request K V}
    (hdb : Database.Twins index [] db db') (hpermitted : request.Permitted index db') :
    ActionAnswer.Alike ((request.action (.oneWay index.forward)).answer db)
        ((request.action (.twoWay index)).answer db') ∧
      Database.Twins index [] ((request.action (.oneWay index.forward)).run db)
        ((request.action (.twoWay index)).run db') := by
  cases hpermitted with
  | own ctx operation shared there =>
    -- that the namespaces are there matters now, and may be forgotten again
    obtain ⟨hanswer, htwins⟩ :=
      TwoWayIndex.tracks_operate hsane ctx shared db db' (hdb.there there)
    exact ⟨ActionAnswer.alike_of_eq (congrArg ActionAnswer.index hanswer.eq), htwins.forget⟩
  | other action spares => exact spares.simulate hsane hdb

/-! ### All requests -/

/-- By induction on the requests, from any twins. -/
theorem Database.Alike.served [DecidableEq K] [DecidableEq V] (hsane : index.Sane)
    {requests : List (Request K V)} (hdb : Database.Twins index [] db db')
    (hpermitted : Request.AllPermitted index db' requests) :
    List.Forall₂ ActionAnswer.Alike (db.serve (.oneWay index.forward) requests).1
        (db'.serve (.twoWay index) requests).1 ∧
      Database.Twins index [] (db.serve (.oneWay index.forward) requests).2
        (db'.serve (.twoWay index) requests).2 := by
  -- the second run decides when a request is permitted, and the twins tell that the first one can follow
  induction requests generalizing db db' with
  | nil => exact ⟨.nil, hdb⟩
  | cons request later ih =>
    obtain ⟨hanswer, htwins⟩ := Request.simulate hsane hdb hpermitted.1
    obtain ⟨hanswers, hlast⟩ := ih htwins hpermitted.2
    exact ⟨.cons hanswer hanswers, hlast⟩

/-- An index can be replaced by a two-way index over the same forward namespace without anybody's notice,
whatever is asked of it and in however many transactions at a time. Commits go through or conflict as before,
and the counters are the same. -/
theorem TwoWayIndex.indistinguishable {keys : Codec K} {values : Codec V} (hkeys : keys.Inverts)
    (hvalues : values.Inverts) {forwardNs reverseNs : Namespace} (hapart : forwardNs ≠ reverseNs)
    (name : String) (indexOptions : IndexOptions) (options : StoreOptions)
    {requests : List (Request K V)}
    (hpermitted : Request.AllPermitted
      (TwoWayIndex.create name forwardNs reverseNs keys values indexOptions) (.ofOptions options)
      requests) :
    List.Forall₂ ActionAnswer.Alike
        ((Database.ofOptions options).serve
          (.oneWay (Index.create name forwardNs keys values indexOptions)) requests).1
        ((Database.ofOptions options).serve
          (.twoWay (TwoWayIndex.create name forwardNs reverseNs keys values indexOptions)) requests).1 ∧
      ((Database.ofOptions options).serve
          (.twoWay (TwoWayIndex.create name forwardNs reverseNs keys values indexOptions))
          requests).2.metrics =
        ((Database.ofOptions options).serve
          (.oneWay (Index.create name forwardNs keys values indexOptions)) requests).2.metrics := by
  classical
  have hsane : (TwoWayIndex.create name forwardNs reverseNs keys values indexOptions).Sane :=
    TwoWayIndex.sane_create hkeys hvalues hapart
  have hstart : Database.Twins (TwoWayIndex.create name forwardNs reverseNs keys values indexOptions) []
      (.ofOptions options) (.ofOptions options) := ⟨Engine.twins_ofOptions _ options, rfl⟩
  obtain ⟨hanswers, hlast⟩ := hstart.served hsane hpermitted
  exact ⟨hanswers, hlast.metrics⟩

/-- Two transactions add the same pair, and are committed one after the other. -/
def rivals : List (Request UInt64 UInt64) :=
  [.other (.store (.createNamespace "forward")), .other (.store (.createNamespace "backward")),
    .other .installMetrics, .other (.store .begin), .other (.store .begin),
    .own (some 0) (.call (.add 1 10)), .own (some 1) (.call (.add 1 10)), .other (.store (.commit 0)),
    .other (.store (.commit 1))]

theorem rivals_permitted : Request.AllPermitted
    (.create "pairs" "forward" "backward" .unsigned .unsigned { metrics := some 0 }) (.ofOptions {})
    rivals := by
  have hstore (call : StoreCall) (htarget : call.target? = none) (htouched : call.touched? = none) :
      Action.Spares (.create "pairs" "forward" "backward" .unsigned .unsigned { metrics := some 0 } :
        TwoWayIndex UInt64 UInt64) (.store call) := by
    refine .store call (fun ns hns => ?_) fun ns hns => ?_
    · rw [htarget] at hns
      cases hns
    · rw [htouched] at hns
      cases hns
  have hfits : (Codec.unsigned.encode 10).length ≤ Layout.wide.keyLimit := by decide +kernel
  refine ⟨.other _ (hstore _ rfl rfl), .other _ (hstore _ rfl rfl), .other _ .installMetrics,
    .other _ (hstore _ rfl rfl), .other _ (hstore _ rfl rfl), .own _ _ hfits ?_, .own _ _ hfits ?_,
    .other _ (hstore _ rfl rfl), .other _ (hstore _ rfl rfl), trivial⟩
  · decide +kernel
  · decide +kernel

/-- With a reverse half as well as without one the second of the rivals is refused, though not in the same
namespace. -/
theorem indistinguishable_for_rivals :
    ((Database.ofOptions {}).serve
        (.oneWay (.create "pairs" "forward" .unsigned .unsigned { metrics := some 0 }))
        rivals).1.getLast? = some (.store (.error (.conflict "forward"))) ∧
      ((Database.ofOptions {}).serve
        (.twoWay (.create "pairs" "forward" "backward" .unsigned .unsigned { metrics := some 0 }))
        rivals).1.getLast? = some (.store (.error (.conflict "backward"))) ∧
      List.Forall₂ ActionAnswer.Alike
        ((Database.ofOptions {}).serve
          (.oneWay (.create "pairs" "forward" .unsigned .unsigned { metrics := some 0 })) rivals).1
        ((Database.ofOptions {}).serve
          (.twoWay (.create "pairs" "forward" "backward" .unsigned .unsigned { metrics := some 0 }))
          rivals).1 ∧
      ((Database.ofOptions {}).serve
          (.twoWay (.create "pairs" "forward" "backward" .unsigned .unsigned { metrics := some 0 }))
          rivals).2.metrics =
        ((Database.ofOptions {}).serve
          (.oneWay (.create "pairs" "forward" .unsigned .unsigned { metrics := some 0 }))
          rivals).2.metrics := by
  obtain ⟨hanswers, hmetrics⟩ := TwoWayIndex.indistinguishable Codec.unsigned_inverts
    Codec.unsigned_inverts (by decide) "pairs" { metrics := some 0 } {} rivals_permitted
  exact ⟨by with_unfolding_all rfl, by with_unfolding_all rfl, hanswers, hmetrics⟩

end SecondaryIndex
