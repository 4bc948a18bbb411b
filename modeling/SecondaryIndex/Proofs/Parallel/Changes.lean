import SecondaryIndex.Proofs.Index.Operations
import SecondaryIndex.Proofs.Parallel.Step

/-!
# What a step changes

A step changes the meaning of one handle at most, which is the handle that it has given anew, or that it
moves, drops or uses up (`Step.changes?`). The engine it changes according to what it is carried out
through: in a transaction only that transaction is worked in (`Session.perform_changes`).

What may become of the engine is left open as far as possible. A `Frame` is a kind of change that can be
chained and that takes in all that no transaction notices. In the frame that allows anything only the
handles are followed.
-/

namespace SecondaryIndex

/-- Changes of an engine that can be chained, with everything among them that no transaction notices. -/
structure Engine.Frame where
  allows : Engine → Engine → Prop
  idles : ∀ {e e'}, e.Idles e' → allows e e'
  trans : ∀ {e e' e''}, allows e e' → allows e' e'' → allows e e''

namespace Engine.Frame

/-- Whatever is done in a transaction short of committing it is allowed. -/
structure Hosts (F : Frame) (id : TransactionId) : Prop where
  works : ∀ {e e'}, Works (fun _ _ => True) id e e' → F.allows e e'
  rollback : ∀ e, F.allows e ((Engine.rollback id).run e).2
  discard : ∀ e : Engine, F.allows e (e.discard id)

/-- Whatever is done in a context is allowed, which without a transaction may be anything. -/
def Admits (F : Frame) : Context → Prop
  | some id => F.Hosts id
  | none => ∀ e e', F.allows e e'

/-- Anything is allowed. -/
def anything : Frame := ⟨fun _ _ => True, fun _ => trivial, fun _ _ => trivial⟩

/-- Nothing is changed that a transaction notices. -/
def idling : Frame := ⟨Idles, fun h => h, Idles.trans⟩

/-- Only one transaction is changed, and nothing of it is committed. -/
def aside (id : TransactionId) : Frame := ⟨Aside id, Idles.aside, Aside.trans⟩

/-- Whatever is done in a transaction short of committing it stays there. -/
theorem aside_hosts (id : TransactionId) : (aside id).Hosts id :=
  ⟨Works.aside, (aside_rollback · id), (aside_discard · id)⟩

end Engine.Frame

/-! ### Operations of an index in a context -/

/-- A program that keeps to its transaction, if it has one. -/
def Contained {α : Type} (ctx : Context) (x : IndexM α) : Prop :=
  ∀ id, ctx = some id → Confined (fun _ _ => True) id x

namespace Contained

open IndexM

variable {α β K V : Type} {ctx : Context} {x : IndexM α} {allowed : Allowance}

/-- What no transaction notices is contained in every context. -/
theorem of_idle (h : Idle x) : Contained ctx x := fun _ _ => .of_idle h

/-- What is confined to a transaction is contained in its context. -/
theorem of_confined {id : TransactionId} (h : Confined allowed id x) : Contained (some id) x := by
  rintro _ ⟨⟩
  exact h.mono fun _ _ _ => trivial

/-- What is contained may be followed by what nobody notices. -/
theorem bind_idle {f : α → IndexM β} (h : Contained ctx x) (hf : ∀ a, Idle (f a)) :
    Contained ctx (x >>= f) := fun id hctx => (h id hctx).bind fun a => .of_idle (hf a)

section Index

variable (index : Index K V)

/-- To open a cursor within a transaction leaves everything else alone. -/
theorem openCursor (range : Range) (decode : Bytes → Except EncodingError α) (seeking : Seeking α)
    (stride : Stride) : Contained ctx (index.openCursor ctx range decode seeking stride) := by
  rintro id rfl
  exact of_confined (index.openCursor_confined id range decode seeking stride) id rfl

/-- A look-up within a transaction leaves everything else alone. -/
theorem find (key : K) : Contained ctx (index.find ctx key) := by
  rintro id rfl
  exact of_confined (index.find_confined id key) id rfl

theorem findFirst (key : K) : Contained ctx (index.findFirst ctx key) := by
  rintro id rfl
  exact of_confined (index.findFirst_confined id key) id rfl

/-- To count within a transaction leaves everything else alone. -/
theorem count : Contained ctx (index.count ctx) :=
  (openCursor index _ _ _ _).bind_idle Index.count_idle

theorem countKey (key : K) : Contained ctx (index.countKey ctx key) :=
  (find index key).bind_idle Index.count_idle

end Index

section AnyIndex

variable (index : AnyIndex K V)

/-- An addition within a transaction stays there. -/
theorem add (key : K) (value : V) : Contained ctx (index.add ctx key value) := by
  rintro id rfl
  exact of_confined (index.add_confined id key value) id rfl

/-- Many additions within a transaction stay there, also if one of them fails. -/
theorem addMany (pairs : List (K × V)) : Contained ctx (index.addMany ctx pairs) :=
  fun id hctx => .bind (.forM fun pair => add index pair.1 pair.2 id hctx) fun _ => .pure _

theorem remove (key : K) (value : V) : Contained ctx (index.remove ctx key value) := by
  rintro id rfl
  exact of_confined (index.remove_confined id key value) id rfl

/-- The removal of a key within a transaction stays there. -/
theorem removeAll (key : K) : Contained ctx (index.removeAll ctx key) := by
  rintro id rfl
  exact of_confined (index.removeAll_confined id key) id rfl

end AnyIndex

/-- A count keeps to the context it was asked for in. -/
theorem count_value {stats : Statistics K V} {question : Question K V} {budget : Budget}
    {estimateOk : Bool} {count : Count} (h : stats.count? budget estimateOk question = some count) :
    Contained stats.ctx count.value :=
  Statistics.value_of_count? h (P := Contained stats.ctx)
    (fun range => .of_idle (stats.forward.estimateRange_idle range))
    (fun key => .of_idle (stats.forward.estimateKey_idle key))
    (fun _ _ _ _ => (openCursor _ _ _ _ _).bind_idle Index.count_idle)
    (fun key => (find _ key).bind_idle Index.count_idle)
    fun reverse value _ => (find reverse value).bind_idle Index.count_idle

end Contained

/-- A program that is contained in a context changes the engine as the context allows. Outside of transactions this
may be any change. -/
theorem Engine.Frame.Admits.program {α : Type} {F : Frame} {ctx : Context} (h : F.Admits ctx)
    {x : IndexM α} (hx : Contained ctx x) (db : Database) : F.allows db.engine (x.run db).2.engine := by
  cases ctx with
  | none => exact h _ _
  | some id => exact Hosts.works h (hx id rfl db)

namespace Session

open Program

/-- The engine was changed within a frame, and one handle at most. -/
structure Changes (F : Engine.Frame) (holding? : Option Holding) (s t : Session) : Prop where
  engine : F.allows s.database.engine t.database.engine
  meaning : ∀ other, holding? ≠ some other → t.meaning other = s.meaning other

/-- A program that changes no handle. -/
def Quiet {α : Type} (F : Engine.Frame) (x : SessionM α) : Prop := ∀ s, Changes F none s (x.run s).2

/-- What a program changes that carries out a step. -/
def Turns (F : Engine.Frame) (step : Step) (s : Session) (x : SessionM Answer) : Prop :=
  Changes F (step.changes? (x.run s).1) s (x.run s).2

variable {α β : Type} {F : Engine.Frame} {holding? : Option Holding} {s t u : Session}

namespace Changes

/-- Nothing is changed by doing nothing. -/
theorem refl (holding? : Option Holding) (s : Session) : Changes F holding? s s :=
  ⟨F.idles (.refl _), fun _ _ => rfl⟩

/-- What changes no handle may come before what changes one. -/
theorem before (h : Changes F none s t) (h' : Changes F holding? t u) : Changes F holding? s u :=
  ⟨F.trans h.engine h'.engine, fun other hne =>
    (h'.meaning other hne).trans (h.meaning other nofun)⟩

/-- A change of no handle is one of any handle. -/
theorem weaken (h : Changes F none s t) : Changes F holding? s t :=
  ⟨h.engine, fun other _ => h.meaning other nofun⟩

/-- What changes the database alone changes no handle. -/
theorem withDatabase {db : Database} (h : F.allows s.database.engine db.engine) :
    Changes F holding? s { s with database := db } := ⟨h, fun _ _ => rfl⟩

/-- One handle has a new meaning. -/
theorem at_handle {holding : Holding} {meaning? : Option Meaning}
    (hengine : F.allows s.database.engine t.database.engine)
    (hmeaning : ∀ other, t.meaning other = if other = holding then meaning? else s.meaning other) :
    Changes F (some holding) s t :=
  ⟨hengine, fun other hne => (hmeaning other).trans (if_neg fun heq => hne (congrArg some heq.symm))⟩

end Changes

/-! ### Programs that change no handle -/

namespace Quiet

theorem pure (a : α) : Quiet F (Pure.pure a : SessionM α) := .refl none

theorem throw (err : StepError) : Quiet F (throw err : SessionM α) := .refl none

theorem get : Quiet F (getThe Session : SessionM Session) := .refl none

/-- Programs that change no handle do not do so one after the other. -/
theorem bind {x : SessionM α} {f : α → SessionM β} (h : Quiet F x) (hf : ∀ a, Quiet F (f a)) :
    Quiet F (x >>= f) := by
  intro s
  have hx := h s
  rw [run_bind]
  rcases hrun : x.run s with ⟨err | a, t⟩
  · rw [hrun] at hx
    exact hx
  · rw [hrun] at hx
    exact hx.before (hf a t)

theorem map {x : SessionM α} (f : α → β) (h : Quiet F x) : Quiet F (f <$> x) := by
  rw [map_eq_pure_bind]
  exact h.bind fun a => .pure _

/-- A program over the database changes no handle. -/
theorem ofIndex {x : IndexM α} (h : ∀ db, F.allows db.engine (x.run db).2.engine) :
    Quiet F (Session.ofIndex x) := fun s => .withDatabase (h s.database)

/-- A call of the engine changes no handle. -/
theorem ofEngine {x : EngineM α} (h : ∀ e, F.allows e (x.run e).2) : Quiet F (Session.ofEngine x) :=
  fun s => .withDatabase (h s.database.engine)

/-- A call that leaves the engine as it is. -/
theorem reads {x : EngineM α} {outcome : Engine → Except EngineError α}
    (h : ∀ e, x.run e = (outcome e, e)) : Quiet F (Session.ofEngine x) := by
  refine .ofEngine fun e => ?_
  rw [h]
  exact F.idles (.refl e)

/-- A call that works in a transaction. -/
theorem works {id : TransactionId} (hhosts : F.Hosts id) {x : EngineM α}
    (h : Confined (fun _ _ => True) id (IndexM.ofEngine x)) : Quiet F (Session.ofEngine x) :=
  fun s => .withDatabase (hhosts.works (h s.database))

/-- To find out what a handle stands for changes nothing. -/
theorem resolve (handles : SortedMap Handle α) (handle : Handle) :
    Quiet F (Session.resolve handles handle) := by
  unfold Session.resolve
  split
  · exact .pure _
  · exact .throw _

theorem transaction (tx : Handle) : Quiet F (Session.transaction tx) :=
  get.bind fun s => resolve s.transactions tx

/-- To find the transaction of a context changes nothing. -/
theorem contextOf (tx? : Option Handle) : Quiet F (Session.contextOf tx?) := by
  cases tx? with
  | none => exact .pure _
  | some tx => exact (transaction tx).map _

theorem readItem (kind : ItemKind) (text : String) : Quiet F (Session.readItem kind text) := by
  unfold Session.readItem
  split
  · exact .pure _
  · exact .throw _

/-- To read texts changes nothing. -/
theorem readPairs (keys values : ItemKind) (pairs : List (String × String)) :
    Quiet F (Session.readPairs keys values pairs) := by
  unfold Session.readPairs
  induction pairs with
  | nil => exact .pure _
  | cons pair pairs ih =>
    rw [List.mapM_cons]
    have hpair := (readItem (F := F) keys pair.1).bind fun key =>
      (readItem values pair.2).bind fun value => .pure (key, value)
    exact hpair.bind fun _ => ih.bind fun _ => .pure _

end Quiet

/-! ### Steps -/

namespace Turns

variable {step : Step}

/-- A step that changes no handle changes at most the one that it may change. -/
theorem of_quiet {x : SessionM Answer} (h : Quiet F x) : Turns F step s x := (h s).weaken

/-- A step may change no handle at first and one of them at last. -/
theorem bind {x : SessionM α} {f : α → SessionM Answer} (h : Quiet F x)
    (hf : ∀ a t, Turns F step t (f a)) : Turns F step s (x >>= f) := by
  have hx := h s
  unfold Turns
  rw [run_bind]
  rcases hrun : x.run s with ⟨err | a, t⟩
  · rw [hrun] at hx
    exact hx.weaken
  · rw [hrun] at hx
    exact hx.before (hf a t)

/-- What is looked up first, in the session as it is. -/
theorem resolve_bind {handles : SortedMap Handle α} {handle : Handle} {f : α → SessionM Answer}
    (h : ∀ a, handles.get? handle = some a → Turns F step s (f a)) :
    Turns F step s (Session.resolve handles handle >>= f) := by
  unfold Session.resolve
  cases hget : handles.get? handle with
  | none => exact .refl _ s
  | some a => exact h a hget

theorem get_bind {f : Session → SessionM Answer} (h : Turns F step s (f s)) :
    Turns F step s (getThe Session >>= f) := h

/-- What is done in a transaction needs to be known only of the number that its handle stands for. -/
theorem transaction_bind {tx : Handle} {f : TransactionId → SessionM Answer}
    (h : ∀ id, s.transactions.get? tx = some id → Turns F step s (f id)) :
    Turns F step s (transaction tx >>= f) := by
  unfold transaction
  rw [bind_assoc]
  exact get_bind (resolve_bind h)

/-- What is done in a context needs to be known only of the transaction that its handle stands for, or of none. -/
theorem contextOf_bind {tx? : Option Handle} {f : Context → SessionM Answer}
    (hnone : tx? = none → Turns F step s (f none))
    (hsome : ∀ tx id, tx? = some tx → s.transactions.get? tx = some id → Turns F step s (f (some id))) :
    Turns F step s (contextOf tx? >>= f) := by
  cases tx? with
  | none => exact hnone rfl
  | some tx =>
    show Turns F step s ((some <$> transaction tx) >>= f)
    rw [map_eq_pure_bind, bind_assoc]
    refine transaction_bind fun id hget => ?_
    rw [pure_bind]
    exact hsome tx id rfl hget

end Turns

section OnIndex

variable {ix cur : Handle} {half? : Option Half} {tx? : Option Handle} {step : IndexStep}

/-- To open a cursor changes the handle that it is given. -/
theorem turns_openCursor {step : Step} (htakes : step.takes? = some (.cursor, cur)) (kind : ItemKind)
    {x : IndexM (Cursor kind.Carrier)} (hx : Quiet F (ofIndex x)) :
    Turns F step s (openCursor cur kind x) := by
  refine .bind hx fun cursor t => ?_
  have hgiven : step.changes? (.ok (.text "cursor")) = some (.cursor, cur) := by
    show ((step.takes?).or _) = _
    rw [htakes]
    rfl
  show Changes F (step.changes? (.ok (.text "cursor"))) t _
  rw [hgiven]
  refine .at_handle (F.idles ?_) fun other => meaning_holdCursor t other cur { kind, cursor }
  show t.database.engine.Idles (t.dropCursor cur).database.engine
  unfold dropCursor
  split
  · next held _ => exact held.cursor.release_idles t.database
  · exact .refl _

/-- A step of an index opens a cursor at most. -/
theorem turns_onIndex (held : IndexHandle) {ctx : Context} (hadmits : F.Admits ctx)
    (hmeanwhile : (Step.index ix half? tx? step).meanwhile?.isSome → F.Admits none) :
    Turns F (.index ix half? tx? step) s (performOnIndex held ctx step) := by
  have hop {α : Type} {x : IndexM α} (hx : Contained ctx x) : Quiet F (ofIndex x) :=
    .ofIndex (hadmits.program hx)
  have hidle {α : Type} {x : IndexM α} (hx : IndexM.Idle x) : Quiet F (ofIndex x) := hop (.of_idle hx)
  have hkey (text : String) : Quiet F (readItem held.keys text) := .readItem _ text
  have hvalue (text : String) : Quiet F (readItem held.values text) := .readItem _ text
  cases step with
  | add key value =>
    exact .of_quiet ((hkey key).bind fun _ => (hvalue value).bind fun _ =>
      (hop (.add _ _ _)).bind fun _ => .pure _)
  | addMany pairs =>
    exact .of_quiet ((Quiet.readPairs _ _ pairs).bind fun _ => (hop (.addMany _ _)).bind fun _ => .pure _)
  | remove key value =>
    exact .of_quiet ((hkey key).bind fun _ => (hvalue value).bind fun _ =>
      (hop (.remove _ _ _)).bind fun _ => .pure _)
  | removeAll key =>
    exact .of_quiet ((hkey key).bind fun _ => (hop (.removeAll _ _)).bind fun _ => .pure _)
  | findFirst key =>
    exact .of_quiet ((hkey key).bind fun _ => (hop (.findFirst _ _)).bind fun _ => .pure _)
  | find c key =>
    exact .bind (hkey key) fun key t => turns_openCursor rfl _ (hop (.find _ key))
  | scanKeys c => exact turns_openCursor rfl _ (hop (.openCursor _ _ _ _ _))
  | scanDistinctKeys c => exact turns_openCursor rfl _ (hop (.openCursor _ _ _ _ _))
  | scanValues c => exact turns_openCursor rfl _ (hop (.openCursor _ _ _ _ _))
  | findByValue c value =>
    unfold performOnIndex
    cases held.index.reverse? with
    | none => exact .of_quiet (.pure _)
    | some reverse =>
      exact .bind (hvalue value) fun value t => turns_openCursor rfl _ (hop (.find _ value))
  | count => exact .of_quiet ((hop (.count _)).bind fun _ => .pure _)
  | countKey key => exact .of_quiet ((hkey key).bind fun _ => (hop (.countKey _ _)).bind fun _ => .pure _)
  | span key =>
    exact .of_quiet ((hkey key).bind fun _ => (hidle (IndexM.idle_encoding _)).bind fun _ => .pure _)
  | estimateRange range =>
    exact .of_quiet ((hidle (held.index.forward.estimateRange_idle range)).bind fun _ => .pure _)
  | estimateKey key =>
    exact .of_quiet ((hkey key).bind fun key =>
      (hidle (held.index.forward.estimateKey_idle key)).bind fun _ => .pure _)
  | estimateSize =>
    exact .of_quiet ((hidle (held.index.forward.estimateRange_idle _)).bind fun _ => .pure _)
  | statistics query budget estimateOk meanwhile force =>
    have hadding {g : Nat → SessionM Answer} (hg : ∀ n, Quiet F (g n)) :
        Quiet F (readPairs held.keys held.values meanwhile >>= fun pairs =>
          ofIndex (held.index.addMany none pairs) >>= g) := by
      -- without pairs nothing is added, and nothing but the context is needed
      cases meanwhile with
      | nil =>
        have hnothing : IndexM.Idle (held.index.addMany none []) := fun _ => .refl _
        exact (hidle hnothing).bind hg
      | cons pair pairs =>
        exact (Quiet.readPairs _ _ _).bind fun pairs =>
          (Quiet.ofIndex fun _ => hmeanwhile rfl _ _).bind hg
    unfold Turns performOnIndex
    rw [run_bind, run_askStatistics]
    cases query.question held.keys held.values with
    | error err => exact .refl _ s
    | ok question =>
      -- the count was asked for in the context, and is computed there after the pairs have come in
      rw [Except.map]
      cases hcount : (held.index.statistics ctx).count? budget estimateOk question with
      | none => exact .refl _ s
      | some count =>
        refine (hadding (fun _ => ?_) s).weaken
        cases force with
        | true => exact (hop (.count_value hcount)).bind fun _ => .pure _
        | false => exact .pure _
  | physicalKey key value =>
    exact .of_quiet ((hkey key).bind fun _ => (hvalue value).bind fun _ =>
      (hidle (IndexM.idle_encoding _)).bind fun _ => .pure _)
  | metrics => exact .of_quiet (Quiet.get.bind fun _ => .pure _)
  | _ => exact .of_quiet (.pure _)

end OnIndex

end Session

end SecondaryIndex
