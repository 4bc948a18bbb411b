import SecondaryIndex.Proofs.Engine.Once
import SecondaryIndex.Proofs.Index.Confined

/-!
# All or nothing

An operation that auto-commits has committed its complete writes in one step if it succeeds, and has
left nothing behind if it fails, whichever of its calls fails, the commit and the rollback included. An
operation in an ambient transaction works within that transaction and does nothing else. `Atomic` says
both of a program in a context, from any database whose engine keeps its books.

What makes it so is `IndexM.transactionally`. There is one transaction, no error gets out of it before it
is settled, and it is given up in the end in any case, so that an operation whose rollback fails leaves
nothing behind either (`Atomic.committed`). What comes before it and after it is noticed by no transaction,
and may fail afterwards only if nothing was written (`Atomic.followed`).
-/

namespace SecondaryIndex

variable {α β : Type}

/-- What is to be written where a view is seen. -/
abbrev Effect := (Place → Option Bytes) → Changes Place Bytes → Prop

/-- What came of a program in a context, for the engine as a whole. -/
structure AllOrNothing (allowed : Allowance) (ctx : Context) (effect : Effect) (e : Engine)
    (outcome : Except IndexError α) (e' : Engine) : Prop where
  persists : e.Persists e'
  ambient : ∀ id, ctx = some id → e.Works allowed id e'
  failed : ctx = none → ∀ err, outcome = .error err → e.Repeats e'
  done : ctx = none → ∀ a, outcome = .ok a →
    ∃ c, effect e.store.read c ∧ allowed.Admits c ∧ e.CommitsOnce c e'

/-- What no transaction notices may have come before. -/
theorem AllOrNothing.preceded {allowed : Allowance} {ctx : Context} {effect : Effect} {e e' e'' : Engine}
    {outcome : Except IndexError α} (hidles : e.Idles e')
    (h : AllOrNothing allowed ctx effect e' outcome e'') : AllOrNothing allowed ctx effect e outcome e'' := by
  refine ⟨hidles.steady.toPersists.trans h.persists, fun id hctx => ?_, fun hctx err herr => ?_,
    fun hctx a ha => ?_⟩
  · exact (Engine.Works.of_idles hidles).trans (h.ambient id hctx)
  · exact hidles.repeats.trans (h.failed hctx err herr)
  · obtain ⟨c, hc, hadmits, hcommits⟩ := h.done hctx a ha
    rw [hidles.repeats.read_eq] at hc
    exact ⟨c, hc, hadmits, hidles.commitsOnce hcommits⟩

/-- Whatever comes of a program, in the ledger it is one write in its context. -/
theorem AllOrNothing.exists_changes {allowed : Allowance} {ctx : Context} {effect : Effect} {e e' : Engine}
    {outcome : Except IndexError α} (h : AllOrNothing allowed ctx effect e outcome e') :
    ∃ c, allowed.Admits c ∧ e'.ledger = e.ledger.write c ctx := by
  cases ctx with
  | some id => exact (h.ambient id rfl).exists_changes
  | none =>
    cases outcome with
    | error err =>
      refine ⟨.nothing, allowed.admits_nothing, ?_⟩
      rw [(h.failed rfl err rfl).ledger_eq, Ledger.write_nothing]
    | ok a =>
      obtain ⟨c, -, hadmits, hcommits⟩ := h.done rfl a rfl
      exact ⟨c, hadmits, hcommits.ledger_eq⟩

/-- Who auto-commits leaves the transactions as they are. -/
theorem AllOrNothing.transactions_eq {allowed : Allowance} {effect : Effect} {e e' : Engine}
    {outcome : Except IndexError α} (h : AllOrNothing allowed none effect e outcome e') :
    e'.transactions = e.transactions := by
  cases outcome with
  | error err => exact (h.failed rfl err rfl).transactions
  | ok a =>
    obtain ⟨c, -, -, hcommits⟩ := h.done rfl a rfl
    exact hcommits.transactions_eq

/-- All or nothing comes of a program in a context, wherever it is run. -/
def Atomic (allowed : Allowance) (ctx : Context) (effect : Effect) (program : IndexM α) : Prop :=
  ∀ db : Database, db.engine.Sound →
    AllOrNothing allowed ctx effect db.engine (program.run db).1 (program.run db).2.engine

namespace IndexM

open Program

variable {program : IndexM α} {rest : α → IndexM β}

theorem Idle.bind (h : Idle program) (hrest : ∀ a, Idle (rest a)) : Idle (program >>= rest) := by
  intro db
  have hfirst := h db
  cases hrun : program.run db with
  | mk outcome db' =>
    rw [hrun] at hfirst
    cases outcome with
    | error err =>
      rw [run_bind_error hrun]
      exact hfirst
    | ok a =>
      rw [run_bind_ok hrun]
      exact hfirst.trans (hrest a db')

theorem idle_pure (a : α) : Idle (pure a) := fun _ => .refl _

theorem idle_encoding (outcome : Except EncodingError α) : Idle (ofEncoding outcome) := fun _ => .refl _

theorem idle_observe (id? : Option MetricsId) (count : Counters → Counters) :
    Idle (observe id? count) := by
  intro db
  show db.engine.Idles (db.observe id? count).engine
  rw [AnyIndex.engine_observe]
  exact .refl _

/-- The end of a transaction that is still open: what it has written was committed, or nothing was. -/
theorem settle_once {id : TransactionId} {tx : Transaction} {undo : α → IndexM Unit}
    (hundo : ∀ a, Idle (undo a)) (outcome : Except IndexError α) {db : Database}
    (hopen : db.engine.HasOpen id tx) :
    (∃ a, outcome = .ok a ∧ ((settle id outcome undo).run db).1 = .ok a ∧
      (tx.changes = .nothing ∧ db.engine.Beside id ((settle id outcome undo).run db).2.engine ∨
        tx.changes ≠ .nothing ∧
          db.engine.Commits id tx.changes ((settle id outcome undo).run db).2.engine)) ∨
    (∃ err, ((settle id outcome undo).run db).1 = .error err) ∧
      db.engine.Beside id ((settle id outcome undo).run db).2.engine := by
  cases outcome with
  | error err =>
    rw [run_settle_error]
    exact .inr ⟨⟨err, rfl⟩, Engine.beside_rollback db.engine id⟩
  | ok a =>
    rcases Engine.commit_once hopen with ⟨hok, hnothing, hbeside⟩ | ⟨hok, hsomething, hcommits⟩ |
      ⟨⟨err, herr⟩, hbeside⟩
    · rw [run_settle_ok hok]
      exact .inl ⟨a, rfl, rfl, .inl ⟨hnothing, hbeside⟩⟩
    · rw [run_settle_ok hok]
      exact .inl ⟨a, rfl, rfl, .inr ⟨hsomething, hcommits⟩⟩
    -- the commit failed and has ended the transaction; what is undone then touches only its own
    · unfold settle
      simp only [run_bind_ok (run_attempt _ _), run_ofEngine, herr]
      generalize ((Engine.commit id).run db.engine).2 = e at hbeside ⊢
      have hidles := hundo a { db with engine := e }
      obtain ⟨err', hrun⟩ := run_then_throw (α := α) (undo a) (.storage err) { db with engine := e }
      refine .inr ⟨⟨err', congrArg Prod.fst hrun⟩, ?_⟩
      have hundone : e.Beside id ((undo a).run { db with engine := e }).2.engine := hidles.keeps.beside
      have hsame := congrArg Prod.snd hrun
      rw [← hsame] at hundone
      exact hbeside.trans hundone

end IndexM

namespace Atomic

open Program IndexM

variable {allowed allowed' : Allowance} {ctx : Context} {effect effect' : Effect} {program : IndexM α}
  {operation : TransactionId → IndexM α} {undo : α → IndexM Unit} {spaces : List Namespace}

theorem mono (h : Atomic allowed ctx effect program)
    (himp : ∀ x slot, allowed x slot → allowed' x slot)
    (heffect : ∀ f c, effect f c → effect' f c) : Atomic allowed' ctx effect' program := by
  intro db hsound
  obtain ⟨hpersists, hambient, hfailed, hdone⟩ := h db hsound
  refine ⟨hpersists, fun id hctx => (hambient id hctx).mono himp, hfailed, fun hctx a ha => ?_⟩
  obtain ⟨c, hc, hadmits, hcommits⟩ := hdone hctx a ha
  exact ⟨c, heffect _ c hc, fun x slot hx => himp x slot (hadmits x slot hx), hcommits⟩

/-- What no transaction notices is done in any context. -/
theorem of_idle (h : Idle program) (heffect : ∀ f, effect f .nothing) :
    Atomic allowed ctx effect program :=
  fun db _ => ⟨(h db).steady.toPersists, fun _ _ => .of_idles (h db), fun _ _ _ => (h db).repeats,
    fun _ _ _ => ⟨.nothing, heffect _, allowed.admits_nothing, .nothing rfl (h db).repeats⟩⟩

/-- What comes of an operation between the begin and the end of a transaction of its own. -/
theorem of_begun (hconfined : ∀ id, Confined allowed id (operation id))
    (hacts : ∀ f id, Acts False spaces id f (operation id) fun c _ => effect f c)
    (hundo : ∀ a, Idle (undo a)) {e : Engine} (hsound : e.Sound) {db db₂ db₃ : Database}
    (hdb : db.engine = e.begun) {outcome result : Except IndexError α}
    (hop : (operation e.nextTransaction).run db = (outcome, db₂))
    (hsettle : (settle e.nextTransaction outcome undo).run db₂ = (result, db₃)) :
    AllOrNothing allowed none effect e result (db₃.engine.discard e.nextTransaction) := by
  have hfree : e.transactions.get? e.nextTransaction = none := hsound.fresh _ (Nat.le_refl _)
  have hgone := Engine.get?_discard db₃.engine e.nextTransaction
  have hbegin : e.Persists e.begun := (Engine.Moves.begins fun hf => hf).persists
  have hpending : e.begun.ledger.pending e.nextTransaction = some .nothing := by
    rw [Engine.ledger_begun, Ledger.begin_pending, if_pos rfl]
  -- the operation is run where its transaction sees what is committed
  have hsees : db.engine.ledger.view (some e.nextTransaction) = e.store.read := by
    rw [hdb, Engine.view_begun]
    rfl
  have hworks := hconfined e.nextTransaction db
  obtain ⟨c, hacted, hok, -⟩ := hacts e.store.read e.nextTransaction db fun _ => hsees
  rw [hop, hdb] at hworks
  rw [hop] at hok
  have hledger := hacted.ledger
  rw [hop, hdb] at hledger
  have hbeside : e.Beside e.nextTransaction db₂.engine :=
    (Engine.beside_begun e).trans hworks.keeps.beside
  -- what the transaction has pending is what the operation has written
  have hwritten : db₂.engine.ledger.pending e.nextTransaction = some c := by
    rw [hledger, Ledger.write_some_pending, if_pos rfl, hpending, Option.map_some,
      Changes.after_nothing]
  have hadmits : allowed.Admits c := by
    obtain ⟨c', hc', hledger'⟩ := hworks.exists_changes
    rw [hledger', Ledger.write_some_pending, if_pos rfl, hpending, Option.map_some,
      Changes.after_nothing] at hwritten
    rwa [← Option.some.inj hwritten]
  obtain ⟨tx, hopen, hchanges⟩ := Engine.pending_eq_some_iff.1 hwritten
  have hpersists : e.Persists (db₃.engine.discard e.nextTransaction) := by
    have hends := (settle_ends e.nextTransaction hundo outcome db₂).1
    rw [hsettle] at hends
    exact ((hbegin.trans hworks.steady.toPersists).trans hends).trans
      (Engine.Moves.drops _).persists
  have hdiscard := Engine.beside_discard db₃.engine e.nextTransaction
  have hrepeats (h : db₂.engine.Beside e.nextTransaction db₃.engine) :
      e.Repeats (db₃.engine.discard e.nextTransaction) :=
    ((hbeside.trans h).trans hdiscard).repeats hsound (hpersists.sound hsound) hfree hgone
  have hends := settle_once hundo outcome hopen
  rw [hsettle, hchanges] at hends
  refine ⟨hpersists, nofun, fun _ err herr => ?_, fun _ a ha => ?_⟩
  · rcases hends with ⟨a, -, ha, -⟩ | ⟨-, h⟩
    · rw [herr] at ha
      cases ha
    · exact hrepeats h
  · rcases hends with ⟨a', houtcome, ha', hcommitted⟩ | ⟨⟨err, herr⟩, -⟩
    · refine ⟨c, hok a' houtcome, hadmits, ?_⟩
      rcases hcommitted with ⟨hnothing, h⟩ | ⟨hsomething, h⟩
      · exact .nothing hnothing (hrepeats h)
      · exact ((hbeside.commits h).beside hdiscard).once hsomething hfree hgone
    · rw [ha] at herr
      cases herr

/-- An operation in a transaction of its own. -/
theorem committed (hconfined : ∀ id, Confined allowed id (operation id))
    (hacts : ∀ f id, Acts False spaces id f (operation id) fun c _ => effect f c)
    (hundo : ∀ a, Idle (undo a)) :
    Atomic allowed none effect (transactionally none operation undo) := by
  intro db hsound
  have hdrawn := Engine.idles_drawn db.engine .begin
  have hrun := Engine.run_begin db.engine
  cases hfails : db.engine.fails .begin with
  | true =>
    -- the transaction is not even begun
    rw [run_transactionally_fails operation undo hfails]
    exact ⟨hdrawn.steady.toPersists, nofun, fun _ _ _ => hdrawn.repeats, nofun⟩
  | false =>
    rw [hfails, if_neg Bool.false_ne_true] at hrun
    rw [run_transactionally_none operation undo (run_ofEngine_ok hrun)]
    refine .preceded hdrawn ?_
    exact of_begun hconfined hacts hundo (hdrawn.steady.sound hsound) rfl rfl rfl

/-- All or nothing comes of an operation that works within its transaction. -/
theorem transactionally (hconfined : ∀ id, Confined allowed id (operation id))
    (hacts : ∀ f id, Acts False spaces id f (operation id) fun c _ => effect f c)
    (hundo : ∀ a, Idle (undo a)) :
    Atomic allowed ctx effect (IndexM.transactionally ctx operation undo) := by
  cases ctx with
  | none => exact committed hconfined hacts hundo
  | some id =>
    intro db _
    have hworks := hconfined id db
    refine ⟨hworks.steady.toPersists, fun j hj => ?_, nofun, nofun⟩
    rw [← Option.some.inj hj]
    exact hworks

theorem within (hconfined : ∀ id, Confined allowed id (operation id))
    (hacts : ∀ f id, Acts False spaces id f (operation id) fun c _ => effect f c) :
    Atomic allowed ctx effect (IndexM.within ctx operation) :=
  transactionally hconfined hacts fun _ => idle_pure _

/-! ### Before and after an operation -/

/-- What comes first is noticed by no transaction. -/
theorem preceded {first : IndexM β} {rest : β → IndexM α} (hfirst : Idle first)
    (h : ∀ b, Atomic allowed ctx effect (rest b)) : Atomic allowed ctx effect (first >>= rest) := by
  intro db hsound
  have hidles := hfirst db
  cases hrun : first.run db with
  | mk outcome db' =>
    rw [hrun] at hidles
    cases outcome with
    | error err =>
      rw [run_bind_error hrun]
      exact ⟨hidles.steady.toPersists, fun _ _ => .of_idles hidles, fun _ _ _ => hidles.repeats, nofun⟩
    | ok b =>
      rw [run_bind_ok hrun]
      exact .preceded hidles (h b db' (hidles.steady.sound hsound))

/-- What comes last is noticed by no transaction, and does not fail if something has been written. -/
theorem followed {rest : α → IndexM β} (h : Atomic allowed ctx effect program)
    (hrest : ∀ a, Idle (rest a))
    (hfails : (∀ a db, ∃ b, ((rest a).run db).1 = .ok b) ∨ ∀ f c, effect f c → c = .nothing) :
    Atomic allowed ctx effect (program >>= rest) := by
  intro db hsound
  have hfirst := h db hsound
  cases hrun : program.run db with
  | mk outcome db' =>
    rw [hrun] at hfirst
    cases outcome with
    | error err =>
      rw [run_bind_error hrun]
      exact ⟨hfirst.persists, hfirst.ambient, fun hctx _ _ => hfirst.failed hctx err rfl, nofun⟩
    | ok a =>
      rw [run_bind_ok hrun]
      have hidles := hrest a db'
      refine ⟨hfirst.persists.trans hidles.steady.toPersists, fun id hctx => ?_, fun hctx err herr => ?_,
        fun hctx _ _ => ?_⟩
      · exact (hfirst.ambient id hctx).trans (.of_idles hidles)
      · obtain ⟨c, hc, -, hcommits⟩ := hfirst.done hctx a rfl
        -- either what follows cannot fail, or there was nothing to commit
        rcases hfails with hnever | hnothing
        · obtain ⟨b, hb⟩ := hnever a db'
          rw [hb] at herr
          cases herr
        · exact (hcommits.repeats (hnothing _ c hc)).trans hidles.repeats
      · obtain ⟨c, hc, hadmits, hcommits⟩ := hfirst.done hctx a rfl
        exact ⟨c, hc, hadmits, hcommits.idles hidles⟩

theorem map {g : α → β} (h : Atomic allowed ctx effect program) :
    Atomic allowed ctx effect (g <$> program) := by
  rw [map_eq_pure_bind]
  exact h.followed (fun _ => idle_pure _) (.inl fun a _ => ⟨g a, rfl⟩)

/-- Counting comes last. -/
theorem observed (h : Atomic allowed ctx effect program) (id? : α → Option MetricsId)
    (count : α → Counters → Counters) (g : α → β) :
    Atomic allowed ctx effect (do
      let a ← program
      IndexM.observe (id? a) (count a)
      pure (g a)) := by
  refine h.followed (fun a => (idle_observe _ _).bind fun _ => idle_pure _) (.inl fun a db => ?_)
  exact ⟨g a, rfl⟩

end Atomic

end SecondaryIndex
