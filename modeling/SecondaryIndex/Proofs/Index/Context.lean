import SecondaryIndex.Proofs.Engine.Conflict
import SecondaryIndex.Proofs.Engine.Works
import SecondaryIndex.Proofs.Index.Program

/-!
# Operations in a context

An operation in a context is a program within a transaction, either the ambient one or one of its own
that is begun and settled around it. `Settled` says what comes of it for the ledger of the engine: the
operation has written in its context, all at once, or it has failed. An operation that has failed
without an ambient transaction has left nothing behind; within one it may have left writes there, no
matter which (`HalfDone`). `Settles` is the same of a program, from wherever it is run, and
`Settles.transactionally` gets it from what the program does within a transaction (`Acts`).

An auto-committed operation cannot be refused by a conflict. Its transaction starts from the last
commit, nothing is committed until it ends, and a transaction that starts from the last commit is always
committed (`Engine.Sound.commit_of_start_eq`).
-/

namespace SecondaryIndex

variable {α β γ : Type}

/-- What a failed operation may have left: writes in the ambient transaction, if that is open, any of
the namespaces is there, and something was in the way. -/
def HalfDone (live : Prop) (spaces : List Namespace) (ctx : Context) (db db' : Database) : Prop :=
  ∃ id c, ctx = some id ∧ db.engine.ledger.Usable ctx ∧ ¬ db.engine.Lacks spaces ∧
    ¬ (live ∧ db.engine.Ready spaces) ∧ db'.engine.ledger = db.engine.ledger.write c ctx

/-- What came of an operation in a context. -/
structure Settled (live : Prop) (spaces : List Namespace) (ctx : Context)
    (writes : Changes Place Bytes → Prop) (answer : Except IndexError α → Prop) (db : Database)
    (outcome : Except IndexError α) (db' : Database) : Prop where
  persists : db.engine.Persists db'.engine
  ok : ∀ a, outcome = .ok a → ∃ c, writes c ∧ db'.engine.ledger = db.engine.ledger.write c ctx
  error : ∀ err, outcome = .error err → db'.engine.ledger = db.engine.ledger ∨
    HalfDone live spaces ctx db db'
  live : live → db.engine.ledger.Usable ctx → db.engine.Ready spaces → answer outcome

/-- What comes of a program in a context that, if it can be used, sees a view. -/
def Settles (live : Prop) (spaces : List Namespace) (ctx : Context) (view : Place → Option Bytes)
    (program : IndexM α) (writes : Changes Place Bytes → Prop)
    (answer : Except IndexError α → Prop) : Prop :=
  ∀ db : Database, db.engine.Sound →
    (db.engine.ledger.Usable ctx → db.engine.ledger.view ctx = view) →
    Settled live spaces ctx writes answer db (program.run db).1 (program.run db).2

/-- A result of which something holds. -/
def Gives {ε : Type} (A : α → Prop) (outcome : Except ε α) : Prop := ∃ a, outcome = .ok a ∧ A a

theorem Ledger.write_of_not_usable {κ ν : Type} {l : Ledger κ ν} {ctx : Context}
    (h : ¬ l.Usable ctx) (c : Changes κ ν) : l.write c ctx = l := by
  cases ctx with
  | none => exact absurd trivial h
  | some id =>
    have hclosed : l.pending id = none := Option.not_isSome_iff_eq_none.1 h
    refine Ledger.ext rfl (funext fun j => ?_)
    rw [write_some_pending]
    split
    · next hj => rw [hj, hclosed, Option.map_none]
    · rfl

namespace IndexM

open Program

variable {id : TransactionId} {db : Database}

/-- An operation that auto-commits is run between the begin and the end of its transaction. -/
theorem run_transactionally_none (operation : TransactionId → IndexM α) (undo : α → IndexM Unit)
    {db₁ : Database} (hbegin : (ofEngine Engine.begin).run db = (.ok id, db₁)) :
    (transactionally none operation undo).run db =
      ((((settle id ((operation id).run db₁).1 undo).run ((operation id).run db₁).2).1),
        ((settle id ((operation id).run db₁).1 undo).run ((operation id).run db₁).2).2.mapEngine
          fun engine => engine.discard id) := by
  unfold transactionally
  rw [run_bind_ok hbegin, run_bind_ok (run_attempt _ _), run_bind_ok (run_attempt _ _),
    run_bind_ok (run_modify _ _), run_ofOutcome]

/-- An operation that auto-commits is not run if its transaction cannot be begun. -/
theorem run_transactionally_fails (operation : TransactionId → IndexM α) (undo : α → IndexM Unit)
    (hfails : db.engine.fails .begin = true) :
    (transactionally none operation undo).run db =
      (.error (.storage (.injected .begin)), { db with engine := db.engine.drawn .begin }) := by
  have hrun := Engine.run_begin db.engine
  rw [hfails, if_pos rfl] at hrun
  unfold transactionally
  rw [run_bind_error (run_ofEngine_error hrun)]

/-- Whether a program does nothing that a transaction notices, whatever comes of it. -/
def Idle (program : IndexM α) : Prop :=
  ∀ db : Database, db.engine.Idles (program.run db).2.engine

theorem idle_releaseIterator : Idle releaseIterator := fun db => Engine.idles_releaseIterator db.engine

theorem run_then_throw (program : IndexM Unit) (err : IndexError) (db : Database) :
    ∃ err', (program >>= fun _ => throw err : IndexM α).run db =
      (.error err', (program.run db).2) := by
  rw [run_bind]
  rcases program.run db with ⟨_ | _, db'⟩ <;> exact ⟨_, rfl⟩

theorem run_settle_ok {undo : α → IndexM Unit} {a : α}
    (h : ((Engine.commit id).run db.engine).1 = .ok ()) :
    (settle id (.ok a) undo).run db =
      (.ok a, { db with engine := ((Engine.commit id).run db.engine).2 }) := by
  unfold settle
  simp only [run_bind_ok (run_attempt _ _), run_ofEngine, h]
  rfl

/-- Whether or not the rollback works, the error of the operation is told. -/
theorem run_settle_error {undo : α → IndexM Unit} (err : IndexError) (db : Database) :
    (settle id (.error err) undo).run db =
      (.error err, { db with engine := ((Engine.rollback id).run db.engine).2 }) := by
  unfold settle
  rw [run_bind_ok (run_attempt _ _), run_ofEngine]
  rfl

/-- A transaction is settled by committing it for an operation that succeeded. In any other case
nothing of it is committed, and it may still be open. -/
theorem settle_ends (id : TransactionId) {undo : α → IndexM Unit} (hundo : ∀ a, Idle (undo a))
    (outcome : Except IndexError α) (db : Database) :
    db.engine.Persists ((settle id outcome undo).run db).2.engine ∧
      ((∃ a, outcome = .ok a ∧ ((settle id outcome undo).run db).1 = .ok a ∧
          ((settle id outcome undo).run db).2.engine.ledger = db.engine.ledger.commit id) ∨
        (∃ err, ((settle id outcome undo).run db).1 = .error err) ∧
          (((settle id outcome undo).run db).2.engine.ledger = db.engine.ledger ∨
            ((settle id outcome undo).run db).2.engine.ledger = db.engine.ledger.close id)) := by
  cases outcome with
  | error err =>
    obtain ⟨hpersists, hends⟩ := Engine.rollback_ends db.engine id
    rw [run_settle_error]
    exact ⟨hpersists, .inr ⟨⟨err, rfl⟩, hends⟩⟩
  | ok a =>
    obtain ⟨hpersists, ⟨hok, hledger⟩ | ⟨⟨err, herr⟩, hledger⟩⟩ := Engine.commit_ends db.engine id
    · rw [run_settle_ok hok]
      exact ⟨hpersists, .inl ⟨a, rfl, rfl, hledger⟩⟩
    · unfold settle
      simp only [run_bind_ok (run_attempt _ _), run_ofEngine, herr]
      generalize ((Engine.commit id).run db.engine).2 = e at hpersists hledger ⊢
      -- the commit failed; undoing what was acquired does not change that
      have hidles := hundo a { db with engine := e }
      have hsame := hidles.ledger_eq
      obtain ⟨err', hrun⟩ := run_then_throw (α := α) (undo a) (.storage err) { db with engine := e }
      have hfails : ((undo a >>= fun _ => throw (.storage err) : IndexM α)).run
          { db with engine := e } = (.error err', ((undo a).run { db with engine := e }).2) := hrun
      refine ⟨?_, .inr ⟨⟨err', ?_⟩, ?_⟩⟩
      · exact hpersists.trans (hfails ▸ hidles.steady.toPersists)
      · exact congrArg Prod.fst hfails
      · rw [← hsame] at hledger
        exact hfails ▸ hledger

/-- An operation is committed if its transaction still starts from the last commit. -/
theorem settle_ok {undo : α → IndexM Unit} {a : α} {tx : Transaction} (hsound : db.engine.Sound)
    (hhealthy : db.engine.faults = .healthy) (hopen : db.engine.HasOpen id tx)
    (hstart : tx.start = db.engine.store.lastCommit) :
    ((settle id (.ok a) undo).run db).1 = .ok a := by
  rw [run_settle_ok (hsound.commit_of_start_eq hhealthy hopen hstart)]

end IndexM

namespace Settles

open Program IndexM

variable {live : Prop} {spaces : List Namespace} {ctx : Context} {view : Place → Option Bytes}
  {writes : Changes Place Bytes → Prop} {A : α → Prop} {operation : TransactionId → IndexM α}
  {undo : α → IndexM Unit}

/-- Within an ambient transaction an operation is just run. -/
theorem ambient {id : TransactionId} {program : IndexM α}
    (h : Acts live spaces id view program fun c a => writes c ∧ A a) :
    Settles live spaces (some id) view program writes (Gives A) := by
  intro db _ hv
  -- nothing is committed here, so what was written before a failure stays in the transaction
  obtain ⟨c, hacted, hok, hlive, hlacks⟩ := h db hv
  refine ⟨hacted.steady.toPersists, fun a ha => ⟨c, (hok a ha).1, hacted.ledger⟩, fun err herr => ?_,
    fun hl hu hr => ?_⟩
  · by_cases hu : db.engine.ledger.Usable (some id)
    · by_cases hl : db.engine.Lacks spaces
      · refine .inl ?_
        rw [hacted.ledger, hlacks hl, Ledger.write_nothing]
      · refine .inr ⟨id, c, rfl, hu, hl, fun ⟨hlive', hr⟩ => ?_, hacted.ledger⟩
        obtain ⟨a, ha⟩ := hlive hlive' hu hr
        rw [herr] at ha
        cases ha
    · refine .inl ?_
      rw [hacted.ledger, Ledger.write_of_not_usable hu]
  · obtain ⟨a, ha⟩ := hlive hl hu hr
    exact ⟨a, ha, (hok a ha).2⟩

/-- A transaction that has just begun, and what it has done since. -/
theorem exists_open_of_begun {e e' : Engine} {c : Changes Place Bytes} (hsteady : e.begun.Steady e')
    (hledger : e'.ledger = e.begun.ledger.write c (some e.nextTransaction)) :
    ∃ tx, e'.HasOpen e.nextTransaction tx ∧ tx.start = e'.store.lastCommit := by
  have hpending : e'.ledger.pending e.nextTransaction = some (c.after .nothing) := by
    rw [hledger, Ledger.write_some_pending, if_pos rfl, Engine.ledger_begun, Ledger.begin_pending,
      if_pos rfl, Option.map_some]
  obtain ⟨tx', hopen', -⟩ := Engine.pending_eq_some_iff.1 hpending
  refine ⟨tx', hopen', ?_⟩
  -- a steady engine neither commits nor changes where a transaction has started
  obtain ⟨tx, hopen, hstart⟩ := hsteady.start hopen'
  rcases Engine.hasOpen_begun.1 hopen with ⟨-, rfl⟩ | ⟨hne, -⟩
  · rw [← hstart, hsteady.lastCommit]
    rfl
  · exact absurd rfl hne

/-- What comes of an operation between the begin and the end of a transaction of its own. -/
theorem settled_of_begun (h : ∀ id, Acts live spaces id view (operation id) fun c a => writes c ∧ A a)
    (hundo : ∀ a, Idle (undo a)) {e : Engine} (hsound : e.Sound) (hview : e.ledger.committed = view)
    {db db₂ db₃ : Database} (hdb : db.engine = e.begun) {outcome result : Except IndexError α}
    (hop : (operation e.nextTransaction).run db = (outcome, db₂))
    (hsettle : (settle e.nextTransaction outcome undo).run db₂ = (result, db₃)) :
    e.Persists (db₃.engine.discard e.nextTransaction) ∧
      (∀ a, result = .ok a → ∃ c, writes c ∧
        (db₃.engine.discard e.nextTransaction).ledger = e.ledger.write c none) ∧
      (∀ err, result = .error err → (db₃.engine.discard e.nextTransaction).ledger = e.ledger) ∧
      (live → e.Ready spaces → Gives A result) := by
  have hfresh : e.ledger.pending e.nextTransaction = none := by
    rw [Engine.ledger_pending, hsound.fresh _ (Nat.le_refl _)]
    rfl
  have hbegin : e.Persists e.begun := (Engine.Moves.begins fun hf => hf).persists
  -- the operation is run where its transaction sees what is committed
  have hsees : db.engine.ledger.view (some e.nextTransaction) = view := by
    rw [hdb, Engine.view_begun, ← hview]
  obtain ⟨c, hacted, hok, hlive, -⟩ := h e.nextTransaction db fun _ => hsees
  rw [hop] at hacted hok hlive
  have hwritten : db₂.engine.ledger =
      (e.ledger.begin e.nextTransaction).write c (some e.nextTransaction) := by
    rw [← Engine.ledger_begun, ← hdb]
    exact hacted.ledger
  have hsteady : e.begun.Steady db₂.engine := hdb ▸ hacted.steady
  obtain ⟨hends, hcases⟩ := settle_ends e.nextTransaction hundo outcome db₂
  rw [hsettle] at hends hcases
  have hdiscard := Engine.ledger_discard db₃.engine e.nextTransaction
  -- the transaction is given up in the end, whether or not it was settled
  refine ⟨?_, ?_, ?_, fun hl hr => ?_⟩
  · exact ((hbegin.trans hsteady.toPersists).trans hends).trans (Engine.Moves.drops _).persists
  · rintro a rfl
    obtain ⟨a', rfl, ha, hledger⟩ | ⟨⟨err, herr⟩, -⟩ := hcases
    · cases ha
      refine ⟨c, (hok a rfl).1, ?_⟩
      rw [hdiscard, hledger, hwritten, Ledger.commit_write_begin _ _ _ hfresh]
      exact Ledger.close_of_pending_eq_none _ _ hfresh
    · cases herr
  · rintro err rfl
    obtain ⟨a, -, ha, -⟩ | ⟨-, hledger | hledger⟩ := hcases
    · cases ha
    · rw [hdiscard, hledger, hwritten, Ledger.close_write_begin _ _ _ hfresh]
    · rw [hdiscard, hledger, hwritten, Ledger.close_write_begin _ _ _ hfresh]
      exact Ledger.close_of_pending_eq_none _ _ hfresh
  · -- nothing was committed in between, so nothing is in the way of the commit
    have hready : db.engine.Ready spaces := hdb ▸ hr.persists hbegin
    have husable : db.engine.ledger.Usable (some e.nextTransaction) := by
      show (db.engine.ledger.pending e.nextTransaction).isSome = true
      rw [hdb, Engine.ledger_begun, Ledger.begin_pending, if_pos rfl]
      rfl
    obtain ⟨a, ha⟩ := hlive hl husable hready
    obtain rfl : outcome = .ok a := ha
    obtain ⟨tx, hopen, hstart⟩ := exists_open_of_begun hsteady (by rw [hwritten, Engine.ledger_begun])
    have hdone : ((settle e.nextTransaction (.ok a) undo).run db₂).1 = .ok a :=
      settle_ok (hsteady.sound (hbegin.sound hsound)) (hacted.steady.healthy hready.healthy) hopen
        hstart
    rw [hsettle] at hdone
    exact ⟨a, hdone, (hok a rfl).2⟩

/-- An operation that auto-commits writes all it writes, or nothing. -/
theorem committed (h : ∀ id, Acts live spaces id view (operation id) fun c a => writes c ∧ A a)
    (hundo : ∀ a, Idle (undo a)) :
    Settles live spaces none view (IndexM.transactionally none operation undo) writes
      (Gives A) := by
  intro db hsound hv
  have hrun := Engine.run_begin db.engine
  cases hfails : db.engine.fails .begin with
  | true =>
    -- the transaction is not even begun
    rw [run_transactionally_fails operation undo hfails]
    refine ⟨(Engine.steady_drawn _ _).toPersists, fun a ha => ?_, fun _ _ => .inl rfl, fun _ _ hr => ?_⟩
    · cases ha
    · rw [Engine.fails_of_healthy _ _ hr.healthy] at hfails
      cases hfails
  | false =>
    rw [hfails, if_neg Bool.false_ne_true] at hrun
    rw [run_transactionally_none operation undo (run_ofEngine_ok hrun)]
    have hdrawn : db.engine.Persists (db.engine.drawn .begin) := (Engine.steady_drawn _ _).toPersists
    have hbegun : ({ db with engine := (db.engine.drawn .begin).begun } : Database).engine =
        (db.engine.drawn .begin).begun := rfl
    obtain ⟨hpersists, hok, herror, hlive⟩ :=
      settled_of_begun h hundo (hdrawn.sound hsound) (hv trivial) hbegun rfl rfl
    exact ⟨hdrawn.trans hpersists, hok, fun err herr => .inl (herror err herr),
      fun hl _ hr => hlive hl (hr.persists hdrawn)⟩

/-- What comes of an operation in a context, by what it does within a transaction. -/
theorem transactionally (h : ∀ id, Acts live spaces id view (operation id) fun c a => writes c ∧ A a)
    (hundo : ∀ a, Idle (undo a)) :
    Settles live spaces ctx view (IndexM.transactionally ctx operation undo) writes
      (Gives A) := by
  cases ctx with
  | none => exact committed h hundo
  | some id => exact ambient (h id)

theorem within (h : ∀ id, Acts live spaces id view (operation id) fun c a => writes c ∧ A a) :
    Settles live spaces ctx view (IndexM.within ctx operation) writes (Gives A) :=
  transactionally h fun _ _ => .refl _

/-! ### Before and after an operation -/

variable {program : IndexM α} {answer : Except IndexError β → Prop}

/-- What is worked out without looking at the database may come first. -/
theorem preceded {first : IndexM γ} {rest : γ → IndexM β} {outcome : Except IndexError γ}
    (hfirst : ∀ db, first.run db = (outcome, db)) (hlive : live → ∃ x, outcome = .ok x)
    (h : ∀ x, outcome = .ok x → Settles live spaces ctx view (rest x) writes answer) :
    Settles live spaces ctx view (first >>= rest) writes answer := by
  intro db hsound hv
  cases outcome with
  | error err =>
    rw [run_bind_error (hfirst db)]
    refine ⟨.refl _, fun b hb => ?_, fun _ _ => .inl rfl, fun hl _ _ => ?_⟩
    · cases hb
    · obtain ⟨x, hx⟩ := hlive hl
      cases hx
  | ok x =>
    rw [run_bind_ok (hfirst db)]
    exact h x rfl db hsound hv

theorem map {answer : Except IndexError α → Prop} {answer' : Except IndexError β → Prop} {f : α → β}
    (h : Settles live spaces ctx view program writes answer)
    (himp : ∀ outcome, answer outcome → answer' (outcome.map f)) :
    Settles live spaces ctx view (f <$> program) writes answer' := by
  intro db hsound hv
  obtain ⟨hpersists, hok, herror, hlive⟩ := h db hsound hv
  rw [run_map]
  refine ⟨hpersists, fun b hb => ?_, fun err herr => ?_, fun hl hu hr => himp _ (hlive hl hu hr)⟩
  · obtain ⟨a, ha, -⟩ : ∃ a, (program.run db).1 = .ok a ∧ f a = b := by
      cases hrun : (program.run db).1 with
      | error err => simp [hrun, Except.map] at hb
      | ok a => exact ⟨a, rfl, by simpa [hrun, Except.map] using hb⟩
    exact hok a ha
  · have hfailed : (program.run db).1 = .error err := by
      cases hrun : (program.run db).1 with
      | error err' => simpa [hrun, Except.map] using herr
      | ok a => simp [hrun, Except.map] at herr
    exact herror err hfailed

/-- More may be promised than is needed, and less be said of the writes and the answer. -/
theorem mono {live' : Prop} {writes' : Changes Place Bytes → Prop}
    {answer answer' : Except IndexError α → Prop}
    (h : Settles live spaces ctx view program writes answer) (hlive : live' → live)
    (hwrites : ∀ c, writes c → writes' c) (hanswer : ∀ outcome, answer outcome → answer' outcome) :
    Settles live' spaces ctx view program writes' answer' := by
  intro db hsound hv
  obtain ⟨hpersists, hok, herror, hlives⟩ := h db hsound hv
  refine ⟨hpersists, fun a ha => ?_, fun err herr => ?_, fun hl hu hr => ?_⟩
  · obtain ⟨c, hc, hledger⟩ := hok a ha
    exact ⟨c, hwrites c hc, hledger⟩
  · refine (herror err herr).imp_right ?_
    rintro ⟨id, c, hctx, hu, hlacks, hnot, hledger⟩
    exact ⟨id, c, hctx, hu, hlacks, fun ⟨hl, hr⟩ => hnot ⟨hlive hl, hr⟩, hledger⟩
  · exact hanswer _ (hlives (hlive hl) hu hr)

/-- Less may be said of what is given. -/
theorem gives {B : α → Prop} (h : Settles live spaces ctx view program writes (Gives A))
    (himp : ∀ a, A a → B a) : Settles live spaces ctx view program writes (Gives B) := by
  refine h.mono (fun hl => hl) (fun _ hc => hc) ?_
  rintro outcome ⟨a, ha, hA⟩
  exact ⟨a, ha, himp a hA⟩

/-- An operation that fails is not followed by anything. -/
theorem failed {writes' : Changes Place Bytes → Prop} {db db' : Database} {err : IndexError}
    (h : Settled live spaces ctx writes (Gives A) db (.error err) db') :
    Settled live spaces ctx writes' answer db (.error err) db' := by
  refine ⟨h.persists, fun b hb => ?_, fun _ _ => h.error err rfl, fun hl hu hr => ?_⟩
  · cases hb
  · obtain ⟨a, ha, -⟩ := h.live hl hu hr
    cases ha

/-- Counting afterwards does not fail, and the engine does not notice. -/
theorem counted (h : Settles live spaces ctx view program writes (Gives A)) {rest : α → IndexM β}
    {B : β → Prop}
    (hrest : ∀ a db, ∃ b, ((rest a).run db).1 = .ok b ∧ ((rest a).run db).2.engine = db.engine ∧
      (A a → B b)) :
    Settles live spaces ctx view (program >>= rest) writes (Gives B) := by
  intro db hsound hv
  have hfirst := h db hsound hv
  cases hrun : program.run db with
  | mk outcome db' =>
    rw [hrun] at hfirst
    cases outcome with
    | error err =>
      rw [run_bind_error hrun]
      exact failed hfirst
    | ok a =>
      rw [run_bind_ok hrun]
      obtain ⟨b, hb, hsame, hAB⟩ := hrest a db'
      rw [hb]
      refine ⟨hsame ▸ hfirst.persists, fun _ _ => ?_, fun err herr => ?_, fun hl hu hr => ?_⟩
      · rw [hsame]
        exact hfirst.ok a rfl
      · cases herr
      · obtain ⟨a', ha', hA⟩ := hfirst.live hl hu hr
        cases ha'
        exact ⟨b, rfl, hAB hA⟩

/-- After an operation that has written nothing, more may be asked, and that may fail. -/
theorem asked (h : Settles live spaces ctx view program (· = .nothing) (Gives A))
    {rest : α → IndexM β} (hidle : ∀ a, Idle (rest a))
    (hrest : ∀ a db, A a → db.engine.faults = .healthy → answer ((rest a).run db).1) :
    Settles live spaces ctx view (program >>= rest) (· = .nothing) answer := by
  intro db hsound hv
  have hfirst := h db hsound hv
  cases hrun : program.run db with
  | mk outcome db' =>
    rw [hrun] at hfirst
    cases outcome with
    | error err =>
      rw [run_bind_error hrun]
      exact failed hfirst
    | ok a =>
      rw [run_bind_ok hrun]
      have hidles := hidle a db'
      have hledger : ((rest a).run db').2.engine.ledger = db.engine.ledger := by
        obtain ⟨c, rfl, hledger⟩ := hfirst.ok a rfl
        rw [hidles.ledger_eq, hledger, Ledger.write_nothing]
      refine ⟨hfirst.persists.trans hidles.steady.toPersists, fun _ _ => ⟨.nothing, rfl, ?_⟩, fun _ _ => .inl hledger,
        fun hl hu hr => ?_⟩
      · rw [hledger, Ledger.write_nothing]
      · obtain ⟨a', ha', hA⟩ := hfirst.live hl hu hr
        cases ha'
        exact hrest a db' hA (hfirst.persists.healthy hr.healthy)

end Settles

end SecondaryIndex
