import SecondaryIndex.Proofs.Engine.Echo
import SecondaryIndex.Proofs.Index.Runs

/-!
# Operations that fail

Any of the calls that an operation makes on the engine may fail, and so may the calls that end its
transaction. For an operation that auto-commits nothing is left behind then: the engine is as if it had not
been asked at all, as far as any later call can tell (`Engine.Echoes`). If the operation succeeds instead,
its complete writes were committed, in one step. In an ambient transaction nobody else notices the
operation until that transaction is committed, however the operation ends.

The pattern of failures is part of the database, and everything that can happen to a database can have
happened before.
-/

namespace SecondaryIndex

variable {K V : Type} {permits : Action → Prop} {options : StoreOptions} {db : Database}

/-- Every operation of an index is all or nothing, wherever a run leads, and whichever calls of the engine
are going to fail. -/
theorem Database.Runs.all_or_nothing (runs : Database.Runs permits (.ofOptions options) db)
    (index : AnyIndex K V) (ctx : Context) (operation : IndexOperation K V) :
    (ctx = none → ∀ err, ((index.operate ctx operation).run db).1 = .error err →
      Engine.Echoes (Engine.renumber db.engine ((index.operate ctx operation).run db).2.engine)
        (fun _ => False) db.engine ((index.operate ctx operation).run db).2.engine) ∧
    (ctx = none → ∀ report, ((index.operate ctx operation).run db).1 = .ok report →
      ∃ c, operation.Effect index db.engine.store.read c ∧
        db.engine.CommitsOnce c ((index.operate ctx operation).run db).2.engine) ∧
    ∀ id, ctx = some id →
      Engine.Echoes (fun j => j) (· = id) db.engine
        ((index.operate ctx operation).run db).2.engine := by
  have hsound : db.engine.Sound := runs.sound (Engine.sound_ofOptions options)
  obtain ⟨-, hambient, hfailed, hdone⟩ := index.operate_atomic ctx operation db hsound
  refine ⟨fun hctx err herr => (hfailed hctx err herr).echoes hsound, fun hctx report hreport => ?_,
    fun id hctx => (hambient id hctx).keeps.echoes⟩
  obtain ⟨c, hc, -, hcommits⟩ := hdone hctx report hreport
  exact ⟨c, hc, hcommits⟩

/-- A removal of two pairs that fails at the second of them, and then cannot roll back. -/
theorem all_or_nothing_of_failed_removal :
    ∃ (index : AnyIndex UInt64 UInt64) (db : Database) (err : IndexError),
      Database.Runs (fun _ => True) (.ofOptions {}) db ∧
      ((index.operate none (.call (.removeAll 1))).run db).1 = .error err ∧
      Engine.Echoes
        (Engine.renumber db.engine ((index.operate none (.call (.removeAll 1))).run db).2.engine)
        (fun _ => False) db.engine
        ((index.operate none (.call (.removeAll 1))).run db).2.engine := by
  obtain ⟨index, db, runs, hfails⟩ : ∃ (index : AnyIndex UInt64 UInt64) (db : Database),
      Database.Runs (fun _ => True) (.ofOptions {}) db ∧
        ((index.operate none (.call (.removeAll 1))).run db).1.isOk = false := by
    have hempty : Database.Runs (fun _ => True) (.ofOptions {}) (.ofOptions {}) := .refl
    have hspaces := (hempty.step (.store (.createNamespace "forward")) trivial).step
      (.store (.createNamespace "reverse")) trivial
    let index : AnyIndex UInt64 UInt64 :=
      .twoWay (.create "pairs" "forward" "reverse" .unsigned .unsigned {})
    have hadded := (hspaces.step (.index index none (.call (.add 1 10))) trivial).step
      (.index index none (.call (.add 1 20))) trivial
    have hfaulty := hadded.step
      (.faults ((FaultPlan.healthy.arm .delete 1 1).arm .rollback 0 1)) trivial
    exact ⟨index, _, hfaulty, by decide +kernel⟩
  cases houtcome : ((index.operate none (.call (.removeAll 1))).run db).1 with
  | ok report =>
    rw [houtcome] at hfails
    cases hfails
  | error err =>
    exact ⟨index, db, err, runs, houtcome,
      (runs.all_or_nothing index none (.call (.removeAll 1))).1 rfl err houtcome⟩

end SecondaryIndex
