import SecondaryIndex.Proofs.Cursor.Simulation
import SecondaryIndex.Proofs.Index.History
import SecondaryIndex.Proofs.Index.Operations

/-!
# Runs of a database

An `Action` is anything that can be done to a database: a call on its store, an operation on some index in
some context, a call on a cursor, the end of one, new counters, or another choice of the faults to come.
`Database.Runs permits start db` is a run of actions that are permitted. Whatever is done, an engine that
keeps its books goes on to keep them (`Runs.sound`).

A cursor is served along such a run. `Cursor.Serves` lists the calls on a cursor with their answers,
between which anything may be done to the database that the cursor was opened in. Since the cursor does not
notice, it answers as its course says (`Follows.walks`).
-/

namespace SecondaryIndex

/-- Anything that can be done to a database. -/
inductive Action : Type 1
  | store (call : StoreCall)
  | index {K V : Type} (index : AnyIndex K V) (ctx : Context) (operation : IndexOperation K V)
  | cursor {α : Type} (cursor : Cursor α) (call : CursorCall α)
  /-- A cursor is drained, and its items are collected. -/
  | collect {α : Type} (cursor : Cursor α)
  /-- A cursor is drained item by item. -/
  | items {α : Type} (cursor : Cursor α)
  /-- A cursor is given up. -/
  | release {α : Type} (cursor : Cursor α)
  | installMetrics
  | faults (faults : FaultPlan)

namespace Action

/-- Does it. -/
def run (db : Database) : Action → Database
  | store call => { db with engine := ((Engine.perform call).run db.engine).2 }
  | index asked ctx operation => ((asked.operate ctx operation).run db).2
  | cursor walked call => (((Cursor.perform call).run.run walked).run db).2
  | collect walked => (walked.collect.run db).2
  | items walked => (walked.items.run db).2
  | release walked => walked.release db
  | installMetrics => db.installMetrics.2
  | faults plan => { db with engine := { db.engine with faults := plan } }

/-- The namespaces that are written to, if any are. -/
def targets : Action → List Namespace
  | store call => call.target?.toList
  | index asked _ _ => asked.namespaces
  | _ => []

/-- An action is a call on the store, an operation on an index, a choice of the faults to come, or
something that no transaction notices. -/
theorem idles (action : Action) (db : Database) :
    (∃ call, action = .store call) ∨
      (∃ (K V : Type) (asked : AnyIndex K V) (ctx : Context) (operation : IndexOperation K V),
        action = .index asked ctx operation) ∨
      (∃ plan, action = .faults plan) ∨ db.engine.Idles (action.run db).engine := by
  cases action with
  | store call => exact .inl ⟨call, rfl⟩
  | index asked ctx operation => exact .inr (.inl ⟨_, _, asked, ctx, operation, rfl⟩)
  | faults plan => exact .inr (.inr (.inl ⟨plan, rfl⟩))
  | cursor walked call => exact .inr (.inr (.inr (walked.perform_idles db call)))
  | collect walked => exact .inr (.inr (.inr (walked.collect_idle db)))
  | items walked => exact .inr (.inr (.inr (walked.items_idles db)))
  | release walked => exact .inr (.inr (.inr (walked.release_idles db)))
  | installMetrics => exact .inr (.inr (.inr (.refl _)))

end Action

/-- Runs of actions of which each is permitted. -/
inductive Database.Runs (permits : Action → Prop) (start : Database) : Database → Prop
  | refl : Runs permits start start
  | step {db : Database} (runs : Runs permits start db) (action : Action) (permitted : permits action) :
    Runs permits start (action.run db)

namespace Database.Runs

variable {permits : Action → Prop} {start db : Database} {options : StoreOptions}

theorem sound (h : Runs permits start db) (hstart : start.engine.Sound) : db.engine.Sound := by
  induction h with
  | refl => exact hstart
  | @step db runs action permitted ih =>
    rcases action.idles db with ⟨call, rfl⟩ | ⟨K, V, asked, ctx, operation, rfl⟩ | ⟨plan, rfl⟩ | hidles
    · exact ih.move (Engine.moves_perform db.engine call)
    · exact (asked.operate_atomic ctx operation db ih).persists.sound ih
    · exact ih.withFaults plan
    · exact hidles.steady.sound ih

end Database.Runs

/-! ### Cursors along a run -/

namespace Cursor

variable {α : Type} {opened cursor : Cursor α} {start db : Database} {log : CursorLog α}

/-- The calls on a cursor that was opened in a database, newest first, and what became of the two. When
a call is made the iterator is healthy; between calls anything may be done to the database. -/
inductive Serves (opened : Cursor α) (start : Database) : CursorLog α → Cursor α → Database → Prop
  | refl : Serves opened start [] opened start
  | call {log : CursorLog α} {cursor : Cursor α} {db : Database}
    (serves : Serves opened start log cursor db) (healthy : db.engine.fails .status = false)
    (call : CursorCall α) :
    Serves opened start ((call, (((perform call).run.run cursor).run db).1.1) :: log)
      (((perform call).run.run cursor).run db).1.2 (((perform call).run.run cursor).run db).2
  | meanwhile {log : CursorLog α} {cursor : Cursor α} {db : Database}
    (serves : Serves opened start log cursor db) (action : Action) :
    Serves opened start log cursor (action.run db)

/-- A cursor that was opened in a database answers as a cursor over a list, whatever is called and
whatever is done in between. -/
def Walks (opened : Cursor α) (start : Database) (course : Course α) : Prop :=
  ∀ {log : CursorLog α} {cursor : Cursor α} {db : Database}, Serves opened start log cursor db →
    log = (course.run (log.map Prod.fst)).1

variable {course : Course α} {number : Nat → Nat}

/-- Along a run a cursor stands where its course says. -/
theorem Serves.stands (h : Serves opened start log cursor db) (hf : Follows opened course number) :
    log = (course.run (log.map Prod.fst)).1 ∧
      Stands opened course.items number (course.run (log.map Prod.fst)).2 cursor := by
  induction h with
  | refl => exact ⟨rfl, .start hf⟩
  | @call log cursor db serves healthy call ih =>
    obtain ⟨hlog, hstands⟩ := ih
    obtain ⟨hanswer, hstands'⟩ := hstands.respond hf call
    rw [run_perform cursor db healthy call]
    refine ⟨?_, hstands'⟩
    calc (call, (cursor.respond call).1) :: log
        = (call, (course.answer (course.run (log.map Prod.fst)).2 call).1) ::
            (course.run (log.map Prod.fst)).1 := by rw [hanswer, ← hlog]
      _ = (course.run (call :: log.map Prod.fst)).1 := rfl
  -- the cursor is a value of its own, and nothing that is done to the database changes it
  | meanwhile serves action ih => exact ih

theorem Follows.walks (hf : Follows opened course number) : opened.Walks start course :=
  fun hserves => (hserves.stands hf).1

end Cursor

end SecondaryIndex
