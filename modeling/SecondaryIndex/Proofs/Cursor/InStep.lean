import SecondaryIndex.Proofs.Cursor.Run
import SecondaryIndex.Proofs.Parallel.Program

/-!
# Cursors in step

Two cursors that walk in two databases are in step (`Cursor.InStep`) if a step forward has the same outcome for both
and leaves them related, with related databases, and if their releases do. Whatever takes one step forward
after the other is in step then: to collect the items, to count them (`InStep.collect`, `InStep.count`), to
iterate over them as far as one likes (`InStep.items_next`) and to the end (`InStep.items`).
-/

namespace SecondaryIndex

namespace Cursor

open Program

variable {α β γ γ' : Type}

/-- What was run over two databases has the same outcome, and leaves what was moved and the databases related. -/
structure Accords (alike : γ → γ' → Prop) (R : Database → Database → Prop) (r : (β × γ) × Database)
    (r' : (β × γ') × Database) : Prop where
  outcome : r'.1.1 = r.1.1
  moved : alike r.1.2 r'.1.2
  databases : R r.2 r'.2

/-- Related cursors over related databases stay so, and answer the same on the way. -/
structure InStep (C : Cursor α → Cursor α → Prop) (R : Database → Database → Prop) : Prop where
  keys : ∀ {cursor cursor'}, C cursor cursor' → cursor'.iterator.keys = cursor.iterator.keys
  next : ∀ {cursor cursor' db db'}, C cursor cursor' → R db db' →
    Accords C R ((next.run.run cursor).run db) ((next.run.run cursor').run db')
  closed : ∀ {cursor cursor'}, C cursor cursor' →
    C { cursor with position := .closed } { cursor' with position := .closed }
  released : ∀ {cursor cursor' db db'}, C cursor cursor' → R db db' → R (cursor.release db) (cursor'.release db')
  scanned : ∀ {cursor cursor' db db'} (n : Nat), C cursor cursor' → R db db' →
    R (db.observe cursor.metrics (Counters.countScan n)) (db'.observe cursor'.metrics (Counters.countScan n))

namespace InStep

variable {C : Cursor α → Cursor α → Prop} {R : Database → Database → Prop} (h : InStep C R)
  {cursor cursor' : Cursor α} {db db' : Database}

include h

/-- Two cursors are drained in step as long as their steps are. -/
theorem drain (steps : Nat) (hcursors : C cursor cursor') (hdb : R db db') :
    Accords C R (((Cursor.drain steps).run cursor).run db) (((Cursor.drain steps).run cursor').run db') := by
  -- by induction on the steps, each from where the last one has landed on both sides
  induction steps generalizing cursor cursor' db db' with
  | zero => exact ⟨rfl, hcursors, hdb⟩
  | succ steps ih =>
    have hnext := h.next hcursors hdb
    rw [run_drain_succ, run_drain_succ]
    rcases hrun : (Cursor.next.run.run cursor).run db with ⟨⟨outcome, after⟩, db₁⟩
    rcases hrun' : (Cursor.next.run.run cursor').run db' with ⟨⟨outcome', after'⟩, db₁'⟩
    rw [hrun, hrun'] at hnext
    obtain ⟨rfl, hafter, hdb₁⟩ := hnext
    rcases outcome' with err | _ | item
    · exact ⟨rfl, hafter, hdb₁⟩
    · exact ⟨rfl, hafter, hdb₁⟩
    · obtain ⟨houtcome, hmoved, hdatabases⟩ := ih hafter hdb₁
      refine ⟨?_, hmoved, hdatabases⟩
      dsimp only
      rw [houtcome]

/-- The items of two cursors in step are collected in step. -/
theorem collect (hcursors : C cursor cursor') : Tracks R Eq cursor.collect cursor'.collect := by
  intro db db' hdb
  rw [run_collect, run_collect, h.keys hcursors]
  obtain ⟨houtcome, hmoved, hdatabases⟩ := h.drain (cursor.iterator.keys.length + 1) hcursors hdb
  dsimp only [Cursor.released]
  rw [houtcome]
  refine ⟨.of_eq rfl, h.released hmoved ?_⟩
  split
  · exact h.scanned _ hmoved hdatabases
  · exact hdatabases

/-- The items of two cursors in step are counted in step. -/
theorem count (hcursors : C cursor cursor') : Tracks R Eq cursor.count cursor'.count := by
  rw [count_eq, count_eq]
  exact .map (h.collect hcursors) fun _ _ hitems => congrArg List.length hitems

omit h in
/-- Iterations over related cursors. -/
structure Iterations (C : Cursor α → Cursor α → Prop) (iteration iteration' : CursorItems α) : Prop where
  cursors : C iteration.cursor iteration'.cursor
  done : iteration'.done = iteration.done

/-- Steps of two iterations are in step. -/
theorem items_next {iteration iteration' : CursorItems α} (hiterations : Iterations C iteration iteration')
    (hdb : R db db') :
    Accords (Iterations C) R ((CursorItems.next.run iteration).run db)
      ((CursorItems.next.run iteration').run db') := by
  rw [run_items_next, run_items_next, hiterations.done]
  split
  · exact ⟨rfl, hiterations, hdb⟩
  · have hnext := h.next hiterations.cursors hdb
    rcases hrun : (Cursor.next.run.run iteration.cursor).run db with ⟨⟨outcome, after⟩, db₁⟩
    rcases hrun' : (Cursor.next.run.run iteration'.cursor).run db' with ⟨⟨outcome', after'⟩, db₁'⟩
    rw [hrun, hrun'] at hnext
    obtain ⟨rfl, hafter, hdb₁⟩ := hnext
    rcases outcome' with err | _ | item
    · exact ⟨rfl, ⟨h.closed hafter, rfl⟩, h.released hafter hdb₁⟩
    · exact ⟨rfl, ⟨h.closed hafter, rfl⟩, h.released hafter hdb₁⟩
    · exact ⟨rfl, ⟨hafter, rfl⟩, hdb₁⟩

/-- Any number of items is taken in step from two iterations in step. -/
theorem items_collect (steps : Nat) {iteration iteration' : CursorItems α}
    (hiterations : Iterations C iteration iteration') (hdb : R db db') :
    Accords (Iterations C) R (((CursorItems.collect steps).run iteration).run db)
      (((CursorItems.collect steps).run iteration').run db') := by
  induction steps generalizing iteration iteration' db db' with
  | zero => exact ⟨rfl, hiterations, hdb⟩
  | succ steps ih =>
    have hnext := h.items_next hiterations hdb
    rw [run_items_collect_succ, run_items_collect_succ]
    rcases hrun : (CursorItems.next.run iteration).run db with ⟨⟨outcome?, after⟩, db₁⟩
    rcases hrun' : (CursorItems.next.run iteration').run db' with ⟨⟨outcome?', after'⟩, db₁'⟩
    rw [hrun, hrun'] at hnext
    obtain ⟨rfl, hafter, hdb₁⟩ := hnext
    rcases outcome?' with _ | outcome
    · exact ⟨rfl, hafter, hdb₁⟩
    · obtain ⟨houtcomes, hmoved, hdatabases⟩ := ih hafter hdb₁
      refine ⟨?_, hmoved, hdatabases⟩
      dsimp only
      rw [houtcomes]

/-- A whole iteration cannot fail, since its errors are items. -/
theorem items (hcursors : C cursor cursor') (hdb : R db db') :
    (cursor'.items.run db').1 = (cursor.items.run db).1 ∧ R (cursor.items.run db).2 (cursor'.items.run db').2 := by
  have hstart : Iterations C { cursor } { cursor := cursor' } := ⟨hcursors, rfl⟩
  obtain ⟨houtcomes, hiterations, hdb₁⟩ := h.items_collect (cursor.iterator.keys.length + 2) hstart hdb
  obtain ⟨hmore, hlast, hdb₂⟩ := h.items_next hiterations hdb₁
  rw [run_items, run_items, h.keys hcursors]
  dsimp only
  rw [houtcomes, hmore]
  exact ⟨rfl, h.released hlast.cursors hdb₂⟩

end InStep

end Cursor

end SecondaryIndex
