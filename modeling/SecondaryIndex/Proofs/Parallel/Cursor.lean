import SecondaryIndex.Proofs.Cursor.Calls
import SecondaryIndex.Proofs.Cursor.InStep
import SecondaryIndex.Proofs.Parallel.Index

/-!
# Cursors side by side

A cursor depends on the database it walks in by one thing only, the health of its iterator, and it
leaves its mark there by two: it draws fates, and it is released. So cursors that are the same up to
their counters (`Comparison.Cursors`) answer alike over alike databases, step by step and when they
are used up. `Comparison.InStep` is this for a program of a cursor.
-/

namespace SecondaryIndex

/-- A cursor that counts into other counters, or into none. -/
def Cursor.counting {α : Type} (cursor : Cursor α) (m : Option MetricsId) : Cursor α :=
  { cursor with metrics := m }

namespace Comparison

open Program

variable (c : Comparison) {α β : Type}

/-- The same cursor, up to its counters. -/
inductive Cursors : Cursor α → Cursor α → Prop
  | intro {cursor : Cursor α} {m : Option MetricsId} (counts : c.Counts cursor.metrics m) :
    Cursors cursor (cursor.counting m)

variable {c} in
theorem Cursors.of_counts (cursor : Cursor α) {m : Option MetricsId}
    (counts : c.Counts cursor.metrics m) : c.Cursors cursor (cursor.counting m) := ⟨counts⟩

variable {c} in
/-- The counters of the same cursor in two runs are those that correspond to one another. -/
theorem Cursors.counts {cursor cursor' : Cursor α} (h : c.Cursors cursor cursor') :
    c.Counts cursor.metrics cursor'.metrics := by
  obtain ⟨counts⟩ := h
  exact counts

/-- A program is in step with itself, on the same cursor over alike databases. -/
def InStep (program : CursorM α β) : Prop :=
  ∀ ⦃cursor cursor' : Cursor α⦄ ⦃db db' : Database⦄, c.Cursors cursor cursor' →
    c.Databases db db' →
    Cursor.Accords c.Cursors c.Databases ((program.run.run cursor).run db) ((program.run.run cursor').run db')

variable {c}

/-- To draw the fate of a call keeps databases alike. -/
theorem Databases.drawn {db db' : Database} (h : c.Databases db db') (call : EngineCall) :
    c.Databases { db with engine := db.engine.drawn call }
      { db' with engine := db'.engine.drawn call } :=
  ⟨c.drawn h.engines call, h.metrics⟩

variable (c)

/-! ### Steps -/

/-- Moves that do not depend on the counters lead the same cursor to the same item, or to the same error. -/
theorem inStep_arrive (move : Cursor α → Except IndexError Move) (edge : Position)
    (hmove : ∀ (cursor : Cursor α) m, move (cursor.counting m) = move cursor)
    {cursor cursor' : Cursor α} {db db' : Database} (h : c.Cursors cursor cursor')
    (hdb : c.Databases db db') :
    Cursor.Accords c.Cursors c.Databases (((Cursor.arrive (move cursor) edge).run.run cursor).run db)
      (((Cursor.arrive (move cursor') edge).run.run cursor').run db') := by
  obtain ⟨counts⟩ := h
  rw [hmove, Cursor.run_arrive, Cursor.run_arrive]
  rcases move cursor with err | _ | it
  · exact ⟨rfl, ⟨counts⟩, hdb⟩
  · exact ⟨rfl, .of_counts { cursor with position := edge } counts, hdb⟩
  · dsimp only
    rw [c.fails_eq hdb.engines]
    split
    · exact ⟨rfl, .of_counts { cursor with iterator := it } counts, hdb.drawn .status⟩
    · -- where the cursor lands is told by the iterator
      unfold Cursor.landed
      cases it.key? with
      | none =>
        exact ⟨rfl, .of_counts { cursor with iterator := it, position := edge } counts,
          hdb.drawn .status⟩
      | some physical =>
        exact ⟨rfl, .of_counts { cursor with iterator := it, position := .resting } counts,
          hdb.drawn .status⟩

/-- A step forward is in step with itself. -/
theorem inStep_next : c.InStep (Cursor.next (α := α)) :=
  fun _ _ _ _ => c.inStep_arrive Cursor.forward .pastEnd fun _ _ => rfl

theorem inStep_prev : c.InStep (Cursor.prev (α := α)) :=
  fun _ _ _ _ => c.inStep_arrive Cursor.backward .beforeStart fun _ _ => rfl

/-- The item that a cursor rests on does not depend on its counters. -/
theorem inStep_current : c.InStep (Cursor.current (α := α)) := by
  rintro _ _ db db' ⟨counts⟩ hdb
  rw [Cursor.run_current, Cursor.run_current]
  exact ⟨rfl, ⟨counts⟩, hdb⟩

/-- Seeking is in step with itself, whether the item can be encoded or not. -/
theorem inStep_seek (item : α) : c.InStep (Cursor.seek item) := by
  rintro cursor _ db db' ⟨counts⟩ hdb
  rename_i m
  have htarget : (cursor.counting m).target item = cursor.target item := rfl
  rw [Cursor.run_seek, Cursor.run_seek, htarget, c.fails_eq hdb.engines]
  rcases cursor.target item with err | ⟨goal, group⟩
  · exact ⟨rfl, ⟨counts⟩, hdb⟩
  · dsimp only
    split
    · exact ⟨rfl, .of_counts { cursor with iterator := cursor.iterator.seek goal } counts,
        hdb.drawn .status⟩
    · unfold Cursor.soughtAt
      have hiterator : (cursor.counting m).iterator.seek goal = cursor.iterator.seek goal := rfl
      rw [hiterator]
      cases (cursor.iterator.seek goal).key? with
      | none =>
        exact ⟨rfl, .of_counts
          { cursor with iterator := cursor.iterator.seek goal, position := .pastEnd } counts,
          hdb.drawn .status⟩
      | some physical =>
        exact ⟨rfl, .of_counts
          { cursor with iterator := cursor.iterator.seek goal, position := .resting } counts,
          hdb.drawn .status⟩

/-- To release a cursor is counted in both databases, each by the counters of its own cursor. -/
theorem databases_release {cursor cursor' : Cursor α} {db db' : Database}
    (h : c.Cursors cursor cursor') (hdb : c.Databases db db') :
    c.Databases (cursor.release db) (cursor'.release db') := by
  obtain ⟨counts⟩ := h
  rename_i m
  unfold Cursor.release
  have hclosed : (cursor.counting m).isClosed = cursor.isClosed := rfl
  rw [hclosed]
  split
  · exact hdb
  · exact (hdb.mapEngine (c.released hdb.engines)).observe counts _

/-- To close a cursor releases it in both databases, or in neither. -/
theorem inStep_close : c.InStep (Cursor.close (α := α)) := by
  rintro cursor _ db db' ⟨counts⟩ hdb
  exact ⟨rfl, .of_counts { cursor with position := .closed } counts,
    c.databases_release ⟨counts⟩ hdb⟩

variable {c} in
/-- To rename what a program on a cursor gives keeps it in step. -/
theorem InStep.map {γ : Type} {program : CursorM α β} (h : c.InStep program) (f : β → γ) :
    c.InStep (f <$> program) := by
  intro cursor cursor' db db' hcursors hdb
  rw [Cursor.run_map, Cursor.run_map]
  obtain ⟨houtcome, hcursors, hdb⟩ := h hcursors hdb
  exact ⟨congrArg (Except.map f) houtcome, hcursors, hdb⟩

/-! ### Using cursors up -/

/-- Alike cursors are in step, and so is whatever uses them up. -/
theorem inStep_cursors : Cursor.InStep (c.Cursors (α := α)) c.Databases where
  keys h := by
    obtain ⟨counts⟩ := h
    rfl
  next h hdb := c.inStep_next h hdb
  closed {cursor _} h := by
    obtain ⟨counts⟩ := h
    exact .of_counts { cursor with position := .closed } counts
  released := c.databases_release
  scanned _ h hdb := hdb.observe h.counts _

/-- Iterating cannot fail, since its errors are items. -/
theorem tracks_items {cursor cursor' : Cursor α} (h : c.Cursors cursor cursor') :
    Tracks c.Databases Eq (ExceptT.lift cursor.items : IndexM _) (ExceptT.lift cursor'.items) := by
  intro db db' hdb
  have hlift (cursor : Cursor α) (db : Database) : (ExceptT.lift cursor.items : IndexM _).run db =
      (.ok (cursor.items.run db).1, (cursor.items.run db).2) := rfl
  obtain ⟨houtcomes, hdatabases⟩ := c.inStep_cursors.items h hdb
  rw [hlift, hlift, houtcomes]
  exact ⟨.ok rfl, hdatabases⟩

end Comparison

end SecondaryIndex
