import SecondaryIndex.Index.AnyIndex
import SecondaryIndex.Proofs.Parallel.Cursor

/-!
# Queries side by side

The queries of an index are in step in the same context. A query that opens a cursor gives the same
cursor up to its counters, and a count that was only asked for (`Comparison.CountsAlike`) is in step
when it is computed, whenever that is; one that is an estimate is the same if sizes are.
-/

namespace SecondaryIndex

namespace Comparison

open Program IndexM

variable (c : Comparison) {α K V : Type}

section Index

variable (index : Index K V) {m : Option MetricsId} (hm : c.Counts index.options.metrics m)
  (ctx : Context) (key : K) (range : Range)

/-- What is looked up in an iterator that is healthy. -/
theorem tracks_look (look : RawIterator → α) :
    Tracks c.Databases Eq
      (within ctx fun id => withIterator id index.ns range fun it => do
        ofEngine Engine.status
        pure (look it))
      (within (ctx.map c.rename) fun id => withIterator id index.ns range fun it => do
        ofEngine Engine.status
        pure (look it)) :=
  c.tracks_within ctx fun id => c.tracks_withIterator id index.ns range fun _ =>
    .bind c.tracks_status fun _ _ _ => .pure rfl

/-- The first value of a key is found on both sides, or is missing on both. -/
theorem tracks_findFirst :
    Tracks c.Databases Eq (index.findFirst ctx key)
      ((index.counting m).findFirst (ctx.map c.rename) key) := by
  refine .bind (c.tracks_keyRange index key) ?_
  rintro range _ rfl
  refine .bind (c.tracks_look index ctx range fun it => it.seekFirst.key?) ?_
  rintro (_ | physical) _ rfl
  · exact .throw _
  · exact c.tracks_ofEncoding _

/-- An iterator that outlives its query is opened in the same context on both sides. -/
theorem tracks_index_openIterator :
    Tracks c.Databases Eq (index.openIterator ctx range)
      ((index.counting m).openIterator (ctx.map c.rename) range) :=
  c.tracks_transactionally ctx
    (fun id => c.tracks_ofEngine (c.tracks_openIterator id index.ns range))
    fun _ _ _ => c.tracks_releaseIterator

include hm

/-- A cursor is the same up to the metrics under which its steps are counted. -/
theorem tracks_openCursor (decode : Bytes → Except EncodingError α) (seeking : Seeking α)
    (stride : Stride) :
    Tracks c.Databases c.Cursors (index.openCursor ctx range decode seeking stride)
      ((index.counting m).openCursor (ctx.map c.rename) range decode seeking stride) := by
  refine .bind (c.tracks_index_openIterator index ctx range) ?_
  rintro iterator _ rfl
  refine .bind (c.tracks_observe hm _) fun _ _ _ => .pure ?_
  exact .of_counts
    { iterator, decode, seeking, stride, metrics := index.options.metrics } hm

/-- The cursor over the values of a key. -/
theorem tracks_find :
    Tracks c.Databases c.Cursors (index.find ctx key)
      ((index.counting m).find (ctx.map c.rename) key) := by
  refine .bind (c.tracks_keyRange index key) ?_
  rintro range _ rfl
  exact c.tracks_openCursor index hm ctx range _ _ _

/-- The cursor over the keys, for either way of going on from one to the next. -/
theorem tracks_cursorOverKeys (stride : Stride) :
    Tracks c.Databases c.Cursors (index.cursorOverKeys ctx stride)
      ((index.counting m).cursorOverKeys (ctx.map c.rename) stride) :=
  c.tracks_openCursor index hm ctx _ _ _ _

theorem tracks_scanValues :
    Tracks c.Databases c.Cursors (index.scanValues ctx)
      ((index.counting m).scanValues (ctx.map c.rename)) :=
  c.tracks_openCursor index hm ctx _ _ _ _

omit hm in
/-- Counting is opening a cursor and draining it. -/
theorem tracks_counting {x x' : IndexM (Cursor α)} (h : Tracks c.Databases c.Cursors x x') :
    Tracks c.Databases Eq (do (← x).count) (do (← x').count) :=
  .bind h fun _ _ hcursors => c.inStep_cursors.count hcursors

/-- The entries are counted in the context that was given, not later. -/
theorem tracks_count :
    Tracks c.Databases Eq (index.count ctx) ((index.counting m).count (ctx.map c.rename)) :=
  c.tracks_counting (c.tracks_cursorOverKeys index hm ctx .entry)

/-- Counting the values of a key is tracked. -/
theorem tracks_countKey :
    Tracks c.Databases Eq (index.countKey ctx key)
      ((index.counting m).countKey (ctx.map c.rename) key) :=
  c.tracks_counting (c.tracks_find index hm ctx key)

end Index

/-! ### Statistics -/

/-- Counts that are computed alike, unless they are estimated from too large a size. -/
structure CountsAlike (count count' : Count) : Prop where
  isEstimate : count'.isEstimate = count.isEstimate
  value : TracksUnless c.IndexStops c.Databases (fun n n' => (count.isEstimate = true → c.sizes) → n = n')
    count.value count'.value

/-- Statistics of the same index in the same context. -/
structure StatisticsAlike (stats stats' : Statistics K V) : Prop where
  ctx : stats'.ctx = stats.ctx.map c.rename
  forward : ∃ m, stats'.forward = stats.forward.counting m ∧ c.Counts stats.forward.options.metrics m
  reverse : (stats.reverse? = none ∧ stats'.reverse? = none) ∨
    ∃ reverse m, stats.reverse? = some reverse ∧ stats'.reverse? = some (reverse.counting m) ∧
      c.Counts reverse.options.metrics m

variable {c} {value value' estimate estimate' : IndexM Nat} (budget : Budget) (estimateOk : Bool)

/-- An exact count is in step if what computes it is. -/
theorem countsAlike_exact (h : Tracks c.Databases Eq value value') :
    c.CountsAlike (.exact value) (.exact value') :=
  ⟨rfl, .of_tracks (h.mono fun _ _ heq _ => heq)⟩

/-- A count that needs a scan is refused on both sides by the same budget. -/
theorem rel_scanning (h : Tracks c.Databases Eq value value') :
    Option.Rel c.CountsAlike (Statistics.scanning budget value)
      (Statistics.scanning budget value') := by
  unfold Statistics.scanning
  split
  · exact .some (countsAlike_exact h)
  · exact .none

/-- A count that may be an estimate is an estimate on both sides or on neither. -/
theorem rel_estimable (h : Tracks c.Databases Eq value value')
    (hestimate : TracksUnless c.IndexStops c.Databases c.Near estimate estimate') :
    Option.Rel c.CountsAlike (Statistics.estimable budget estimateOk value estimate)
      (Statistics.estimable budget estimateOk value' estimate') := by
  unfold Statistics.estimable
  -- whether it is counted or estimated is up to the budget
  split
  · exact .some (countsAlike_exact h)
  · split
    · exact .some ⟨rfl, hestimate.mono fun _ _ hnear hs => hnear (hs rfl)⟩
    · exact .none

namespace StatisticsAlike

variable {stats stats' : Statistics K V} (h : c.StatisticsAlike stats stats')

include h

/-- The number of entries. -/
theorem rel_entries :
    Option.Rel c.CountsAlike (stats.entries budget estimateOk) (stats'.entries budget estimateOk) := by
  obtain ⟨m, hforward, hm⟩ := h.forward
  unfold Statistics.entries
  rw [h.ctx, hforward]
  exact rel_estimable budget estimateOk (c.tracks_count _ hm _) (c.tracks_estimateSize _ hm)

/-- The number of keys. -/
theorem rel_keys :
    Option.Rel c.CountsAlike (stats.keys budget estimateOk) (stats'.keys budget estimateOk) := by
  obtain ⟨m, hforward, hm⟩ := h.forward
  unfold Statistics.keys
  rw [h.ctx, hforward]
  exact rel_scanning budget (c.tracks_counting (c.tracks_cursorOverKeys _ hm _ _))

/-- The number of values of a key. -/
theorem rel_valuesOfKey (key : K) :
    Option.Rel c.CountsAlike (stats.valuesOfKey key budget estimateOk)
      (stats'.valuesOfKey key budget estimateOk) := by
  obtain ⟨m, hforward, hm⟩ := h.forward
  unfold Statistics.valuesOfKey
  rw [h.ctx, hforward]
  exact rel_estimable budget estimateOk (c.tracks_countKey _ hm _ key) (c.tracks_estimateKey _ hm key)

theorem rel_values :
    Option.Rel c.CountsAlike (stats.values budget estimateOk) (stats'.values budget estimateOk) := by
  obtain ⟨m, hforward, hm⟩ := h.forward
  unfold Statistics.values
  rw [h.ctx, hforward]
  exact rel_scanning budget (c.tracks_counting (c.tracks_scanValues _ hm _))

/-- The number of keys that have a value, which takes a reverse half on both sides. -/
theorem rel_keysWithValue (value : V) :
    Option.Rel c.CountsAlike (stats.keysWithValue value budget estimateOk)
      (stats'.keysWithValue value budget estimateOk) := by
  unfold Statistics.keysWithValue
  split
  · rcases h.reverse with ⟨hnone, hnone'⟩ | ⟨reverse, m, hsome, hsome', hm⟩
    · rw [hnone, hnone']
      exact .none
    · rw [hsome, hsome', h.ctx]
      exact .some (countsAlike_exact (c.tracks_counting (c.tracks_find reverse hm _ value)))
  · exact .none

end StatisticsAlike

/-- Indexes that are alike have statistics that are alike, in corresponding contexts. -/
theorem Indexes.statisticsAlike {index index' : AnyIndex K V} (h : c.Indexes index index')
    (ctx : Context) :
    c.StatisticsAlike (index.statistics ctx) (index'.statistics (ctx.map c.rename)) :=
  ⟨rfl, h.exists_forward, h.reverse_cases⟩

end Comparison

end SecondaryIndex
