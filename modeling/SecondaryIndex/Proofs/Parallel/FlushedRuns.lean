import SecondaryIndex.Proofs.Parallel.Alone
import SecondaryIndex.Proofs.Parallel.Flush
import SecondaryIndex.Proofs.Session.Sizes

/-!
# Runs with flushes and without

Two runs that have the same steps apart from flushes stay alike (`Sessions.replies_flushing`), whatever the
options of the two stores are: a flush changes one of the two sessions and leaves them alike, and any other step is
carried out in both. So they are answered alike, as long as neither of them is broken off by a size that is too large,
and it takes a step that asks for sizes to break them off (`Session.flush_invisible`). A store by itself is alike to
itself, so its memtables are never full (`Session.coincides_after`).
-/

namespace SecondaryIndex

open Session

/-- Whether a step flushes one namespace or all. -/
def Session.Step.isFlush : Step → Bool
  | .store (.flush _) => true
  | .store .flushAll => true
  | _ => false

namespace Comparison

variable {options options' : StoreOptions} {s s' : Session}

theorem Sessions.ofOptions (options options' : StoreOptions) :
    (flushing options options').Sessions [] (Session.ofOptions options)
      (Session.ofOptions options') := by
  have hempty (options : StoreOptions) (holding : Holding) :
      (Session.ofOptions options).meaning holding = none := by
    obtain ⟨kind, handle⟩ := holding
    cases kind <;> rfl
  refine ⟨⟨⟨Store.coincides_ofOptions options options', rfl, rfl, rfl⟩, fun _ => rfl⟩,
    fun holding _ => ?_, nofun, nofun, fun h => absurd rfl h, nofun⟩
  rw [hempty, hempty]
  exact .none

/-- A flush of the first session goes unnoticed. -/
theorem Sessions.flush_left (hs : (flushing options options').Sessions [] s s') {step : Step}
    (hflush : step.isFlush = true) :
    (flushing options options').Sessions [] ((Session.perform step).run s).2 s' := by
  have hleft {store : Store}
      (hstores : store.Coincides options options' s'.database.engine.store) :
      (flushing options options').Sessions []
        { s with database := { s.database with engine := { s.database.engine with store } } } s' :=
    hs.withDatabase ⟨hs.database.engines.withStores hstores, hs.database.metrics⟩
  unfold Step.isFlush at hflush
  split at hflush
  · next ns =>
    show (flushing options options').Sessions [] ((performStore (.flush ns)).run s).2 s'
    rw [run_flush]
    cases hstore : s.database.engine.store.flush ns with
    | error err => exact hs
    | ok store => exact hleft (hs.database.engines.stores.flush_left hstore)
  · exact hleft hs.database.engines.stores.flushAll_left
  · cases hflush

/-- A flush of the second session leaves it coinciding with the first. -/
theorem Sessions.flush_right (hs : (flushing options options').Sessions [] s s') {step : Step}
    (hflush : step.isFlush = true) :
    (flushing options options').Sessions [] s ((Session.perform step).run s').2 := by
  have hright {store : Store}
      (hstores : store.Coincides options' options s.database.engine.store) :
      (flushing options options').Sessions [] s
        { s' with database := { s'.database with engine := { s'.database.engine with store } } } :=
    hs.withDatabase ⟨hs.database.engines.withStores hstores.symm, hs.database.metrics⟩
  unfold Step.isFlush at hflush
  split at hflush
  · next ns =>
    show (flushing options options').Sessions [] s ((performStore (.flush ns)).run s').2
    rw [run_flush]
    cases hstore : s'.database.engine.store.flush ns with
    | error err => exact hs
    | ok store => exact hright (hs.database.engines.stores.symm.flush_left hstore)
  · exact hright hs.database.engines.stores.symm.flushAll_left
  · cases hflush

/-- Any step that both sessions carry out is answered alike. Faults are set in both of them. -/
theorem Sessions.perform_flushing (hs : (flushing options options').Sessions [] s s') {step : Step}
    (hgo : ((Session.perform step).run s).1.breaksOff = false)
    (hgo' : ((Session.perform step).run s').1.breaksOff = false) :
    (flushing options options').Replied [] step ((Session.perform step).run s) ((Session.perform step).run s') := by
  cases hfault : step.isFault with
  | false => exact hs.perform_goingOn (fun _ _ => List.not_mem_nil) hfault hgo hgo'
  | true =>
    unfold Step.isFault at hfault
    split at hfault
    · next call skip times =>
      have hengines := hs.database.engines
      refine ⟨.ok fun _ => Answers.of_eq rfl, rfl, hs.withDatabase ⟨⟨hengines.stores, hengines.transactions,
        hengines.nextTransaction, ?_⟩, hs.database.metrics⟩⟩
      exact congrArg (fun faults : FaultPlan => faults.arm call skip times) hengines.faults
    · cases hfault

/-- Runs with the same steps apart from flushes are answered alike, if neither is broken off. -/
theorem Sessions.replies_flushing (hs : (flushing options options').Sessions [] s s') {steps steps' : List Step}
    (h : steps.filter (!·.isFlush) = steps'.filter (!·.isFlush)) (hgo : s.GoesOn steps)
    (hgo' : s'.GoesOn steps') :
    (repliesTo (!·.isFlush) steps (s.carryOut steps).1).map Reply.withoutSizes =
      (repliesTo (!·.isFlush) steps' (s'.carryOut steps').1).map Reply.withoutSizes := by
  -- by induction on the steps of the first run, and between two of them on the flushes of the second
  induction steps generalizing s s' steps' with
  | nil =>
    induction steps' generalizing s' with
    | nil => rfl
    | cons step' steps' ih =>
      rw [List.filter_cons] at h
      rw [carryOut_cons, repliesTo_cons]
      cases hflush : step'.isFlush with
      | true =>
        rw [hflush] at h
        exact ih (hs.flush_right hflush) h (goesOn_cons_iff.1 hgo').2
      | false =>
        rw [hflush] at h
        cases h
  | cons step steps ih =>
    obtain ⟨hstep, hsteps⟩ := goesOn_cons_iff.1 hgo
    rw [carryOut_cons, repliesTo_cons]
    cases hflush : step.isFlush with
    | true =>
      rw [List.filter_cons, hflush] at h
      exact ih (hs.flush_left hflush) h hsteps hgo'
    | false =>
      rw [List.filter_cons, hflush] at h
      clear hgo
      induction steps' generalizing s' with
      | nil => cases h
      | cons step' steps' ih' =>
        obtain ⟨hstep', hsteps'⟩ := goesOn_cons_iff.1 hgo'
        rw [List.filter_cons] at h
        rw [carryOut_cons, repliesTo_cons]
        cases hflush' : step'.isFlush with
        | true =>
          rw [hflush'] at h
          exact ih' (hs.flush_right hflush') h hsteps'
        | false =>
          rw [hflush'] at h
          obtain ⟨rfl, hrest⟩ := List.cons.inj h
          have hreplied := hs.perform_flushing hstep hstep'
          rw [Bool.not_false, if_pos rfl, if_pos rfl, List.map_cons, List.map_cons,
            hreplied.withoutSizes_eq fun _ => trivial, ih hreplied.sessions hrest hsteps hsteps']

end Comparison

namespace Session

/-- In whatever state a run is, no memtable is full. -/
theorem coincides_after (options : StoreOptions) (steps : List Step) :
    (after options steps).database.engine.Coincides options options (after options steps).database.engine := by
  have hmaintains := (Comparison.flushing options options).maintains_self fun _ => rfl
  have hcarry (s : Session) (hs : s.database.engine.Coincides options options s.database.engine) :
      (s.carryOut steps).2.database.engine.Coincides options options
        (s.carryOut steps).2.database.engine := by
    induction steps generalizing s with
    | nil => exact hs
    | cons step steps ih =>
      rw [carryOut_cons]
      refine ih _ ?_
      cases hfault : step.isFault with
      | false => exact hmaintains.perform hs hfault
      | true =>
        unfold Step.isFault at hfault
        split at hfault
        · exact ⟨hs.stores, rfl, rfl, rfl⟩
        · cases hfault
  exact hcarry _ ⟨Store.coincides_ofOptions options options, rfl, rfl, rfl⟩

/-- Two runs with the same steps apart from flushes are answered alike in all but sizes, whatever their
options are, if neither of them is broken off by a size that is too large; this holds of every beginning of a
run as well, up to the step that breaks it off. Wherever a run has led, no step breaks it off but one that asks for
sizes. And with a positive capacity no memtable is ever full. -/
theorem flush_invisible {options options' : StoreOptions} {steps steps' : List Step}
    (h : steps.filter (!·.isFlush) = steps'.filter (!·.isFlush)) :
    (∀ replies replies', run options steps = some replies → run options' steps' = some replies' →
      (repliesTo (!·.isFlush) steps replies).map Reply.withoutSizes =
        (repliesTo (!·.isFlush) steps' replies').map Reply.withoutSizes) ∧
      (∀ step : Step, ((perform step).run (after options steps)).1.breaksOff = true → step.asksSizes = true) ∧
      (0 < options.memtableCapacity → ∀ ns table,
        (after options steps).database.engine.store.tables.get? ns = some table →
          table.memtable.size < options.memtableCapacity) := by
  refine ⟨fun replies replies' hrun hrun' => ?_, fun _ => asksSizes_of_breaksOff, ?_⟩
  · obtain ⟨hgo, rfl⟩ := run_eq_some_iff.1 hrun
    obtain ⟨hgo', rfl⟩ := run_eq_some_iff.1 hrun'
    exact (Comparison.Sessions.ofOptions options options').replies_flushing h hgo hgo'
  · have hstores := (coincides_after options steps).stores
    have hroomy := hstores.roomy
    unfold Store.Roomy at hroomy
    rw [hstores.options] at hroomy
    exact hroomy

/-- A record is flushed, removed and looked up, in a store that is flushed at each commit and in one that is
never flushed. -/
theorem flush_invisible_of_removal :
    ∃ steps steps' : List Step, steps.length = 11 ∧ steps'.length = 9 ∧
      steps.filter (!·.isFlush) = steps'.filter (!·.isFlush) ∧
      (∃ replies replies', run { memtableCapacity := 1 } steps = some replies ∧
        run { memtableCapacity := 0 } steps' = some replies' ∧ replies'.all (·.outcome.isOk) = true ∧
        (repliesTo (!·.isFlush) steps replies).map Reply.withoutSizes =
          (repliesTo (!·.isFlush) steps' replies').map Reply.withoutSizes) ∧
      ∀ ns table,
        (after { memtableCapacity := 1 } steps).database.engine.store.tables.get? ns = some table →
          table.memtable.size < 1 := by
  let writing : List Step := [.store (.createNamespace "records"), .store (.begin "t"),
    .store (.put "t" "records" [1] [2]), .store (.commit "t" false)]
  let removing : List Step := [.store (.begin "t"), .store (.delete "t" "records" [1]),
    .store (.commit "t" false)]
  let reading : List Step := [.store (.begin "t"), .store (.get "t" "records" [1])]
  have hsame : (writing ++ .store (.flush "records") :: removing ++ .store .flushAll :: reading).filter
      (!·.isFlush) = (writing ++ removing ++ reading).filter (!·.isFlush) := rfl
  obtain ⟨hreplies, -, hroomy⟩ :=
    @flush_invisible { memtableCapacity := 1 } { memtableCapacity := 0 } _ _ hsame
  obtain ⟨replies, hrun⟩ := Option.isSome_iff_exists.1 (show (run { memtableCapacity := 1 }
    (writing ++ .store (.flush "records") :: removing ++ .store .flushAll :: reading)).isSome = true by
      decide +kernel)
  obtain ⟨replies', hrun', hok⟩ := Option.map_eq_some_iff.1 (show (run { memtableCapacity := 0 }
    (writing ++ removing ++ reading)).map (·.all (·.outcome.isOk)) = some true by decide +kernel)
  exact ⟨_, _, rfl, rfl, hsame, ⟨replies, replies', hrun, hrun', hok, hreplies _ _ hrun hrun'⟩,
    hroomy (by decide)⟩

end Session

end SecondaryIndex
