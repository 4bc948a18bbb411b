import SecondaryIndex.Proofs.Parallel.Run

/-!
# A session by itself

A session compared with itself is alike, whatever it does. So what is kept by everything that a session may do to
its engine (`Engine.Maintains`) is kept by every step of a session, without another look at the programs of the
steps (`Engine.Maintains.perform`). Two kinds of invariants are kept in this way. What every move of an engine keeps
is kept, since each engine call is a move (`Engine.Upholds.maintains`); an engine that keeps its books, is healthy, and
gives out no number of a transaction again is an example (`Engine.Regular`). And what makes an engine alike to itself
in some comparison is kept, since the comparison is (`Comparison.maintains_self`).
-/

namespace SecondaryIndex

namespace Engine

variable {e e' : Engine} {n id : TransactionId} {tx : Transaction}

/-- The engine keeps its books, no faults are to come, and the numbers below `n` are given out. -/
structure Regular (n : TransactionId) (e : Engine) : Prop where
  sound : e.Sound
  healthy : e.faults = .healthy
  given : n ≤ e.nextTransaction

/-- No number is given out again. -/
theorem Moves.next_le {event? : Option (LedgerEvent Place Bytes)} (h : Moves e event? e') :
    e.nextTransaction ≤ e'.nextTransaction := by
  cases h with
  | begins healthy => exact Nat.le_succ _
  | drops id => exact (beside_discard e id).numbers
  | rearranges healthy alike => exact Nat.le_refl _
  | writes healthy written => exact Nat.le_refl _
  | commitsNothing healthy hopen nothing => exact Nat.le_refl _
  | commits healthy hopen something applied => exact Nat.le_refl _
  | closes healthy hopen => exact Nat.le_refl _

/-- No event makes a fault, or a transaction with a number that is not given out yet. -/
theorem Regular.move {event? : Option (LedgerEvent Place Bytes)} (h : e.Regular n)
    (hmove : Moves e event? e') : e'.Regular n :=
  ⟨h.sound.move hmove, hmove.persists.healthy h.healthy, Nat.le_trans h.given hmove.next_le⟩

/-- Without faults to come a commit is nothing but the end of its transaction. -/
theorem moves_committed (hhealthy : e.faults = .healthy) (hheld : e.held id = .ok tx) :
    ∃ event?, Moves e event? (e.ended id tx Transaction.commit) := by
  have hmove := moves_commit e id
  simp only [perform, Program.run_map, run_commit, fails_of_healthy e _ hhealthy,
    drawn_of_healthy e _ hhealthy, hheld, Bool.false_eq_true, if_false] at hmove
  exact ⟨_, hmove⟩

/-- A rollback is an event if its transaction is open, and none if it is finished. -/
theorem moves_rolledBack (hhealthy : e.faults = .healthy) (hheld : e.held id = .ok tx) :
    ∃ event?, Moves e event? (e.ended id tx Transaction.rollback) := by
  have hmove := moves_rollback e id
  simp only [perform, Program.run_map, run_rollback, fails_of_healthy e _ hhealthy,
    drawn_of_healthy e _ hhealthy, hheld, Bool.false_eq_true, if_false] at hmove
  exact ⟨_, hmove⟩

/-- What is kept by whatever a session does to an engine, other than to set faults. -/
structure Maintains (invariant : Engine → Prop) : Prop where
  drawn : ∀ {e}, invariant e → ∀ call, invariant (e.drawn call)
  healed : ∀ {e}, invariant e → invariant { e with faults := .healthy }
  created : ∀ {e}, invariant e → ∀ ns, invariant { e with store := e.store.createNamespace ns }
  flushed : ∀ {e}, invariant e → ∀ {ns store}, e.store.flush ns = .ok store → invariant { e with store }
  flushedAll : ∀ {e}, invariant e → invariant { e with store := e.store.flushAll }
  begun : ∀ {e}, invariant e → invariant e.begun
  keeping : ∀ {e}, invariant e → ∀ {id ns key slot tx}, e.writtenTo id ns key slot = .ok tx →
    invariant (e.keeping id tx)
  iterating : ∀ {e}, invariant e → invariant e.iterating
  released : ∀ {e}, invariant e → invariant e.releaseIterator
  committed : ∀ {e}, invariant e → ∀ {id tx}, e.held id = .ok tx → invariant (e.ended id tx Transaction.commit)
  rolledBack : ∀ {e}, invariant e → ∀ {id tx}, e.held id = .ok tx →
    invariant (e.ended id tx Transaction.rollback)
  discarded : ∀ {e}, invariant e → ∀ id, invariant (e.discard id)

/-- What every move of an engine keeps, of engines that no faults are to come in. -/
structure Upholds (invariant : Engine → Prop) : Prop where
  healthy : ∀ {e}, invariant e → e.faults = .healthy
  move : ∀ {e e' event?}, invariant e → Moves e event? e' → invariant e'

/-- Whatever is done to an engine keeps it regular, from its next transaction number on. -/
theorem upholds_regular (n : TransactionId) : Upholds (Regular n) :=
  ⟨fun h => h.healthy, fun h hmove => h.move hmove⟩

namespace Upholds

variable {invariant : Engine → Prop} (hup : Upholds invariant) (h : invariant e)

include hup h

theorem rearranged {store : Store} (halike : e.store.Alike store) : invariant { e with store } :=
  hup.move h (.rearranges id halike)

/-- A commit keeps what the calls keep, whether it is accepted or refused. -/
theorem committed (hheld : e.held id = .ok tx) : invariant (e.ended id tx Transaction.commit) :=
  (moves_committed (hup.healthy h) hheld).elim fun _ hmove => hup.move h hmove

theorem rolledBack (hheld : e.held id = .ok tx) : invariant (e.ended id tx Transaction.rollback) :=
  (moves_rolledBack (hup.healthy h) hheld).elim fun _ hmove => hup.move h hmove

omit h in
/-- Whatever a session does to an engine is a move. -/
theorem maintains : Maintains invariant where
  drawn h call := hup.move h (.drew _ call)
  healed h := hup.move h (.rearranges (fun _ => rfl) (.refl _))
  created h ns := hup.rearranged h (Store.alike_createNamespace _ ns)
  flushed h _ _ hflush := hup.rearranged h (Store.alike_flush hflush)
  flushedAll h := hup.rearranged h (Store.alike_flushAll _)
  begun h := hup.move h (.begins fun hhealthy => hhealthy)
  keeping h _ _ _ _ _ hwritten := hup.move h (.writes (fun hhealthy => hhealthy) hwritten)
  iterating h := hup.rearranged h (.of_tables_eq rfl rfl rfl rfl)
  released h := hup.rearranged h (.of_tables_eq rfl rfl rfl rfl)
  committed h _ _ hheld := hup.committed h hheld
  rolledBack h _ _ hheld := hup.rolledBack h hheld
  discarded h id := hup.move h (.drops id)

end Upholds

end Engine

namespace Comparison

/-- A run and itself, over engines with an invariant. -/
def itself (invariant : Engine → Prop) (hmaintains : Engine.Maintains invariant) : Comparison where
  engines e e' := e' = e ∧ invariant e
  rename id := id
  extra := none
  sizes := True
  counters := True
  not_counters := not_of_isSome_none
  faults := by
    rintro e _ ⟨rfl, -⟩
    rfl
  transactions := by
    rintro e _ ⟨rfl, -⟩ id
    rfl
  next := by
    rintro e _ ⟨rfl, -⟩
    rfl
  records := by
    rintro e _ ⟨rfl, -⟩
    rfl
  tallies := by
    rintro - e _ ⟨rfl, -⟩ ns range
    rfl
  weights := by
    rintro - e _ ⟨rfl, -⟩ ns range
    rfl
  openIterators := by
    rintro - e _ ⟨rfl, -⟩
    rfl
  -- from here on the engines are moved, and it is the invariant that has to be carried along
  drawn := by
    rintro e _ ⟨rfl, h⟩ call
    exact ⟨rfl, hmaintains.drawn h call⟩
  healed := by
    rintro e _ ⟨rfl, h⟩
    exact ⟨rfl, hmaintains.healed h⟩
  created := by
    rintro e _ ⟨rfl, h⟩ ns
    exact ⟨rfl, hmaintains.created h ns⟩
  flushed := by
    rintro e _ ⟨rfl, h⟩ ns store store' hflush hflush'
    cases hflush.symm.trans hflush'
    exact ⟨rfl, hmaintains.flushed h hflush⟩
  flushedAll := by
    rintro e _ ⟨rfl, h⟩
    exact ⟨rfl, hmaintains.flushedAll h⟩
  begun := by
    rintro e _ ⟨rfl, h⟩
    exact ⟨rfl, hmaintains.begun h⟩
  keeping := by
    rintro e _ ⟨rfl, h⟩ id ns key slot tx hwritten
    exact ⟨rfl, hmaintains.keeping h hwritten⟩
  iterating := by
    rintro e _ ⟨rfl, h⟩
    exact ⟨rfl, hmaintains.iterating h⟩
  released := by
    rintro e _ ⟨rfl, h⟩
    exact ⟨rfl, hmaintains.released h⟩
  committed := by
    rintro e _ ⟨rfl, h⟩ id tx hheld
    exact ⟨rfl, rfl, hmaintains.committed h hheld⟩
  rolledBack := by
    rintro e _ ⟨rfl, h⟩ id tx hheld
    exact ⟨rfl, hmaintains.rolledBack h hheld⟩
  discarded := by
    rintro e _ ⟨rfl, h⟩ id
    exact ⟨rfl, hmaintains.discarded h id⟩
  aside := nofun

variable (c : Comparison)

/-- What makes an engine alike to itself is kept, if transactions go by the same numbers. -/
theorem maintains_self (hrename : ∀ id, c.rename id = id) : Engine.Maintains fun e => c.engines e e where
  drawn h call := c.drawn h call
  healed h := c.healed h
  created h ns := c.created h ns
  flushed h _ _ hflush := c.flushed h hflush hflush
  flushedAll h := c.flushedAll h
  begun h := c.begun h
  keeping {e} h id _ _ _ tx hwritten := by
    have hkept := c.keeping h hwritten
    rwa [hrename] at hkept
  iterating h := c.iterating h
  released h := c.released h
  committed {e} h id tx hheld := by
    have hcommitted := (c.committed h hheld).2
    rwa [hrename] at hcommitted
  rolledBack {e} h id tx hheld := by
    have hrolled := c.rolledBack h hheld
    rwa [hrename] at hrolled
  discarded {e} h id := by
    have hdiscarded := c.discarded h id
    rwa [hrename] at hdiscarded

/-- A meaning is alike to itself, if transactions go by the same number. -/
theorem Meanings.refl (meaning : Session.Meaning)
    (h : ∀ id, meaning = .transaction id → c.rename id = id) : c.Meanings meaning meaning := by
  cases meaning with
  | transaction id =>
    have hsame : c.Meanings (.transaction id) (.transaction (c.rename id)) := .transaction id
    rwa [h id rfl] at hsame
  | iterator iterator => exact .iterator iterator
  | index held =>
    obtain ⟨keys, values, index⟩ := held
    cases index with
    | oneWay index => exact .index (.oneWay (.refl c _))
    | twoWay index => exact .index (.twoWay (.refl c _) (.refl c _))
  | cursor held => exact .cursor (.of_counts held.cursor (.refl c _))

/-- A session is alike itself if its engine is among those that are compared. -/
theorem sessions_itself {invariant : Engine → Prop} (hmaintains : Engine.Maintains invariant) {s : Session}
    (h : invariant s.database.engine) : (itself invariant hmaintains).Sessions [] s s := by
  refine ⟨⟨⟨rfl, h⟩, fun _ => rfl⟩, fun holding _ => ?_, nofun, nofun, fun hne => absurd rfl hne, nofun⟩
  cases s.meaning holding with
  | none => exact .none
  | some meaning => exact .some (.refl _ meaning fun _ _ => rfl)

end Comparison

/-- What whatever a session does to an engine keeps is kept by every step that sets no faults. -/
theorem Engine.Maintains.perform {invariant : Engine → Prop} (hmaintains : Engine.Maintains invariant) {s : Session}
    (h : invariant s.database.engine) {step : Session.Step} (hfault : step.isFault = false) :
    invariant ((Session.perform step).run s).2.database.engine :=
  ((Comparison.sessions_itself hmaintains h).perform_sizes trivial (fun _ _ => List.not_mem_nil)
    hfault).sessions.database.engines.2

/-- A step that sets no faults keeps an engine regular. -/
theorem Engine.Regular.perform {n : TransactionId} {s : Session} (h : s.database.engine.Regular n)
    {step : Session.Step} (hfault : step.isFault = false) :
    ((Session.perform step).run s).2.database.engine.Regular n :=
  (upholds_regular n).maintains.perform h hfault

end SecondaryIndex
