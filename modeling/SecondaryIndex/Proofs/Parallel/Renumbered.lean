import SecondaryIndex.Proofs.Engine.Echo
import SecondaryIndex.Proofs.Index.Rejects
import SecondaryIndex.Proofs.Parallel.ErasedRuns

/-!
# Sessions with a number more

A transaction that has left nothing behind but its number cannot be noticed: whatever is done later on, the
replies are the same (`Session.replies_numbered`). Numbers are not told in replies, which name transactions
by their handles, and nothing else depends on them.

The comparison is the one of echoes (`Engine.Corresponds`) with nothing hidden, of engines whose stores are
the same. It compares sizes and counters too, so all of a reply is the same that is told of it.
-/

namespace SecondaryIndex

namespace Engine

variable {e e' : Engine} {rename : TransactionId → TransactionId}

/-- Engines that are the same but for the numbers of their transactions. -/
structure Renumbers (rename : TransactionId → TransactionId) (e e' : Engine) : Prop where
  corresponds : Corresponds rename (fun _ => False) e e'
  same : e'.store = e.store

namespace Renumbers

variable (h : Renumbers rename e e')

include h

/-- The names of transactions do not occur in the store. -/
theorem withStore {s s' : Store} (hs : s' = s) :
    Renumbers rename { e with store := s } { e' with store := s' } :=
  ⟨h.corresponds.withStore ⟨s.openIterators, hs⟩, hs⟩

theorem withFaults (faults : FaultPlan) :
    Renumbers rename { e with faults } { e' with faults } :=
  ⟨⟨h.corresponds.store, rfl, h.corresponds.next, h.corresponds.succ, h.corresponds.injective,
    h.corresponds.shown, h.corresponds.frames⟩, h.same⟩

theorem get?_eq (id : TransactionId) : e'.transactions.get? (rename id) = e.transactions.get? id :=
  h.corresponds.shown id not_false

/-- A transaction is ended in the same way on both sides. -/
theorem ended {id : TransactionId} {tx : Transaction}
    (ending : Transaction → Store → Except EngineError Unit × Transaction × Store) :
    Renumbers rename (e.ended id tx ending) (e'.ended (rename id) tx ending) := by
  unfold Engine.ended
  rw [h.same]
  exact ⟨h.corresponds.replaced rfl (fun _ => rfl) ⟨_, rfl⟩, rfl⟩

/-- A transaction is discarded under either of its names. -/
theorem discarded (id : TransactionId) : Renumbers rename (e.discard id) (e'.discard (rename id)) := by
  refine ⟨h.corresponds.discarded, ?_⟩
  unfold discard
  rw [h.get?_eq]
  cases e.transactions.get? id with
  | none => exact h.same
  | some tx =>
    show tx.abandon e'.store = tx.abandon e.store
    rw [h.same]

end Renumbers

/-- The numbers from the next one on are moved by one if one of them was used up. -/
theorem renumbers_numbered (hsound : e.Sound) :
    Renumbers (shifted e.nextTransaction 1) e (e.numbered (e.nextTransaction + 1)) := by
  have hget (id : TransactionId) :
      e.transactions.get? (shifted e.nextTransaction 1 id) = e.transactions.get? id := by
    by_cases hid : id < e.nextTransaction
    · exact congrArg _ (if_pos hid)
    · -- these numbers are still to be given out
      have hle := Nat.le_of_not_lt hid
      rw [shifted_of_le hle, hsound.fresh id hle, hsound.fresh _ (Nat.le_succ_of_le hle)]
  refine ⟨⟨⟨e.store.openIterators, rfl⟩, rfl, (shifted_of_le (Nat.le_refl _)).symm, fun id hid => ?_,
    shifted_injective _ _, fun id _ => hget id, fun id => congrArg _ (hget id)⟩, rfl⟩
  rw [shifted_of_le hid, shifted_of_le (Nat.le_succ_of_le hid)]

end Engine

namespace Comparison

open Session

/-- A run and the same run under other numbers of transactions. -/
def renumbering (rename : TransactionId → TransactionId) : Comparison where
  engines := Engine.Renumbers rename
  rename := rename
  extra := none
  sizes := True
  counters := True
  not_counters := not_of_isSome_none
  faults h := h.corresponds.faults
  transactions h := h.get?_eq
  next h := h.corresponds.next
  records h := congrArg Store.records h.same
  tallies _ _ _ h ns range := congrArg (Store.recentTally · ns range) h.same
  weights _ _ _ h ns range := congrArg (Store.olderSize · ns range) h.same
  openIterators _ _ _ h := congrArg Store.openIterators h.same
  drawn h call := ⟨h.corresponds.drawn call, h.same⟩
  healed h := h.withFaults .healthy
  created h ns := h.withStore (congrArg (Store.createNamespace · ns) h.same)
  flushed h _ _ _ hflush hflush' := by
    rw [h.same, hflush] at hflush'
    exact h.withStore (Except.ok.inj hflush').symm
  flushedAll h := h.withStore (congrArg Store.flushAll h.same)
  begun h := ⟨h.corresponds.begun, congrArg Store.enter h.same⟩
  keeping h _ _ _ _ tx _ := ⟨h.corresponds.keeping tx, h.same⟩
  iterating h := h.withStore (congrArg Store.iteratorOpened h.same)
  released h := h.withStore (congrArg Store.iteratorReleased h.same)
  committed h id tx _ := ⟨congrArg (fun store => (tx.commit store).1) h.same, h.ended Transaction.commit⟩
  rolledBack h _ _ _ := h.ended Transaction.rollback
  discarded h id := h.discarded id
  aside := nofun

variable {rename : TransactionId → TransactionId} {s s' : Session}

/-- Any step that both sessions carry out is answered alike. Faults are set in both of them. -/
theorem Sessions.perform_renumbering (hs : (renumbering rename).Sessions [] s s') (step : Step) :
    (renumbering rename).Replied [] step ((Session.perform step).run s)
      ((Session.perform step).run s') := by
  cases hfault : step.isFault with
  | false => exact hs.perform_sizes trivial (fun _ _ => List.not_mem_nil) hfault
  | true =>
    unfold Step.isFault at hfault
    split at hfault
    · next call skip times =>
      have hengines := hs.database.engines
      refine ⟨.ok fun _ => Answers.of_eq rfl, rfl, hs.withDatabase ⟨?_, hs.database.metrics⟩⟩
      have hfaults : s'.database.engine.faults.arm call skip times =
          s.database.engine.faults.arm call skip times :=
        congrArg (fun faults : FaultPlan => faults.arm call skip times) hengines.corresponds.faults
      show Engine.Renumbers rename _
        { s'.database.engine with faults := s'.database.engine.faults.arm call skip times }
      rw [hfaults]
      exact hengines.withFaults _
    · cases hfault

/-- Alike sessions go on to reply alike, step by step. -/
theorem Sessions.carryOut_renumbering (hs : (renumbering rename).Sessions [] s s') (steps : List Step) :
    (s'.carryOut steps).1.map Reply.told = (s.carryOut steps).1.map Reply.told := by
  induction steps generalizing s s' with
  | nil => rfl
  | cons step steps ih =>
    have hreplied := hs.perform_renumbering step
    rw [carryOut_cons, carryOut_cons, List.map_cons, List.map_cons, ih hreplied.sessions,
      hreplied.told_eq trivial fun _ => trivial]

end Comparison

namespace Session

/-- A session of which the next number of a transaction was used up. -/
def numbered (s : Session) : Session :=
  { s with
    database := { s.database with
      engine := s.database.engine.numbered (s.database.engine.nextTransaction + 1) } }

/-- That a number was used up is told by no later reply. -/
theorem replies_numbered {s : Session} (h : s.Regular) (steps : List Step) :
    (s.numbered.carryOut steps).1.map Reply.told = (s.carryOut steps).1.map Reply.told := by
  have hsessions : (Comparison.renumbering (Engine.shifted s.database.engine.nextTransaction 1)).Sessions []
      s s.numbered :=
    ⟨⟨Engine.renumbers_numbered h.engine.sound, fun _ => rfl⟩,
      fun holding _ => Comparison.meanings_of_regular h (fun _ hid => if_pos hid) holding, nofun, nofun,
      fun hne => absurd rfl hne, nofun⟩
  exact hsessions.carryOut_renumbering steps

end Session

end SecondaryIndex
