import SecondaryIndex.Proofs.Engine.Moves

/-!
# Histories of a store

A `History` lists calls with their answers, newest first. `Engine.Reaches start history engine` says
that the calls of the history, made one after the other from `start`, were answered as it says and
led to `engine`. Since every answer tells its event, a history has a trace.

`Reaches.ledger_eq` and `Reaches.proper` carry a run over to its trace: the ledger of the engine is
the ledger of the trace, and in the trace only open transactions write and commit. With them
everything that `Ledger/Trace.lean` reads off a trace is read off a history. Both are shown along the
run, since whether a write was one of an open transaction is seen in the ledger of the moment.
-/

namespace SecondaryIndex

/-- Calls with their answers, newest first. -/
abbrev History := List (StoreCall × Except EngineError StoreAnswer)

/-- What happened to the transactions in a history. -/
def History.trace (history : History) : Trace Place Bytes :=
  history.filterMap fun entry => entry.1.event? entry.2

namespace Engine

/-- The calls of a history, made from `start` on, were answered as it says and led to an engine. -/
inductive Reaches (start : Engine) : History → Engine → Prop
  | refl : Reaches start [] start
  | call {history : History} {e : Engine} (reached : Reaches start history e) (call : StoreCall) :
    Reaches start ((call, ((perform call).run e).1) :: history) ((perform call).run e).2

variable {start e e' : Engine} {history : History} {id : TransactionId} {options : StoreOptions}

/-- The engine has moved by the newest event, if the newest call was one. -/
theorem trace_cons (history : History) (call : StoreCall)
    (answer : Except EngineError StoreAnswer) :
    History.trace ((call, answer) :: history) =
      (call.event? answer).toList ++ History.trace history := by
  unfold History.trace
  rw [List.filterMap_cons]
  cases call.event? answer <;> rfl

/-- An invariant that every move keeps holds wherever a history leads. -/
theorem Reaches.induction {motive : Trace Place Bytes → Engine → Prop}
    (h : Reaches start history e) (refl : motive [] start)
    (move : ∀ {trace event? e e'}, motive trace e → Moves e event? e' →
      motive (event?.toList ++ trace) e') :
    motive history.trace e := by
  induction h with
  | refl => exact refl
  | @call history e reached call ih =>
    rw [trace_cons]
    exact move ih (moves_perform e call)

/-- Only beginning a transaction gives out a number. -/
theorem Moves.nextTransaction {event? : Option (LedgerEvent Place Bytes)} (h : Moves e event? e') :
    (event? = some (.opens e.nextTransaction) ∧ e'.nextTransaction = e.nextTransaction + 1) ∨
      ((∀ id, event? ≠ some (.opens id)) ∧ e'.nextTransaction = e.nextTransaction) := by
  cases h with
  | begins healthy => exact .inl ⟨rfl, rfl⟩
  | drops id =>
    refine .inr ⟨by simp, ?_⟩
    unfold discard
    split <;> rfl
  | _ => exact .inr ⟨by simp, rfl⟩

/-- The engine and the trace of its history agree: on the ledger, on who could write, and on which
numbers were given out. -/
structure Agrees (trace : Trace Place Bytes) (e : Engine) : Prop where
  ledger : e.ledger = trace.ledger
  proper : trace.Proper
  given : ∀ id, .opens id ∈ trace → id < e.nextTransaction

theorem Agrees.isOpen_iff {trace : Trace Place Bytes} (h : Agrees trace e) :
    trace.IsOpen id ↔ ∃ tx, e.HasOpen id tx := by
  rw [← Trace.isSome_pending_ledger, ← h.ledger, Option.isSome_iff_exists]
  simp only [pending_eq_some_iff]
  exact ⟨fun ⟨_, tx, hopen, _⟩ => ⟨tx, hopen⟩, fun ⟨tx, hopen⟩ => ⟨_, tx, hopen, rfl⟩⟩

/-- An open transaction has buffered what it wrote. -/
theorem Agrees.changes_eq {trace : Trace Place Bytes} {tx : Transaction} (h : Agrees trace e)
    (hopen : e.HasOpen id tx) : tx.changes = trace.written id :=
  Trace.pending_ledger (h.ledger ▸ hopen.pending)

theorem agrees_ofOptions (options : StoreOptions) : Agrees [] (ofOptions options) :=
  ⟨rfl, trivial, fun _ h => absurd h List.not_mem_nil⟩

theorem Agrees.move {trace : Trace Place Bytes} {event? : Option (LedgerEvent Place Bytes)}
    (h : Agrees trace e) (hmove : Moves e event? e') : Agrees (event?.toList ++ trace) e' := by
  have hledger : e'.ledger = Trace.ledger (event?.toList ++ trace) := by
    rw [hmove.ledger_eq, h.ledger]
    cases event? <;> rfl
  refine ⟨hledger, ?_, ?_⟩
  · cases hmove with
    | begins healthy => exact ⟨fun hmem => Nat.lt_irrefl _ (h.given _ hmem), h.proper⟩
    -- whoever writes or commits is open in the engine, hence in the trace
    | writes healthy written =>
      obtain ⟨tx, hopen, -⟩ := of_writtenTo written
      exact ⟨h.isOpen_iff.2 ⟨tx, hopen⟩, h.proper⟩
    | commitsNothing healthy hopen nothing => exact ⟨h.isOpen_iff.2 ⟨_, hopen⟩, h.proper⟩
    | commits healthy hopen something applied => exact ⟨h.isOpen_iff.2 ⟨_, hopen⟩, h.proper⟩
    | _ => exact h.proper
  · intro id hmem
    rcases hmove.nextTransaction with ⟨rfl, hnext⟩ | ⟨hnot, hnext⟩
    -- a number is given out once, since the next one is always greater
    · rw [hnext]
      rcases List.mem_cons.1 hmem with heq | hold
      · cases heq
        exact Nat.lt_succ_self _
      · exact Nat.lt_succ_of_lt (h.given id hold)
    · rw [hnext]
      refine h.given id ((List.mem_append.1 hmem).resolve_left fun hnew => ?_)
      exact hnot id (Option.mem_toList.1 hnew)

theorem Reaches.agrees (h : Reaches (ofOptions options) history e) : Agrees history.trace e :=
  h.induction (agrees_ofOptions options) Agrees.move

/-- The ledger of an engine is that of its history. -/
theorem Reaches.ledger_eq (h : Reaches (ofOptions options) history e) :
    e.ledger = history.trace.ledger := h.agrees.ledger

/-- Only open transactions have written and committed. -/
theorem Reaches.proper (h : Reaches (ofOptions options) history e) : history.trace.Proper :=
  h.agrees.proper

end Engine

end SecondaryIndex
