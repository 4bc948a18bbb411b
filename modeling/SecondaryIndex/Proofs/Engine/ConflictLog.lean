import Mathlib.Order.Bounds.Basic
import SecondaryIndex.Proofs.Engine.Conflict
import SecondaryIndex.Proofs.Ledger.Numbers

/-!
# What a store remembers of last writes

A store remembers by which commit a key was last written only as long as that can matter to a
conflict. Here is shown what exactly it remembers at every moment (`Reaches.conflictLog_exact`):
right after a commit with writes, the keys that were last written after the horizon, each with the
number of that commit, where the horizon is the least number from which a transaction was started
that was open at the commit; and until the next such commit the same.

The invariant is `Logs`. It compares the numbers of the store with those of its history
(`Ledger/Numbers.lean`): what is remembered is true, and what an open transaction can still see is
remembered. It does not say that anything was forgotten, since between two commits the horizon can
rise while the store holds on to what lies below. What is forgotten is seen at the commit itself
(`Exact.lastWrite?_commit_iff`). There the horizon is the start of an open transaction, so by the
invariant no earlier commit has forgotten a key that is still to be remembered.
-/

namespace SecondaryIndex

namespace Engine

variable {e e' : Engine} {id : TransactionId} {tx : Transaction} {history : History}
  {options : StoreOptions} {trace : Trace Place Bytes} {x : Place} {seq : Nat}

/-! ### The horizon -/

/-- The commits that the open transactions started from. -/
def openStarts (e : Engine) : Set Nat := {start | ∃ id tx, e.HasOpen id tx ∧ tx.start = start}

/-- While a transaction is open, the horizon is the least start of an open one, whatever the last
commit is. -/
theorem Sound.isLeast_horizon (h : e.Sound) (hopen : e.HasOpen id tx) (n : Nat) :
    IsLeast e.openStarts ({ e.store with lastCommit := n } : Store).horizon := by
  constructor
  · have hpos := h.registered_pos hopen
    unfold Store.horizon
    cases hmin : e.store.active.min? with
    | none =>
      -- an open transaction is registered, so there is an entry
      have hentries : e.store.active.entries = [] := List.head?_eq_none_iff.1 hmin
      rw [Store.registered, SortedMap.getD, SortedMap.get?, hentries] at hpos
      exact absurd hpos (Nat.lt_irrefl 0)
    | some entry =>
      obtain ⟨start, n⟩ := entry
      have hget : e.store.active.get? start = some n :=
        SortedMap.get?_eq_some_iff.2 (List.mem_of_head? hmin)
      -- an entry counts at least one transaction
      have hn : n ≠ 0 := fun hzero => h.tidy start (hzero ▸ hget)
      have hcard : (e.starters start).ncard = n := by
        rw [← h.registry, Store.registered, SortedMap.getD, hget, Option.getD_some]
      have hsome : (e.starters start).Nonempty :=
        Set.nonempty_of_ncard_ne_zero (hcard.trans_ne hn)
      obtain ⟨j, t, hj, hstart⟩ := hsome
      exact ⟨j, t, hj, hstart⟩
  · intro start hstart
    obtain ⟨j, t, hj, rfl⟩ := hstart
    exact Store.horizon_le (h.registered_pos hj)

/-- What a store remembers after a commit: the keys of the commit, and of the others those that were
last written after the horizon. -/
theorem Sound.lastWrite?_install_iff (h : e.Sound) (hopen : e.HasOpen id tx) {horizon : Nat}
    (hleast : IsLeast e.openStarts horizon) :
    (e.store.install tx.writes).lastWrite? x = some seq ↔
      (if (tx.changes x).isSome then e.store.lastCommit + 1 = seq
        else e.store.lastWrite? x = some seq) ∧ horizon < seq := by
  have heq := (h.isLeast_horizon hopen (e.store.lastCommit + 1)).unique hleast
  rw [Store.lastWrite?_install, heq]
  show ((e.store.tables.get? x.1).bind fun table =>
    (if (tx.changes x).isSome then some (e.store.lastCommit + 1)
      else table.lastWrite.get? x.2).filter fun seq => horizon < seq) = some seq ↔ _
  by_cases hwritten : (tx.changes x).isSome
  · obtain ⟨table, htable⟩ := h.exists_table hopen (Option.isSome_iff_ne_none.1 hwritten)
    rw [htable, Option.bind_some, if_pos hwritten, if_pos hwritten, Option.filter_eq_some_iff,
      Option.some.injEq, decide_eq_true_iff]
  · rw [if_neg hwritten, Store.lastWrite?]
    cases e.store.tables.get? x.1 with
    | none => simp only [Option.bind_none, reduceCtorEq, false_and]
    | some table =>
      rw [Option.bind_some, Option.bind_some, if_neg hwritten, Option.filter_eq_some_iff,
        decide_eq_true_iff]

/-! ### Numbers of the store and of its history -/

/-- A store numbers commits and starts as its history does; the last writes that it remembers are
the last ones there were, and it remembers those that an open transaction can conflict with. -/
structure Logs (trace : Trace Place Bytes) (e : Engine) : Prop where
  count : e.store.lastCommit = trace.commitNumber
  started : ∀ {id tx}, e.HasOpen id tx → trace.started id = some tx.start
  latest : ∀ {x seq}, e.store.lastWrite? x = some seq → trace.latest x = some seq
  kept : ∀ {id tx x seq}, e.HasOpen id tx → trace.latest x = some seq → tx.start < seq →
    e.store.lastWrite? x = some seq

theorem logs_ofOptions (options : StoreOptions) : Logs [] (ofOptions options) where
  count := rfl
  started hopen := by cases hopen.1
  latest hseq := by cases hseq
  kept hopen := by cases hopen.1

namespace Logs

/-- The starts of the open transactions are those that the history tells. -/
theorem openStarts_eq (h : Logs trace e) (hagrees : Agrees trace e) :
    trace.openStarts = e.openStarts := by
  ext start
  constructor
  · intro ⟨id, hopen, hstart⟩
    obtain ⟨tx, hopen⟩ := hagrees.isOpen_iff.1 hopen
    exact ⟨id, tx, hopen, Option.some.inj ((h.started hopen).symm.trans hstart)⟩
  · intro ⟨id, tx, hopen, hstart⟩
    exact ⟨id, hagrees.isOpen_iff.2 ⟨tx, hopen⟩, by rw [h.started hopen, hstart]⟩

/-- A move that leaves last writes and starts alone keeps what is logged, if its event is none that
anything is numbered by. -/
theorem of_quiet {trace' : Trace Place Bytes} (h : Logs trace e)
    (hcount : trace'.commitNumber = trace.commitNumber) (hstarted : trace'.started = trace.started)
    (hlatest : trace'.latest = trace.latest)
    (hcommit : e'.store.lastCommit = e.store.lastCommit)
    (hstore : e'.store.lastWrite? = e.store.lastWrite?)
    (hopen : ∀ id tx, e'.HasOpen id tx → ∃ tx', e.HasOpen id tx' ∧ tx'.start = tx.start) :
    Logs trace' e' where
  count := by rw [hcommit, hcount, h.count]
  started {id tx} hid := by
    obtain ⟨tx', hold, hstart⟩ := hopen id tx hid
    rw [hstarted, h.started hold, hstart]
  latest hseq := by
    rw [hstore] at hseq
    rw [hlatest]
    exact h.latest hseq
  kept {id tx x seq} hid hseq hlt := by
    obtain ⟨tx', hold, hstart⟩ := hopen id tx hid
    rw [hlatest] at hseq
    rw [hstore]
    exact h.kept hold hseq (hstart ▸ hlt)

end Logs

/-- After a commit with writes, exactly those keys are remembered whose last write is newer than the
horizon. -/
theorem Exact.lastWrite?_commit_iff (h : Exact trace e) (hlogs : Logs trace e)
    (hopen : e.HasOpen id tx) {horizon : Nat} (hleast : IsLeast e.openStarts horizon) :
    (e.store.install tx.writes).lastWrite? x = some seq ↔
      Trace.latest (.commits id :: trace) x = some seq ∧ horizon < seq := by
  rw [h.sound.lastWrite?_install_iff hopen hleast, h.agrees.changes_eq hopen, hlogs.count,
    Trace.latest]
  refine and_congr_left fun hlt => ?_
  by_cases hwritten : (trace.written id x).isSome
  · rw [if_pos hwritten, if_pos hwritten, Option.some.injEq]
  · rw [if_neg hwritten, if_neg hwritten]
    -- the horizon is the start of an open transaction, so nothing above it was ever forgotten
    obtain ⟨j, t, hj, hstart⟩ := hleast.1
    exact ⟨hlogs.latest, fun hseq => hlogs.kept hj hseq (hstart.trans_lt hlt)⟩

/-- Every move keeps the numbers. -/
theorem Exact.logs_move {event? : Option (LedgerEvent Place Bytes)} (h : Exact trace e)
    (hlogs : Logs trace e) (hmove : Moves e event? e') : Logs (event?.toList ++ trace) e' := by
  cases hmove with
  | rearranges healthy alike =>
    exact hlogs.of_quiet rfl rfl rfl alike.lastCommit alike.lastWrite?_eq
      fun id tx hopen => ⟨tx, hopen, rfl⟩
  | begins healthy =>
    refine ⟨hlogs.count, fun {id tx} hopen => ?_, hlogs.latest, fun {id tx x seq} hopen hseq hlt => ?_⟩
    · show Trace.started (.opens e.nextTransaction :: trace) id = some tx.start
      rw [Trace.started]
      rcases hasOpen_begun.1 hopen with ⟨rfl, rfl⟩ | ⟨hne, hold⟩
      · rw [if_pos rfl, hlogs.count]
      · rw [if_neg (Ne.symm hne)]
        exact hlogs.started hold
    · change trace.latest x = some seq at hseq
      rcases hasOpen_begun.1 hopen with ⟨-, rfl⟩ | ⟨-, hold⟩
      · -- nothing was written after the last commit
        have hle : seq ≤ e.store.lastCommit := hlogs.count ▸ Trace.latest_le hseq
        exact absurd hlt (Nat.not_lt_of_le hle)
      · exact hlogs.kept hold hseq hlt
  | @writes id ns key slot tx faults healthy written =>
    refine hlogs.of_quiet rfl rfl rfl rfl rfl fun j t hopen => ?_
    obtain ⟨old, hold, -, rfl⟩ := of_writtenTo written
    rcases hasOpen_keeping.1 hopen with ⟨rfl, rfl, -⟩ | ⟨-, hrest⟩
    · exact ⟨old, hold, rfl⟩
    · exact ⟨t, hrest, rfl⟩
  | @commitsNothing id tx faults healthy hopen nothing =>
    -- it is a commit in the trace, but one that gets no number
    have hnothing : trace.written id = .nothing := by rw [← h.agrees.changes_eq hopen, nothing]
    exact hlogs.of_quiet
      (Trace.commitNumber_commits_nothing (Trace.hasWritten_eq_false_iff.2 hnothing)) rfl
      (Trace.latest_commits_nothing hnothing) rfl rfl
      fun j t hj => ⟨t, (hasOpen_closed.1 hj).2, rfl⟩
  | @commits id tx store faults healthy hopen something applied =>
    obtain ⟨-, rfl⟩ := Store.apply_eq_ok_iff.1 applied
    have hsome : trace.hasWritten id = true := by
      rw [← Bool.not_eq_false, Trace.hasWritten_eq_false_iff, ← h.agrees.changes_eq hopen]
      exact something
    have hleast := h.sound.isLeast_horizon hopen 0
    refine ⟨?_, fun {j t} hj => ?_, fun {x seq} hseq => ?_, fun {j t x seq} hj hseq hlt => ?_⟩
    · exact (congrArg (· + 1) hlogs.count).trans (Trace.commitNumber_commits hsome).symm
    · exact hlogs.started (hasOpen_closed.1 hj).2
    · exact ((h.lastWrite?_commit_iff hlogs hopen hleast).1 hseq).1
    · -- the horizon is not above the start of any open transaction
      have hle := hleast.2 ⟨j, t, (hasOpen_closed.1 hj).2, rfl⟩
      exact (h.lastWrite?_commit_iff hlogs hopen hleast).2 ⟨hseq, Nat.lt_of_le_of_lt hle hlt⟩
  | closes healthy hopen =>
    exact hlogs.of_quiet rfl rfl rfl rfl rfl fun j t hj => ⟨t, (hasOpen_closed.1 hj).2, rfl⟩
  | drops id =>
    have hstore : (e.discard id).store.lastCommit = e.store.lastCommit ∧
        (e.discard id).store.lastWrite? = e.store.lastWrite? := by
      rcases store_discard e id with ⟨tx, -, hstore⟩ | ⟨-, hstore⟩ <;> rw [hstore] <;>
        exact ⟨rfl, rfl⟩
    exact hlogs.of_quiet rfl rfl rfl hstore.1 hstore.2
      fun j t hj => ⟨t, (hasOpen_discard.1 hj).2, rfl⟩

theorem Reaches.logs (h : Reaches (ofOptions options) history e) : Logs history.trace e := by
  have hboth := h.induction (motive := fun trace e => Exact trace e ∧ Logs trace e)
    ⟨exact_ofOptions options, logs_ofOptions options⟩
    fun he hmove => ⟨⟨he.1.agrees.move hmove, he.1.sound.move hmove, he.1.remembers_move hmove⟩,
      he.1.logs_move he.2 hmove⟩
  exact hboth.2

/-! ### Right after a commit, and until the next -/

/-- Only a commit that is answered well counts as one. -/
theorem event?_eq_commits {call : StoreCall} {answer : Except EngineError StoreAnswer}
    (h : call.event? answer = some (.commits id)) : call = .commit id ∧ ∃ a, answer = .ok a := by
  unfold StoreCall.event? at h
  split at h <;> cases h
  exact ⟨rfl, _, rfl⟩

/-- The move of a commit with writes. -/
theorem Moves.of_commits (hmove : Moves e (some (.commits id)) e') (hagrees : Agrees trace e)
    (hwritten : trace.hasWritten id = true) :
    ∃ tx, e.HasOpen id tx ∧ e'.store = (e.store.install tx.writes).leave tx.start := by
  cases hmove with
  | commitsNothing healthy hopen nothing =>
    rw [hagrees.changes_eq hopen, ← Trace.hasWritten_eq_false_iff, hwritten] at nothing
    cases nothing
  | @commits id tx store faults healthy hopen something applied =>
    obtain ⟨-, rfl⟩ := Store.apply_eq_ok_iff.1 applied
    exact ⟨tx, hopen, rfl⟩

/-- Nothing but a commit with writes touches last writes. -/
theorem Moves.lastWrite?_eq {event? : Option (LedgerEvent Place Bytes)} (hmove : Moves e event? e')
    (hagrees : Agrees trace e)
    (hquiet : ∀ id, event? = some (.commits id) → trace.hasWritten id = false) :
    e'.store.lastWrite? = e.store.lastWrite? := by
  cases hmove with
  | rearranges healthy alike => exact alike.lastWrite?_eq
  | commits healthy hopen something applied =>
    have hnothing := Trace.hasWritten_eq_false_iff.1 (hquiet _ rfl)
    rw [← hagrees.changes_eq hopen] at hnothing
    exact absurd hnothing something
  | drops id =>
    rcases store_discard e id with ⟨tx, -, hstore⟩ | ⟨-, hstore⟩ <;> rw [hstore]
    rfl
  | _ => rfl

/-- What a store remembers of last writes is known exactly, at every moment of every run. Right after
a commit with writes these are the keys whose last write is newer than the least start of the
transactions that were open, the committed one included, each with the number of that write; and if
no other transaction was open, only keys that were written since the committed one began. No other
call changes any of it. -/
theorem Reaches.conflictLog_exact (h : Reaches (ofOptions options) history e) :
    (∀ id answer, ((perform (.commit id)).run e).1 = .ok answer →
      history.trace.hasWritten id = true →
      ∃ horizon, IsLeast history.trace.openStarts horizon ∧
        (∀ x seq, ((perform (.commit id)).run e).2.store.lastWrite? x = some seq ↔
          Trace.latest (.commits id :: history.trace) x = some seq ∧ horizon < seq) ∧
        ((∀ j, history.trace.IsOpen j → j = id) → history.trace.started id = some horizon ∧
          ∀ x, ((perform (.commit id)).run e).2.store.lastWrite? x ≠ none →
            history.trace.written id x ≠ none ∨ history.trace.Overwritten id x)) ∧
    (∀ call, (∀ id answer, call = .commit id → ((perform call).run e).1 = .ok answer →
        history.trace.hasWritten id = false) →
      ((perform call).run e).2.store.lastWrite? = e.store.lastWrite?) ∧
    e.store.lastCommit = history.trace.commitNumber ∧
    (∀ x seq, e.store.lastWrite? x = some seq → seq ≤ e.store.lastCommit) ∧
    ∀ id tx, e.HasOpen id tx → history.trace.started id = some tx.start := by
  have hexact := h.exact
  have hlogs := h.logs
  refine ⟨fun id answer hok hwritten => ?_, fun call hquiet => ?_, hlogs.count,
    fun x seq hseq => hexact.sound.lastWrite_le hseq, fun id tx hopen => hlogs.started hopen⟩
  · have hmove := moves_perform e (.commit id)
    rw [hok] at hmove
    obtain ⟨tx, hopen, hstore⟩ := Moves.of_commits hmove hexact.agrees hwritten
    obtain ⟨horizon, hleast⟩ : ∃ horizon, IsLeast e.openStarts horizon :=
      ⟨_, hexact.sound.isLeast_horizon hopen 0⟩
    -- what the commit leaves in the log is decided by the least start that is still open
    have hafter (x : Place) (seq : Nat) :
        (e.store.install tx.writes).lastWrite? x = some seq ↔
          Trace.latest (.commits id :: history.trace) x = some seq ∧ horizon < seq :=
      hexact.lastWrite?_commit_iff hlogs hopen hleast
    refine ⟨horizon, (hlogs.openStarts_eq hexact.agrees).symm ▸ hleast, ?_, fun hsole => ⟨?_, ?_⟩⟩
    · rw [hstore]
      exact hafter
    · -- the horizon is the start of an open transaction, and there is only one
      obtain ⟨j, t, hj, hstart⟩ := hleast.1
      obtain rfl := hsole j (hexact.agrees.isOpen_iff.2 ⟨t, hj⟩)
      rw [hlogs.started hj, hstart]
    · intro x hx
      obtain ⟨seq, hseq⟩ := Option.ne_none_iff_exists'.1 hx
      rw [hstore] at hseq
      obtain ⟨hlatest, hlt⟩ := (hafter x seq).1 hseq
      rw [Trace.latest] at hlatest
      by_cases hown : (history.trace.written id x).isSome
      · exact .inl (Option.isSome_iff_ne_none.1 hown)
      · -- a key of an older commit is one that the transaction could have conflicted on
        rw [if_neg hown] at hlatest
        obtain ⟨j, t, hj, hstart⟩ := hleast.1
        obtain rfl := hsole j (hexact.agrees.isOpen_iff.2 ⟨t, hj⟩)
        rw [← hstart] at hlt
        exact .inr ((hexact.remembers _ t x hj).1 ⟨seq, hlogs.kept hj hlatest hlt, hlt⟩)
  -- any other call moves the engine without installing a batch
  · refine (moves_perform e call).lastWrite?_eq hexact.agrees fun id hevent => ?_
    obtain ⟨hcall, answer, hok⟩ := event?_eq_commits hevent
    exact hquiet id answer hcall hok

/-- Two keys were written by the first commit, and the second commit writes one of them again, while
another transaction is open that was begun in between: the other key is forgotten. -/
theorem conflictLog_exact_of_two_commits :
    ∃ history e answer, Reaches (ofOptions {}) history e ∧ history.trace.hasWritten 1 = true ∧
      e.store.lastWrite? ("users", [3]) = some 1 ∧
      ((perform (.commit 1)).run e).1 = .ok answer ∧
      ((perform (.commit 1)).run e).2.store.lastWrite? ("users", [3]) = none ∧
      ∃ horizon, IsLeast history.trace.openStarts horizon ∧
        ∀ x seq, ((perform (.commit 1)).run e).2.store.lastWrite? x = some seq ↔
          Trace.latest (.commits 1 :: history.trace) x = some seq ∧ horizon < seq := by
  obtain ⟨history, e, h, hwritten, hbefore, hok, hafter⟩ :
      ∃ history e, Reaches (ofOptions {}) history e ∧ history.trace.hasWritten 1 = true ∧
        e.store.lastWrite? ("users", [3]) = some 1 ∧
        ((perform (.commit 1)).run e).1.isOk = true ∧
        ((perform (.commit 1)).run e).2.store.lastWrite? ("users", [3]) = none :=
    ⟨_, _, (((((((((Reaches.refl : Reaches (ofOptions {}) [] (ofOptions {})).call
      (.createNamespace "users")).call .begin).call (.put 0 "users" [1] [7])).call
      (.put 0 "users" [3] [7])).call (.commit 0)).call .begin).call .begin).call
      (.delete 1 "users" [1])), by decide +kernel, by decide +kernel, by decide +kernel,
      by decide +kernel⟩
  cases hanswer : ((perform (.commit 1)).run e).1 with
  | error err =>
    rw [hanswer] at hok
    cases hok
  | ok answer =>
    obtain ⟨horizon, hleast, hiff, -⟩ := h.conflictLog_exact.1 1 answer hanswer hwritten
    exact ⟨history, e, answer, h, hwritten, hbefore, hanswer, hafter, horizon, hleast, hiff⟩

end Engine

end SecondaryIndex
