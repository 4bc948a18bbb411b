import SecondaryIndex.Proofs.Engine.Isolation

/-!
# Write conflicts

A commit is refused if a key that it writes was written by another commit since its transaction
began. The store decides this by the last write that it remembers of the key, and it forgets last
writes at every commit. Here is shown that it decides exactly (`Reaches.commit_exact`).

The invariant is `Remembers`: for an open transaction and any key, whether or not the transaction
writes it, a last write after its start is remembered if and only if the key was overwritten in the
history (`Trace.Overwritten`). It is kept by every move for a different reason:

* what was committed before a transaction began is not newer than its start, since no last write is
  newer than the last commit (`Sound.lastWrite_le`);
* a commit records its own keys under a number that is newer than every start, and forgets only what
  is not newer than the horizon, which is not above the start of an open transaction
  (`Sound.horizon_le`);
* nothing else touches last writes or starts.
-/

namespace SecondaryIndex

/-- Whether a transaction has written a key that another one has overwritten since it began. -/
def Trace.Contended (trace : Trace Place Bytes) (id : TransactionId) : Prop :=
  ∃ x, trace.written id x ≠ none ∧ trace.Overwritten id x

/-- Whether a store remembers that a key was written after a commit. -/
def Store.WrittenAfter (store : Store) (start : Nat) (x : Place) : Prop :=
  ∃ seq, store.lastWrite? x = some seq ∧ start < seq

/-- Whether a transaction has written a key that a store remembers as written since it began. -/
def Transaction.Blocked (tx : Transaction) (store : Store) : Prop :=
  ∃ x, tx.changes x ≠ none ∧ store.WrittenAfter tx.start x

namespace Engine

variable {e e' : Engine} {id : TransactionId} {tx : Transaction} {history : History}
  {options : StoreOptions} {trace : Trace Place Bytes}

/-! ### What is remembered -/

/-- A store remembers the writes that overlap with an open transaction, and of older ones at least
not that they would. -/
def Remembers (trace : Trace Place Bytes) (e : Engine) : Prop :=
  ∀ id tx x, e.HasOpen id tx → (e.store.WrittenAfter tx.start x ↔ trace.Overwritten id x)

/-- A key that a transaction writes has a table. -/
theorem Sound.exists_table (h : e.Sound) (hopen : e.HasOpen id tx) {x : Place}
    (hx : tx.changes x ≠ none) : ∃ table, e.store.tables.get? x.1 = some table := by
  refine Store.hasNamespace_iff.1 (h.homed hopen ?_)
  rw [Option.isSome_iff_ne_none]
  intro hnone
  exact hx (by simp [Transaction.changes, WriteSet.changes, SortedMap.getD, hnone])

/-- After a commit exactly the keys are remembered that were before and those that it wrote. -/
theorem Sound.writtenAfter_install (h : e.Sound) (hopen : e.HasOpen id tx) {writes : WriteSet}
    {x : Place} (htable : (writes.changes x).isSome → ∃ table, e.store.tables.get? x.1 = some table) :
    (e.store.install writes).WrittenAfter tx.start x ↔
      (writes.changes x).isSome ∨ e.store.WrittenAfter tx.start x := by
  have hhorizon : ({ e.store with lastCommit := e.store.lastCommit + 1 } : Store).horizon ≤ tx.start :=
    Store.horizon_le (h.registered_pos hopen)
  have hstart := h.start_le hopen
  unfold Store.WrittenAfter
  rw [Store.lastWrite?_install]
  constructor
  · rintro ⟨seq, hseq, hlt⟩
    obtain ⟨table, ht, hfilter⟩ := Option.bind_eq_some_iff.1 hseq
    obtain ⟨hsome, -⟩ := Option.filter_eq_some_iff.1 hfilter
    split at hsome
    · next hwritten => exact .inl hwritten
    · exact .inr ⟨seq, by rw [Store.lastWrite?, ht, Option.bind_some, hsome], hlt⟩
  · intro hor
    -- whatever is newer than the start is newer than the horizon, so it stays
    have hkeep {table : Table} {seq : Nat} (ht : e.store.tables.get? x.1 = some table)
        (hsome : (if (writes.changes x).isSome then some (e.store.lastCommit + 1)
          else table.lastWrite.get? x.2) = some seq) (hlt : tx.start < seq) :
        ∃ seq, ((e.store.tables.get? x.1).bind fun table =>
          (if (writes.changes x).isSome then some (e.store.lastCommit + 1)
            else table.lastWrite.get? x.2).filter fun seq =>
              ({ e.store with lastCommit := e.store.lastCommit + 1 } : Store).horizon < seq) =
            some seq ∧ tx.start < seq := by
      refine ⟨seq, ?_, hlt⟩
      rw [ht, Option.bind_some, hsome]
      exact Option.filter_eq_some_iff.2 ⟨rfl, decide_eq_true (Nat.lt_of_le_of_lt hhorizon hlt)⟩
    by_cases hwritten : (writes.changes x).isSome = true
    · obtain ⟨table, ht⟩ := htable hwritten
      exact hkeep ht (if_pos hwritten) (Nat.lt_succ_of_le hstart)
    · obtain ⟨seq, hseq, hlt⟩ := hor.resolve_left hwritten
      obtain ⟨table, ht, hsome⟩ := Option.bind_eq_some_iff.1 hseq
      exact hkeep ht ((if_neg hwritten).trans hsome) hlt

/-- The three invariants of a run together. -/
structure Exact (trace : Trace Place Bytes) (e : Engine) : Prop where
  agrees : Agrees trace e
  sound : e.Sound
  remembers : Remembers trace e

theorem exact_ofOptions (options : StoreOptions) : Exact [] (ofOptions options) where
  agrees := agrees_ofOptions options
  sound := sound_ofOptions options
  remembers id tx x hopen := by cases hopen.1

/-- A move that ends transactions, or does nothing to them, and leaves last writes alone keeps what
is remembered. -/
theorem Remembers.of_quiet {event? : Option (LedgerEvent Place Bytes)} (h : Remembers trace e)
    (hevent : ∀ id, event? ≠ some (.commits id))
    (hstore : e'.store.lastWrite? = e.store.lastWrite?)
    (hopen : ∀ id tx, e'.HasOpen id tx → ∃ tx', e.HasOpen id tx' ∧ tx'.start = tx.start) :
    Remembers (event?.toList ++ trace) e' := by
  intro id tx x hopen'
  obtain ⟨tx', hold, hstart⟩ := hopen id tx hopen'
  have hsame : e'.store.WrittenAfter tx.start x ↔ e.store.WrittenAfter tx'.start x := by
    simp only [Store.WrittenAfter, hstore, hstart]
  rw [hsame, h id tx' x hold]
  cases event? with
  | none => rfl
  | some event =>
    exact (Trace.overwritten_cons_of_not_commits fun id' heq => hevent id' (by rw [heq])).symm

theorem Exact.remembers_move {event? : Option (LedgerEvent Place Bytes)} (h : Exact trace e)
    (hmove : Moves e event? e') : Remembers (event?.toList ++ trace) e' := by
  have hagrees := h.agrees.move hmove
  cases hmove with
  | rearranges healthy alike =>
    exact h.remembers.of_quiet (by simp) alike.lastWrite?_eq fun id tx hopen => ⟨tx, hopen, rfl⟩
  | begins healthy =>
    intro id tx x hopen
    show e.store.WrittenAfter tx.start x ↔ Trace.Overwritten (.opens e.nextTransaction :: trace) id x
    rw [Trace.overwritten_cons_of_not_commits (by simp)]
    rcases hasOpen_begun.1 hopen with ⟨rfl, rfl⟩ | ⟨-, hold⟩
    · -- nothing was written after the last commit, and nothing overlaps with what is new
      refine iff_of_false ?_ fun hafter => ?_
      · rintro ⟨seq, hseq, hlt⟩
        exact Nat.not_lt_of_le (h.sound.lastWrite_le (x := x) hseq) hlt
      · exact Nat.lt_irrefl _ (h.agrees.given _ hafter.opens_mem)
    · exact h.remembers id tx x hold
  | @writes id ns key slot tx faults healthy written =>
    refine h.remembers.of_quiet (by simp) rfl fun j t hopen => ?_
    obtain ⟨old, hold, -, rfl⟩ := of_writtenTo written
    rcases hasOpen_keeping.1 hopen with ⟨rfl, rfl, -⟩ | ⟨-, hrest⟩
    · exact ⟨old, hold, rfl⟩
    · exact ⟨t, hrest, rfl⟩
  | @commitsNothing id tx faults healthy hopen nothing =>
    intro j t x hj
    obtain ⟨hne, hold⟩ := hasOpen_closed.1 hj
    -- it is a commit in the trace, but one that overwrites nothing
    have hwritten : trace.written id x = none := by
      rw [← h.agrees.changes_eq hopen, nothing]
      rfl
    show e.store.WrittenAfter t.start x ↔ Trace.Overwritten (.commits id :: trace) j x
    rw [Trace.overwritten_cons, or_iff_right]
    · exact h.remembers j t x hold
    · rintro ⟨id', heq, -, -, hsome⟩
      cases heq
      exact hsome hwritten
  | @commits id tx store faults healthy hopen something applied =>
    obtain ⟨-, rfl⟩ := Store.apply_eq_ok_iff.1 applied
    intro j t x hj
    obtain ⟨hne, hold⟩ := hasOpen_closed.1 hj
    have hchanges : WriteSet.changes tx.writes = trace.written id := h.agrees.changes_eq hopen
    show (e.store.install tx.writes).WrittenAfter t.start x ↔
      Trace.Overwritten (.commits id :: trace) j x
    rw [h.sound.writtenAfter_install hold fun hsome =>
        h.sound.exists_table hopen (Option.isSome_iff_ne_none.1 hsome),
      Trace.overwritten_cons, h.remembers j t x hold, hchanges, Option.isSome_iff_ne_none]
    -- what is still open was begun before this commit
    have hopened : .opens j ∈ trace := Trace.opens_mem_of_isOpen (h.agrees.isOpen_iff.2 ⟨t, hold⟩)
    refine or_congr_left ⟨fun hwritten => ⟨id, rfl, hne.symm, hopened, hwritten⟩, ?_⟩
    rintro ⟨id', heq, -, -, hwritten⟩
    cases heq
    exact hwritten
  | closes healthy hopen =>
    exact h.remembers.of_quiet (by simp) rfl fun j t hj => ⟨t, (hasOpen_closed.1 hj).2, rfl⟩
  | drops id =>
    refine h.remembers.of_quiet (by simp) ?_ fun j t hj => ⟨t, (hasOpen_discard.1 hj).2, rfl⟩
    rcases store_discard e id with ⟨tx, -, hstore⟩ | ⟨-, hstore⟩ <;> rw [hstore]
    rfl

theorem Reaches.exact (h : Reaches (ofOptions options) history e) : Exact history.trace e :=
  h.induction (exact_ofOptions options) fun he hmove =>
    ⟨he.agrees.move hmove, he.sound.move hmove, he.remembers_move hmove⟩

/-! ### How commits go -/

/-- The namespace of a batch exists. -/
theorem Sound.absurd_of_table_eq_none (h : e.Sound) (hopen : e.HasOpen id tx) {ns : Namespace}
    {batch : Batch} (hbatch : tx.writes.get? ns = some batch)
    (hnone : e.store.tables.get? ns = none) : False := by
  have hns := h.homed hopen (Option.isSome_iff_exists.2 ⟨batch, hbatch⟩)
  obtain ⟨table, htable⟩ := Store.hasNamespace_iff.1 hns
  rw [hnone] at htable
  cases htable

/-- The writes of an open transaction are applied unless one of their keys was written since it began, and
nothing else can be wrong with them. -/
theorem Sound.apply_cases (h : e.Sound) (hopen : e.HasOpen id tx) :
    (¬ tx.Blocked e.store ∧ ∃ store, e.store.apply tx.start tx.writes = .ok store) ∨
      (tx.Blocked e.store ∧ ∃ ns, e.store.apply tx.start tx.writes = .error (.conflict ns)) := by
  have hwritten (x : Place) : tx.changes x = (tx.writes.getD x.1 ∅).get? x.2 := rfl
  cases happly : e.store.apply tx.start tx.writes with
  | ok store =>
    refine .inl ⟨?_, store, rfl⟩
    rintro ⟨⟨ns, key⟩, hx, seq, hseq, hlt⟩
    obtain ⟨hall, -⟩ := Store.apply_eq_ok_iff.1 happly
    rw [hwritten, SortedMap.getD] at hx
    cases hbatch : tx.writes.get? ns with
    | none => simp [hbatch] at hx
    | some batch =>
      -- the batch with the key was accepted, but its table knows better
      obtain ⟨table, htable, hno⟩ :=
        Store.accept_eq_ok_iff.1 (hall _ (SortedMap.get?_eq_some_iff.1 hbatch))
      have hyes : table.conflicts tx.start batch = true := by
        refine Table.conflicts_iff.2 ⟨key, seq, by simpa [hbatch] using hx, ?_, hlt⟩
        rwa [Store.lastWrite?, htable, Option.bind_some] at hseq
      rw [hyes] at hno
      cases hno
  | error err =>
    obtain ⟨ns, batch, hmem, haccept⟩ := Store.exists_of_apply_eq_error happly
    have hbatch := SortedMap.get?_eq_some_iff.2 hmem
    rcases Store.accept_eq_error haccept with ⟨hnone, -⟩ | ⟨table, htable, hyes, rfl⟩
    · exact (h.absurd_of_table_eq_none hopen hbatch hnone).elim
    -- the key for which the table refused the batch was written since
    · obtain ⟨key, seq, hkey, hseq, hlt⟩ := Table.conflicts_iff.1 hyes
      refine .inr ⟨⟨(ns, key), ?_, seq, ?_, hlt⟩, ns, rfl⟩
      · rw [hwritten, SortedMap.getD, hbatch]
        exact hkey
      · rw [Store.lastWrite?, htable, Option.bind_some, hseq]

/-- A commit of an open transaction has nothing to commit, is applied, or is refused for a key that was
written since the transaction began. -/
theorem Sound.commit_cases (h : e.Sound) (hopen : e.HasOpen id tx) :
    (tx.changes = .nothing ∧ tx.commit e.store = (.ok (), tx.close, e.store.leave tx.start)) ∨
    (tx.changes ≠ .nothing ∧ ¬ tx.Blocked e.store ∧
      tx.commit e.store = (.ok (), tx.close, (e.store.install tx.writes).leave tx.start)) ∨
    (tx.changes ≠ .nothing ∧ tx.Blocked e.store ∧
      ∃ ns, tx.commit e.store = (.error (.conflict ns), tx.close, e.store.leave tx.start)) := by
  rcases Engine.commit_cases tx e.store with ⟨hfin, -⟩ | ⟨-, hnothing, hc⟩ |
    ⟨-, hsome, store, happly, hc⟩ | ⟨-, hsome, err, happly, hc⟩
  · rw [hopen.2] at hfin
    cases hfin
  · exact .inl ⟨hnothing, hc⟩
  · obtain ⟨-, rfl⟩ := Store.apply_eq_ok_iff.1 happly
    rcases h.apply_cases hopen with ⟨hfree, -⟩ | ⟨-, ns, herror⟩
    · exact .inr (.inl ⟨hsome, hfree, hc⟩)
    · rw [happly] at herror
      cases herror
  · rcases h.apply_cases hopen with ⟨-, store, hok⟩ | ⟨hblocked, ns, herror⟩
    · rw [happly] at hok
      cases hok
    · obtain rfl := Except.error.inj (happly.symm.trans herror)
      exact .inr (.inr ⟨hsome, hblocked, ns, hc⟩)

/-- What is remembered is what was overwritten, so whatever blocks a transaction is contended. -/
theorem Exact.blocked_iff (h : Exact trace e) (hopen : e.HasOpen id tx) :
    tx.Blocked e.store ↔ trace.Contended id := by
  refine exists_congr fun x => ?_
  rw [h.remembers id tx x hopen, ← h.agrees.changes_eq hopen]

/-- The writes of an open transaction are applied unless one of their keys is contended. -/
theorem Exact.apply_cases (h : Exact trace e) (hopen : e.HasOpen id tx) :
    (¬ trace.Contended id ∧ ∃ store, e.store.apply tx.start tx.writes = .ok store) ∨
      (trace.Contended id ∧ ∃ ns, e.store.apply tx.start tx.writes = .error (.conflict ns)) := by
  have hcases := h.sound.apply_cases hopen
  rwa [h.blocked_iff hopen] at hcases

/-- An open transaction is committed unless it is blocked, and then it is refused by a conflict. -/
theorem Sound.run_commit_cases (h : e.Sound) (hhealthy : e.faults = .healthy) (hopen : e.HasOpen id tx) :
    (¬ tx.Blocked e.store ∧ ((commit id).run e).1 = .ok ()) ∨
      (tx.Blocked e.store ∧ ∃ ns, ((commit id).run e).1 = .error (.conflict ns)) := by
  have hrun : ((commit id).run e).1 = (tx.commit e.store).1 := by
    rw [run_commit, fails_of_healthy _ _ hhealthy, if_neg Bool.false_ne_true, hopen.held]
  rw [hrun]
  rcases h.commit_cases hopen with ⟨hnothing, hc⟩ | ⟨-, hfree, hc⟩ | ⟨-, hblocked, ns, hc⟩
  · -- who has written nothing is blocked nowhere
    refine .inl ⟨?_, congrArg Prod.fst hc⟩
    intro hblocked
    obtain ⟨x, hx, -⟩ := hblocked
    rw [hnothing] at hx
    exact hx rfl
  · exact .inl ⟨hfree, congrArg Prod.fst hc⟩
  · exact .inr ⟨hblocked, ns, congrArg Prod.fst hc⟩

/-- Nothing was written since the last commit. -/
theorem Sound.not_blocked_of_start_eq (h : e.Sound) (hstart : tx.start = e.store.lastCommit) :
    ¬ tx.Blocked e.store := by
  intro hblocked
  obtain ⟨x, -, seq, hseq, hlt⟩ := hblocked
  rw [hstart] at hlt
  exact Nat.not_lt_of_le (h.lastWrite_le hseq) hlt

/-- So a transaction that started from the last commit is committed. -/
theorem Sound.commit_of_start_eq (h : e.Sound) (hhealthy : e.faults = .healthy)
    (hopen : e.HasOpen id tx) (hstart : tx.start = e.store.lastCommit) :
    ((commit id).run e).1 = .ok () := by
  rcases h.run_commit_cases hhealthy hopen with ⟨-, hok⟩ | ⟨hblocked, -⟩
  · exact hok
  · exact absurd hblocked (h.not_blocked_of_start_eq hstart)

theorem run_commit_of_open (hhealthy : e.faults = .healthy) (hopen : e.HasOpen id tx) :
    (perform (.commit id)).run e =
      ((tx.commit e.store).1.map fun _ => .done, e.ended id tx Transaction.commit) := by
  simp only [perform, Program.run_map, run_commit, fails_of_healthy _ _ hhealthy,
    drawn_of_healthy _ _ hhealthy, hopen.held]
  rfl

/-- Conflicts are reported exactly, at every point of every run. An open transaction with writes
is refused by a conflict if and only if another transaction, with a write to one of the same keys,
was committed after it began, and its commit succeeds otherwise; one without writes is always
committed. And of the keys that were overwritten since an open transaction began, none is forgotten,
whichever commits came in between. -/
theorem Reaches.commit_exact (h : Reaches (ofOptions options) history e)
    (hopen : history.trace.IsOpen id) :
    ((∃ x, history.trace.written id x ≠ none) →
      ((∃ ns, ((perform (.commit id)).run e).1 = .error (.conflict ns)) ↔
        history.trace.Contended id) ∧
      (¬ history.trace.Contended id → ((perform (.commit id)).run e).1 = .ok .done)) ∧
    ((∀ x, history.trace.written id x = none) → ((perform (.commit id)).run e).1 = .ok .done) ∧
    ∀ tx x, e.HasOpen id tx →
      (e.store.WrittenAfter tx.start x ↔ history.trace.Overwritten id x) := by
  obtain ⟨tx, hopen⟩ := h.agrees.isOpen_iff.1 hopen
  have hchanges := h.agrees.changes_eq hopen
  -- no faults are to come, so how the commit goes is up to the store
  rw [run_commit_of_open h.healthy hopen]
  refine ⟨fun ⟨x, hx⟩ => ?_, fun hnone => ?_, fun tx' x hopen' => h.exact.remembers id tx' x hopen'⟩
  · have hsome : tx.changes ≠ .nothing := by
      rintro heq
      rw [← hchanges, heq] at hx
      exact hx rfl
    rcases commit_cases tx e.store with ⟨hfin, -⟩ | ⟨-, heq, -⟩ | ⟨-, -, store, happly, hc⟩ |
      ⟨-, -, err, happly, hc⟩
    · rw [hopen.2] at hfin
      cases hfin
    · exact absurd heq hsome
    · rw [hc]
      rcases h.exact.apply_cases hopen with ⟨hnot, -⟩ | ⟨-, ns, herror⟩
      · refine ⟨iff_of_false ?_ hnot, fun _ => rfl⟩
        rintro ⟨ns, heq⟩
        cases heq
      · rw [happly] at herror
        cases herror
    · rw [hc]
      rcases h.exact.apply_cases hopen with ⟨-, store, hok⟩ | ⟨hyes, ns, herror⟩
      · rw [happly] at hok
        cases hok
      · obtain rfl := Except.error.inj (happly.symm.trans herror)
        exact ⟨iff_of_true ⟨ns, rfl⟩ hyes, fun hnot => absurd hyes hnot⟩
  · have hpending : tx.pending = 0 := by
      rw [Transaction.pending_eq_zero_iff, hchanges]
      exact funext hnone
    have hc : tx.commit e.store = (.ok (), tx.close, e.store.leave tx.start) := by
      simp [Transaction.commit, hopen.2, hpending]
    rw [hc]
    rfl

/-- Two transactions that write one key, after the first of them was committed. -/
theorem commit_exact_of_two_writers :
    ∃ history e, Reaches (ofOptions {}) history e ∧ history.trace.IsOpen 1 ∧
      history.trace.Contended 1 ∧ ∃ ns, ((perform (.commit 1)).run e).1 = .error (.conflict ns) := by
  obtain ⟨history, e, h, htrace⟩ : ∃ history e, Reaches (ofOptions {}) history e ∧
      history.trace = [.commits 0, .writes 1 ("users", [1]) none,
        .writes 0 ("users", [1]) (some [7]), .opens 1, .opens 0] :=
    ⟨_, _, ((((((Reaches.refl : Reaches (ofOptions {}) [] (ofOptions {})).call
      (.createNamespace "users")).call .begin).call .begin).call
      (.put 0 "users" [1] [7])).call (.delete 1 "users" [1])).call (.commit 0), by decide +kernel⟩
  have hopen : history.trace.IsOpen 1 := by
    rw [htrace]
    exact ⟨by decide, .inl rfl⟩
  have hwritten : history.trace.written 1 ("users", [1]) ≠ none := by
    rw [htrace]
    decide
  have hcontended : history.trace.Contended 1 := by
    refine ⟨_, hwritten, ?_⟩
    rw [htrace]
    refine ⟨0, _, List.suffix_refl _, by decide, ?_, by decide⟩
    exact List.mem_cons_of_mem _ (List.mem_cons_of_mem _ List.mem_cons_self)
  exact ⟨history, e, h, hopen, hcontended,
    ((h.commit_exact hopen).1 ⟨_, hwritten⟩).1.2 hcontended⟩

end Engine

end SecondaryIndex
