import SecondaryIndex.Proofs.Engine.Conflict
import SecondaryIndex.Proofs.Index.Recorded
import SecondaryIndex.Proofs.Parallel.Alone
import SecondaryIndex.Proofs.Parallel.Flush

/-!
# Records that are written anew

A commit that writes what is there already cannot be told from the records, but it is a commit like any
other. Here is shown what it changes and what it leaves as it is (`Engine.Rewrites`): the ledger stays the
same, so everybody sees what they saw before; the records move up into the memtable, where they count and
weigh once more; and for each transaction that was open they are written by somebody else from then on. So
the commit of such a transaction is refused if it writes one of them (`Rewrites.refuses_iff`), and stays
refused however long it takes to come to it (`Spoils.refuses`).
-/

namespace SecondaryIndex

/-! ### Tables -/

/-- A table in which some records were written anew. They lie in the memtable from then on, which is flushed
if that makes it full. -/
structure Table.Rewritten (capacity : Nat) (P : Bytes → Prop) (table table' : Table) : Prop where
  get?_eq : table'.get? = table.get?
  layers : ∃ memtable : SortedMap Bytes Slot,
    (∀ key, P key → memtable.get? key = some (some Index.emptyValue)) ∧
    (∀ key, ¬ P key → memtable.get? key = table.memtable.get? key) ∧
    if 0 < capacity ∧ capacity ≤ memtable.size then table'.memtable = ∅ ∧ table'.flushed = table.contents
    else table'.memtable = memtable ∧ table'.flushed = table.flushed

namespace Table

variable {capacity : Nat} {P : Bytes → Prop} {table : Table}

/-- Forgetting last writes changes nothing of it. -/
theorem Rewritten.prune {table' : Table} (h : Rewritten capacity P table table') (horizon : Nat) :
    Rewritten capacity P table (table'.prune horizon) :=
  ⟨h.get?_eq, h.layers⟩

theorem rewritten_refl (hnone : ∀ key, ¬ P key)
    (hroomy : 0 < capacity → table.memtable.size < capacity) : Rewritten capacity P table table := by
  refine ⟨rfl, table.memtable, fun key hkey => absurd hkey (hnone key), fun _ _ => rfl, ?_⟩
  rw [if_neg fun hfull => Nat.not_lt_of_le hfull.2 (hroomy hfull.1)]
  exact ⟨rfl, rfl⟩

/-- A batch of records that are there. -/
theorem rewritten_write {batch : Batch} (seq : Nat)
    (hplaced : ∀ key, P key → batch.get? key = some (some Index.emptyValue))
    (hrest : ∀ key, ¬ P key → batch.get? key = none)
    (hthere : ∀ key, P key → table.get? key = some Index.emptyValue) :
    Rewritten capacity P table ((table.write seq batch).flushAt capacity) := by
  have hget : (table.write seq batch).get? = table.get? := by
    funext key
    rw [get?_write]
    by_cases hkey : P key
    · rw [hplaced key hkey, hthere key hkey]
      rfl
    · rw [hrest key hkey]
      rfl
  refine ⟨?_, batch.overlay table.memtable, fun key hkey => ?_, fun key hkey => ?_, ?_⟩
  · funext key
    rw [get?_flushAt, hget]
  · rw [SortedMap.get?_overlay, hplaced key hkey]
    rfl
  · rw [SortedMap.get?_overlay, hrest key hkey]
    rfl
  · unfold flushAt
    show if 0 < capacity ∧ capacity ≤ (table.write seq batch).memtable.size then _ else _
    by_cases hfull : 0 < capacity ∧ capacity ≤ (table.write seq batch).memtable.size
    · rw [if_pos hfull, if_pos hfull]
      -- what is flushed is what is read of the table, and that is the same as before
      refine ⟨rfl, SortedMap.ext_get? fun key => ?_⟩
      show (table.write seq batch).contents.get? key = table.contents.get? key
      rw [get?_contents, get?_contents, hget]
    · rw [if_neg hfull, if_neg hfull]
      exact ⟨rfl, rfl⟩

end Table

/-! ### Engines -/

namespace Engine

variable {e e' : Engine} {P : Place → Prop} {id : TransactionId} {tx : Transaction} {x : Place}

/-- An engine in which the records at some places, which were there, were written anew by one more commit. -/
structure Rewrites (P : Place → Prop) (e e' : Engine) : Prop where
  /-- Nobody sees anything else than before, and what they have pending is the same. -/
  ledger : e'.ledger = e.ledger
  transactions : e'.transactions = e.transactions
  openIterators : e'.store.openIterators = e.store.openIterators
  lastCommit : e'.store.lastCommit = e.store.lastCommit + 1
  /-- The records have moved. -/
  tables : ∀ ns, Option.Rel (Table.Rewritten e.store.options.memtableCapacity fun key => P (ns, key))
    (e.store.tables.get? ns) (e'.store.tables.get? ns)
  /-- The records count as written, for everybody who has begun before. -/
  writtenAfter : ∀ id tx, e.HasOpen id tx → ∀ x,
    e'.store.WrittenAfter tx.start x ↔ P x ∨ e.store.WrittenAfter tx.start x

section Recorded

variable {writes : WriteSet} (hchanges : WriteSet.changes writes = .placing P)
  (hthere : ∀ x, P x → e.store.read x = some Index.emptyValue)

include hchanges hthere

/-- To write what is there already leaves every record readable as before. -/
theorem read_recorded : (e.recorded writes).store.read = e.store.read := by
  funext x
  show (e.store.enter.install writes).read x = e.store.read x
  rw [Store.read_install, hchanges]
  show ((e.store.tables.get? x.1).bind fun table => (Changes.placing P x).getD (table.get? x.2)) =
    e.store.read x
  by_cases hx : P x
  · have hplaced : Changes.placing P x = some (some Index.emptyValue) := if_pos hx
    rw [hplaced, hthere x hx]
    -- a record that is there has a table
    obtain ⟨table, htable, -⟩ := Option.bind_eq_some_iff.1 (hthere x hx)
    rw [htable]
    rfl
  · have hplaced : Changes.placing P x = none := if_neg hx
    rw [hplaced]
    rfl

/-- Table by table only the sequence numbers of those records are new, as long as no memtable fills up. -/
theorem tables_recorded (hroomy : e.store.Roomy) (ns : Namespace) :
    Option.Rel (Table.Rewritten e.store.options.memtableCapacity fun key => P (ns, key))
      (e.store.tables.get? ns) ((e.recorded writes).store.tables.get? ns) := by
  show Option.Rel _ _ ((e.store.enter.install writes).tables.get? ns)
  unfold Store.install
  dsimp only
  rw [SortedMap.get?_mapEntries]
  show Option.Rel _ (e.store.tables.get? ns) ((e.store.tables.get? ns).map _)
  cases htable : e.store.tables.get? ns with
  | none => exact .none
  | some table =>
    have hbatch (key : Bytes) : (writes.getD ns ∅).get? key = Changes.placing P (ns, key) :=
      congrFun hchanges (ns, key)
    refine .some (.prune ?_ _)
    cases hwritten : writes.get? ns with
    | none =>
      refine Table.rewritten_refl (fun key hkey => ?_) fun hpos => hroomy hpos ns table htable
      have hplaced := hbatch key
      rw [SortedMap.getD, hwritten, Changes.placing, if_pos hkey] at hplaced
      cases hplaced
    | some batch =>
      rw [SortedMap.getD, hwritten] at hbatch
      refine Table.rewritten_write _ (fun key hkey => ?_) (fun key hkey => ?_) fun key hkey => ?_
      · exact (hbatch key).trans (if_pos hkey)
      · exact (hbatch key).trans (if_neg hkey)
      · have hread : e.store.read (ns, key) = table.get? key := Store.read_of_table htable
        rw [← hread, hthere _ hkey]

/-- A commit of records that are there. -/
theorem Sound.rewrites_recorded (hsound : e.Sound) (hroomy : e.store.Roomy) :
    e.Rewrites P (e.recorded writes) where
  ledger := Ledger.ext (read_recorded hchanges hthere) rfl
  transactions := rfl
  openIterators := rfl
  lastCommit := rfl
  tables := tables_recorded hchanges hthere hroomy
  writtenAfter id tx hopen x := by
    -- the transaction that wrote the records was in the registry along with the others
    have hopen' : e.begun.HasOpen id tx :=
      hasOpen_begun.2 (.inr ⟨Nat.ne_of_lt (hsound.lt_nextTransaction hopen), hopen⟩)
    have hplaced : (WriteSet.changes writes x).isSome ↔ P x := by
      rw [hchanges]
      unfold Changes.placing
      by_cases hx : P x <;> simp [hx]
    have htable (hx : (WriteSet.changes writes x).isSome) :
        ∃ table, e.begun.store.tables.get? x.1 = some table := by
      obtain ⟨table, htable, -⟩ := Option.bind_eq_some_iff.1 (hthere x (hplaced.1 hx))
      exact ⟨table, htable⟩
    have hafter := hsound.begun.writtenAfter_install hopen' htable
    rw [hplaced] at hafter
    exact hafter

end Recorded

/-! ### How commits go -/

/-- A commit is refused by a conflict. -/
def Refuses (e : Engine) (id : TransactionId) : Prop :=
  ∃ ns, ((commit id).run e).1 = .error (.conflict ns)

/-- Without faults a commit is refused only for a conflict. -/
theorem Sound.refuses_iff (h : e.Sound) (hhealthy : e.faults = .healthy) (hopen : e.HasOpen id tx) :
    e.Refuses id ↔ tx.Blocked e.store := by
  rcases h.run_commit_cases hhealthy hopen with ⟨hfree, hok⟩ | ⟨hblocked, hrefused⟩
  · refine iff_of_false ?_ hfree
    intro hrefused
    obtain ⟨ns, hns⟩ := hrefused
    rw [hok] at hns
    cases hns
  · exact iff_of_true hrefused hblocked

/-- Who is not refused is committed. -/
theorem Sound.commit_eq_ok (h : e.Sound) (hhealthy : e.faults = .healthy) (hopen : e.HasOpen id tx)
    (hfree : ¬ e.Refuses id) : ((commit id).run e).1 = .ok () := by
  rcases h.run_commit_cases hhealthy hopen with ⟨-, hok⟩ | ⟨-, hrefused⟩
  · exact hok
  · exact absurd hrefused hfree

/-- An open transaction is refused as before, or for a record that it writes as well. -/
theorem Rewrites.refuses_iff (h : e.Rewrites P e') (hsound : e.Sound) (hsound' : e'.Sound)
    (hhealthy : e.faults = .healthy) (hhealthy' : e'.faults = .healthy) (hopen : e.HasOpen id tx) :
    e'.Refuses id ↔ e.Refuses id ∨ ∃ x, tx.changes x ≠ none ∧ P x := by
  have hopen' : e'.HasOpen id tx := by
    unfold HasOpen
    rw [h.transactions]
    exact hopen
  rw [hsound'.refuses_iff hhealthy' hopen', hsound.refuses_iff hhealthy hopen]
  unfold Transaction.Blocked
  simp only [h.writtenAfter id tx hopen]
  constructor
  · intro hblocked
    obtain ⟨x, hx, hwritten | hafter⟩ := hblocked
    · exact .inr ⟨x, hx, hwritten⟩
    · exact .inl ⟨x, hx, hafter⟩
  · intro hor
    obtain ⟨x, hx, hafter⟩ | ⟨x, hx, hwritten⟩ := hor
    · exact ⟨x, hx, .inr hafter⟩
    · exact ⟨x, hx, .inl hwritten⟩

/-! ### How commits go later on -/

/-- A transaction was begun, and as long as it is open a place counts as written by another one. -/
structure Spoils (id : TransactionId) (x : Place) (e : Engine) : Prop where
  regular : e.Regular (id + 1)
  writtenAfter : ∀ tx, e.HasOpen id tx → e.store.WrittenAfter tx.start x

theorem Spoils.move {event? : Option (LedgerEvent Place Bytes)} (h : Spoils id x e)
    (hmove : Moves e event? e') : Spoils id x e' := by
  refine ⟨h.regular.move hmove, fun tx hopen => ?_⟩
  have hsound := h.regular.sound
  cases hmove with
  | rearranges healthy alike =>
    have hlast := alike.lastWrite?_eq
    have hafter := h.writtenAfter tx hopen
    unfold Store.WrittenAfter at hafter ⊢
    rw [hlast]
    exact hafter
  | begins healthy =>
    rcases hasOpen_begun.1 hopen with ⟨heq, -⟩ | ⟨-, hold⟩
    · -- the number has been given out before
      exact absurd h.regular.given (heq ▸ Nat.not_succ_le_self _)
    · exact h.writtenAfter tx hold
  | writes healthy written =>
    obtain ⟨old, hold, -, rfl⟩ := of_writtenTo written
    rcases hasOpen_keeping.1 hopen with ⟨rfl, rfl, -⟩ | ⟨-, hrest⟩
    · exact h.writtenAfter old hold
    · exact h.writtenAfter tx hrest
  | commitsNothing healthy _ nothing => exact h.writtenAfter tx (hasOpen_closed.1 hopen).2
  | @commits j t store faults healthy hj something applied =>
    obtain ⟨-, rfl⟩ := Store.apply_eq_ok_iff.1 applied
    obtain ⟨-, hold⟩ := hasOpen_closed.1 hopen
    -- what is newer than the start of an open transaction is not forgotten
    have htable (hsome : (WriteSet.changes t.writes x).isSome) :=
      hsound.exists_table hj (Option.isSome_iff_ne_none.1 hsome)
    exact (hsound.writtenAfter_install hold htable).2 (.inr (h.writtenAfter tx hold))
  | closes healthy _ => exact h.writtenAfter tx (hasOpen_closed.1 hopen).2
  | drops j =>
    have hafter := h.writtenAfter tx (hasOpen_discard.1 hopen).2
    rcases store_discard e j with ⟨t, -, hstore⟩ | ⟨-, hstore⟩ <;> rw [hstore] <;> exact hafter

theorem upholds_spoils (id : TransactionId) (x : Place) : Upholds (Spoils id x) :=
  ⟨fun h => h.regular.healthy, fun h hmove => h.move hmove⟩

/-- A transaction that writes such a place is refused. -/
theorem Spoils.refuses (h : Spoils id x e) (hopen : e.HasOpen id tx) (hx : tx.changes x ≠ none) :
    e.Refuses id :=
  (h.regular.sound.refuses_iff h.regular.healthy hopen).2 ⟨x, hx, h.writtenAfter tx hopen⟩

end Engine

end SecondaryIndex
