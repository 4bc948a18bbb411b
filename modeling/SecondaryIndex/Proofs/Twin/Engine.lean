import SecondaryIndex.Proofs.Engine.Conflict
import SecondaryIndex.Proofs.Engine.Works
import SecondaryIndex.Proofs.Parallel.Program

/-!
# Engines that are alike but for one namespace

Two engines have been through the same, except that the second one has written to one more namespace. They are
alike in all that can be told without that namespace (`Engine.AlikeBut`): the tables of the other namespaces are
the same with all their layers, so that tallies and weights are the same, and so are the commit numbers, the
registry, and what the transactions have written elsewhere.

A call elsewhere answers alike in both and leaves them alike (`AlikeBut.tracks_put` and so on). What is read
and written in the namespace itself, in the second engine only, goes unnoticed (`Program.Unnoticed`). Commits
are another matter, since the second engine has more to refuse; they are in step where both have something to
commit or neither has, and both or neither refuse it (`AlikeBut.commit`).
-/

namespace SecondaryIndex

namespace Program

variable {ε σ τ β γ : Type} {R : σ → τ → Prop}

/-- Nothing is to be noticed in the first of two states if a program is run from the second. -/
def Unnoticed (R : σ → τ → Prop) (y : ExceptT ε (StateM τ) β) : Prop :=
  ∀ s t, R s t → R s (y.run t).2

namespace Unnoticed

theorem pure (b : β) : Unnoticed R (Pure.pure b : ExceptT ε (StateM τ) β) := fun _ _ h => h

/-- What comes first goes unnoticed also where it fails, so the rest matters only where it does not. -/
theorem bind {y : ExceptT ε (StateM τ) β} {f : β → ExceptT ε (StateM τ) γ} (h : Unnoticed R y)
    (hrest : ∀ b, Unnoticed R (f b)) : Unnoticed R (y >>= f) := by
  intro s t hst
  have hfirst := h s t hst
  rw [run_bind]
  rcases hy : y.run t with ⟨_ | b, t'⟩ <;> rw [hy] at hfirst
  · exact hfirst
  · exact hrest b s t' hfirst

/-- A loop goes unnoticed if each round of it does, wherever it stops. -/
theorem forM {δ : Type} {l : List δ} {f : δ → ExceptT ε (StateM τ) PUnit} (h : ∀ d, Unnoticed R (f d)) :
    Unnoticed R (l.forM f) := by
  induction l with
  | nil => exact .pure _
  | cons d l ih =>
    rw [List.forM_eq_forM, List.forM_cons, ← List.forM_eq_forM]
    exact (h d).bind fun _ => ih

end Unnoticed

end Program

/-- The namespace whose records a call on a store reads, writes or weighs. -/
def StoreCall.touched? : StoreCall → Option Namespace
  | .recentTally ns _ => some ns
  | .olderSize ns _ => some ns
  | .get _ ns _ => some ns
  | .put _ ns _ _ => some ns
  | .delete _ ns _ => some ns
  | .iterator _ ns _ => some ns
  | _ => none

/-- Two transactions that have done the same, but that only the second one has written to a namespace. -/
structure Transaction.AlikeBut (extra : Namespace) (tx tx' : Transaction) : Prop where
  start : tx'.start = tx.start
  finished : tx'.finished = tx.finished
  writes : ∀ ns, ns ≠ extra → tx'.writes.get? ns = tx.writes.get? ns
  spared : tx.writes.get? extra = none

/-- Two stores that are the same but for the records of a namespace, which exists in both or in neither. -/
structure Store.AlikeBut (extra : Namespace) (s s' : Store) : Prop where
  options : s'.options = s.options
  lastCommit : s'.lastCommit = s.lastCommit
  openIterators : s'.openIterators = s.openIterators
  active : s'.active = s.active
  tables : ∀ ns, ns ≠ extra → s'.tables.get? ns = s.tables.get? ns
  there : s'.hasNamespace extra = s.hasNamespace extra

/-- Two engines without faults that are alike but for a namespace. -/
structure Engine.AlikeBut (extra : Namespace) (e e' : Engine) : Prop where
  healthy : e.faults = .healthy
  healthy' : e'.faults = .healthy
  next : e'.nextTransaction = e.nextTransaction
  store : e.store.AlikeBut extra e'.store
  transactions : ∀ id, Option.Rel (Transaction.AlikeBut extra) (e.transactions.get? id)
    (e'.transactions.get? id)

section Parts

variable {extra ns : Namespace} {tx tx' : Transaction} {s s' : Store}

/-! ### Transactions -/

namespace Transaction.AlikeBut

/-- Engines that are alike begin their next transaction under one number, from one commit. -/
theorem begun (start : Nat) : Transaction.AlikeBut extra { start } { start } :=
  ⟨rfl, rfl, fun _ _ => rfl, rfl⟩

/-- A transaction that is closed has no writes left to differ in. -/
theorem close (h : tx.AlikeBut extra tx') : tx.close.AlikeBut extra tx'.close :=
  ⟨h.start, rfl, fun _ _ => rfl, rfl⟩

/-- Elsewhere two transactions have buffered the same. -/
theorem batch (h : tx.AlikeBut extra tx') (hns : ns ≠ extra) : tx'.batch ns = tx.batch ns := by
  unfold Transaction.batch SortedMap.getD
  rw [h.writes ns hns]

/-- Transactions that are alike are finished together. -/
theorem requireOpen (h : tx.AlikeBut extra tx') : tx'.requireOpen = tx.requireOpen := by
  unfold Transaction.requireOpen
  rw [h.finished]

/-- Elsewhere two transactions have changed the same. -/
theorem changes (h : tx.AlikeBut extra tx') {x : Place} (hx : x.1 ≠ extra) :
    tx'.changes x = tx.changes x := by
  show (tx'.batch x.1).get? x.2 = (tx.batch x.1).get? x.2
  rw [h.batch hx]

/-- The first one of two transactions that are alike has spared the namespace. -/
theorem changes_spared (h : tx.AlikeBut extra tx') (key : Bytes) : tx.changes (extra, key) = none := by
  show (tx.batch extra).get? key = none
  unfold Transaction.batch SortedMap.getD
  rw [h.spared]
  rfl

/-- The same is written elsewhere. -/
theorem write (h : tx.AlikeBut extra tx') (hns : ns ≠ extra) (key : Bytes) (slot : Slot) :
    Transaction.AlikeBut extra
      { tx with writes := tx.writes.insert ns ((tx.batch ns).insert key slot) }
      { tx' with writes := tx'.writes.insert ns ((tx'.batch ns).insert key slot) } := by
  refine ⟨h.start, h.finished, fun n hn => ?_, ?_⟩
  · simp only [SortedMap.get?_insert, h.batch hns]
    split
    · rfl
    · exact h.writes n hn
  · simp only [SortedMap.get?_insert, if_neg hns]
    exact h.spared

/-- The second transaction writes to the namespace. -/
theorem write_extra (h : tx.AlikeBut extra tx') (batch : Batch) :
    tx.AlikeBut extra { tx' with writes := tx'.writes.insert extra batch } := by
  refine ⟨h.start, h.finished, fun n hn => ?_, h.spared⟩
  simp only [SortedMap.get?_insert, if_neg hn.symm]
  exact h.writes n hn

end Transaction.AlikeBut

/-! ### Stores -/

namespace Store.AlikeBut

variable (h : s.AlikeBut extra s')

theorem refl (extra : Namespace) (s : Store) : s.AlikeBut extra s :=
  ⟨rfl, rfl, rfl, rfl, fun _ _ => rfl, rfl⟩

include h

/-- The tables of other namespaces are the same in both stores. -/
theorem table (hns : ns ≠ extra) : s'.table ns = s.table ns := by
  unfold Store.table
  rw [h.tables ns hns]

/-- The namespace is there in both stores or in neither, whatever its table holds. -/
theorem hasNamespace (ns : Namespace) : s'.hasNamespace ns = s.hasNamespace ns := by
  by_cases hns : ns = extra
  · rw [hns]
    exact h.there
  · unfold Store.hasNamespace SortedMap.contains
    rw [h.tables ns hns]

/-- Elsewhere it is remembered of a key that the same commit has written it last. -/
theorem lastWrite? {x : Place} (hx : x.1 ≠ extra) : s'.lastWrite? x = s.lastWrite? x := by
  unfold Store.lastWrite?
  rw [h.tables _ hx]

/-- Elsewhere the recent records are as many in both stores, and weigh the same. -/
theorem recentTally (hns : ns ≠ extra) (range : Range) :
    s'.recentTally ns range = s.recentTally ns range := by
  unfold Store.recentTally Store.totalSize Store.recordSize
  rw [h.table hns, h.options]

/-- Elsewhere the flushed records weigh the same in both stores. -/
theorem olderSize (hns : ns ≠ extra) (range : Range) :
    s'.olderSize ns range = s.olderSize ns range := by
  unfold Store.olderSize Store.totalSize Store.recordSize
  rw [h.table hns, h.options]

/-- Stores with one commit number register the same start. -/
theorem enter : s.enter.AlikeBut extra s'.enter := by
  refine ⟨h.options, h.lastCommit, h.openIterators, ?_, h.tables, h.there⟩
  unfold Store.enter
  rw [h.active, h.lastCommit]

/-- A transaction is struck off both registries. -/
theorem leave (start : Nat) : (s.leave start).AlikeBut extra (s'.leave start) := by
  refine ⟨h.options, h.lastCommit, h.openIterators, ?_, h.tables, h.there⟩
  unfold Store.leave
  rw [h.active]

theorem iteratorOpened : s.iteratorOpened.AlikeBut extra s'.iteratorOpened :=
  ⟨h.options, h.lastCommit, congrArg (· + 1) h.openIterators, h.active, h.tables, h.there⟩

theorem iteratorReleased : s.iteratorReleased.AlikeBut extra s'.iteratorReleased :=
  ⟨h.options, h.lastCommit, congrArg Store.countDown h.openIterators, h.active, h.tables, h.there⟩

/-- The same table is put under a name in both, or tables are put under the name of the namespace. -/
theorem insert {t t' : Table} (hsame : ns ≠ extra → t' = t) :
    Store.AlikeBut extra { s with tables := s.tables.insert ns t }
      { s' with tables := s'.tables.insert ns t' } := by
  refine ⟨h.options, h.lastCommit, h.openIterators, h.active, fun n hn => ?_, ?_⟩
  · simp only [SortedMap.get?_insert]
    split
    · next heq => rw [hsame (heq ▸ hn)]
    · exact h.tables n hn
  · have hthere := h.there
    unfold Store.hasNamespace SortedMap.contains at hthere ⊢
    simp only [SortedMap.get?_insert]
    split
    · rfl
    · exact hthere

/-- A namespace that is created, also the spared one itself, is created in both stores. -/
theorem createNamespace (ns : Namespace) :
    (s.createNamespace ns).AlikeBut extra (s'.createNamespace ns) := by
  have hsame : s'.tables.contains ns = s.tables.contains ns := h.hasNamespace ns
  unfold Store.createNamespace
  rw [hsame]
  split
  · exact h
  · exact h.insert fun _ => rfl

/-- A flush is refused by both stores or by neither, and moves the same records elsewhere. -/
theorem flush (ns : Namespace) :
    Program.Agree (Store.AlikeBut extra) (s.flush ns) (s'.flush ns) := by
  have hthere := h.hasNamespace ns
  unfold Store.hasNamespace SortedMap.contains at hthere
  unfold Store.flush Store.table
  -- a table is there in both or in neither, even that of the namespace itself
  cases ht : s.tables.get? ns with
  | none =>
    rw [ht, Option.isSome_none, Option.isSome_eq_false_iff, Option.isNone_iff_eq_none] at hthere
    rw [hthere]
    exact .error _
  | some t =>
    rw [ht, Option.isSome_some] at hthere
    obtain ⟨t', ht'⟩ := Option.isSome_iff_exists.1 hthere
    rw [ht']
    refine .ok (h.insert fun hns => ?_)
    have hsame := h.tables ns hns
    rw [ht, ht'] at hsame
    rw [Option.some.inj hsame]

/-- A flush of all tables flushes that of the spared namespace too, which does not matter. -/
theorem flushAll : s.flushAll.AlikeBut extra s'.flushAll := by
  refine ⟨h.options, h.lastCommit, h.openIterators, h.active, fun n hn => ?_, ?_⟩
  · simp only [Store.flushAll, SortedMap.get?_mapValues, h.tables n hn]
  · have hthere := h.there
    unfold Store.hasNamespace SortedMap.contains at hthere ⊢
    simp only [Store.flushAll, SortedMap.get?_mapValues, Option.isSome_map, hthere]

/-- What is written elsewhere becomes the same tables, flushed and pruned alike. -/
theorem install (htx : tx.AlikeBut extra tx') :
    (s.install tx.writes).AlikeBut extra (s'.install tx'.writes) := by
  -- what is forgotten goes by the registry and the commit number, which the two share
  have hhorizon : ({ s' with lastCommit := s'.lastCommit + 1 } : Store).horizon =
      ({ s with lastCommit := s.lastCommit + 1 } : Store).horizon := by
    unfold Store.horizon
    rw [h.active, h.lastCommit]
  refine ⟨h.options, congrArg (· + 1) h.lastCommit, h.openIterators, h.active, fun n hn => ?_, ?_⟩
  · simp only [Store.install, SortedMap.get?_mapEntries, h.tables n hn, htx.writes n hn, hhorizon]
    rw [h.lastCommit, h.options]
  · rw [Store.hasNamespace_install, Store.hasNamespace_install, h.there]

end Store.AlikeBut

end Parts

/-! ### Engines -/

namespace Engine

open Program

variable {extra ns : Namespace} {e e' : Engine} {id : TransactionId} {tx tx' : Transaction}

theorem alikeBut_ofOptions (extra : Namespace) (options : StoreOptions) :
    (ofOptions options).AlikeBut extra (ofOptions options) :=
  ⟨rfl, rfl, rfl, .refl extra _, fun _ => .none⟩

namespace AlikeBut

section Alike

variable (h : e.AlikeBut extra e')

include h

theorem drawn_eq (call : EngineCall) : e.drawn call = e := drawn_of_healthy e call h.healthy

theorem drawn_eq' (call : EngineCall) : e'.drawn call = e' := drawn_of_healthy e' call h.healthy'

/-- A transaction that one engine holds is held by the other, and is alike there. -/
theorem held (id : TransactionId) : Agree (Transaction.AlikeBut extra) (e.held id) (e'.held id) := by
  have htx := h.transactions id
  unfold Engine.held
  generalize e.transactions.get? id = slot at htx
  generalize e'.transactions.get? id = slot' at htx
  cases htx with
  | none => exact .error _
  | some hsame => exact .ok hsame

/-- Something is done with a transaction, and it is done alike if it is done alike with alike
transactions. -/
theorem agree_held {α α' : Type} {A : α → α' → Prop} {use : Transaction → Except EngineError α}
    {use' : Transaction → Except EngineError α'}
    (huse : ∀ {tx tx'}, tx.AlikeBut extra tx' → Agree A (use tx) (use' tx')) (id : TransactionId) :
    Agree A (e.held id >>= use) (e'.held id >>= use') := by
  have hheld := h.held id
  generalize e.held id = held at hheld
  generalize e'.held id = held' at hheld
  cases hheld with
  | error err => exact .error err
  | ok hsame => exact huse hsame

/-- What a transaction reads elsewhere is the same in both engines. -/
theorem recordOf (hns : ns ≠ extra) (id : TransactionId) (key : Bytes) :
    Agree Eq (e.recordOf id ns key) (e'.recordOf id ns key) := by
  refine h.agree_held (fun {tx tx'} hsame => .of_eq ?_) id
  unfold Transaction.get
  rw [hsame.requireOpen, hsame.batch hns, h.store.table hns]

/-- What a transaction lists elsewhere is the same in both engines. -/
theorem keysOf (hns : ns ≠ extra) (id : TransactionId) (range : Range) :
    Agree Eq (e.keysOf id ns range) (e'.keysOf id ns range) := by
  refine h.agree_held (fun {tx tx'} hsame => .of_eq ?_) id
  unfold Transaction.view
  rw [hsame.requireOpen, hsame.batch hns, h.store.table hns]

/-- A write elsewhere is refused by both engines or by neither. -/
theorem writtenTo (hns : ns ≠ extra) (id : TransactionId) (key : Bytes) (slot : Slot) :
    Agree (Transaction.AlikeBut extra) (e.writtenTo id ns key slot) (e'.writtenTo id ns key slot) := by
  refine h.agree_held (fun {tx tx'} hsame => ?_) id
  unfold Transaction.write
  rw [hsame.requireOpen, h.store.table hns]
  cases tx.requireOpen with
  | error err => exact .error err
  | ok u =>
    cases e.store.table ns with
    | error err => exact .error err
    | ok table => exact .ok (hsame.write hns key slot)

/-! #### Alike engines stay alike -/

theorem withStore {s s' : Store} (hs : s.AlikeBut extra s') :
    Engine.AlikeBut extra { e with store := s } { e' with store := s' } :=
  ⟨h.healthy, h.healthy', h.next, hs, h.transactions⟩

/-- Transactions that are alike stay so under their number. -/
theorem keeping (htx : tx.AlikeBut extra tx') (id : TransactionId) :
    (e.keeping id tx).AlikeBut extra (e'.keeping id tx') := by
  refine ⟨h.healthy, h.healthy', h.next, h.store, fun j => ?_⟩
  simp only [Engine.keeping, SortedMap.get?_insert]
  split
  · exact .some htx
  · exact h.transactions j

theorem begun : e.begun.AlikeBut extra e'.begun := by
  refine ⟨h.healthy, h.healthy', congrArg (· + 1) h.next, h.store.enter, fun j => ?_⟩
  simp only [Engine.begun, SortedMap.get?_insert, h.next, h.store.lastCommit]
  split
  · exact .some (.begun _)
  · exact h.transactions j

/-- Alike transactions end in the same way. -/
theorem ended {ending : Transaction → Store → Except EngineError Unit × Transaction × Store}
    (htx : (ending tx e.store).2.1.AlikeBut extra (ending tx' e'.store).2.1)
    (hs : (ending tx e.store).2.2.AlikeBut extra (ending tx' e'.store).2.2) (id : TransactionId) :
    (e.ended id tx ending).AlikeBut extra (e'.ended id tx' ending) :=
  (h.keeping htx id).withStore hs

/-- A transaction is given up in both engines, whatever it has written in the spared namespace. -/
theorem discard (id : TransactionId) : (e.discard id).AlikeBut extra (e'.discard id) := by
  have htx := h.transactions id
  unfold Engine.discard
  generalize e.transactions.get? id = slot at htx
  generalize e'.transactions.get? id = slot' at htx
  cases htx with
  | none => exact h
  | @some tx tx' hsame =>
    have hstore : (tx.abandon e.store).AlikeBut extra (tx'.abandon e'.store) := by
      unfold Transaction.abandon
      rw [hsame.finished, hsame.start]
      split
      · exact h.store
      · exact h.store.leave _
    refine ⟨h.healthy, h.healthy', h.next, hstore, fun j => ?_⟩
    simp only [SortedMap.get?_erase]
    split
    · exact .none
    · exact h.transactions j

end Alike

/-! ### Calls in step -/

/-- A call that draws no failure is in step if what comes after the draw is. -/
theorem tracks_guarded {α α' : Type} {A : α → α' → Prop} (call : EngineCall) {x : EngineM α}
    {x' : EngineM α'} {r : Engine → Except EngineError α × Engine}
    {r' : Engine → Except EngineError α' × Engine}
    (hx : ∀ e, x.run e = if e.fails call then (.error (.injected call), e.drawn call) else r e)
    (hx' : ∀ e, x'.run e = if e.fails call then (.error (.injected call), e.drawn call) else r' e)
    (hgo : ∀ e e', e.AlikeBut extra e' → e.drawn call = e → e'.drawn call = e' →
      Agree A (r e).1 (r' e').1 ∧ (r e).2.AlikeBut extra (r' e').2) :
    Tracks (Engine.AlikeBut extra) A x x' := by
  intro e e' h
  rw [hx, hx', fails_of_healthy e call h.healthy, fails_of_healthy e' call h.healthy']
  exact hgo e e' h (h.drawn_eq call) (h.drawn_eq' call)

theorem tracks_begin : Tracks (Engine.AlikeBut extra) Eq begin begin := by
  refine tracks_guarded .begin run_begin run_begin fun e e' h hdrawn hdrawn' => ?_
  rw [hdrawn, hdrawn']
  exact ⟨.ok h.next.symm, h.begun⟩

/-- A look-up elsewhere gives the same in both engines. -/
theorem tracks_lookup (hns : ns ≠ extra) (id : TransactionId) (key : Bytes) :
    Tracks (Engine.AlikeBut extra) Eq (lookup id ns key) (lookup id ns key) := by
  refine tracks_guarded .get (run_lookup · id ns key) (run_lookup · id ns key)
    fun e e' h hdrawn hdrawn' => ?_
  rw [hdrawn, hdrawn']
  exact ⟨h.recordOf hns id key, h⟩

/-- A write, whichever of the two calls makes it. -/
theorem tracks_write (hns : ns ≠ extra) (key : Bytes) (slot : Slot) (call : EngineCall)
    {x : EngineM Unit}
    (hx : ∀ e : Engine, x.run e =
      if e.fails call then (.error (.injected call), e.drawn call)
      else match e.writtenTo id ns key slot with
        | .ok tx => (.ok ⟨⟩, (e.drawn call).keeping id tx)
        | .error err => (.error err, e.drawn call)) :
    Tracks (Engine.AlikeBut extra) Eq x x := by
  refine tracks_guarded call hx hx fun e e' h hdrawn hdrawn' => ?_
  rw [hdrawn, hdrawn']
  have hwritten := h.writtenTo hns id key slot
  generalize e.writtenTo id ns key slot = w at hwritten
  generalize e'.writtenTo id ns key slot = w' at hwritten
  cases hwritten with
  | ok hsame => exact ⟨.ok rfl, h.keeping hsame id⟩
  | error err => exact ⟨.error err, h⟩

/-- A write elsewhere is in step. -/
theorem tracks_put (hns : ns ≠ extra) (id : TransactionId) (key value : Bytes) :
    Tracks (Engine.AlikeBut extra) Eq (put id ns key value) (put id ns key value) :=
  tracks_write hns key (some value) .put (run_put · id ns key value)

theorem tracks_delete (hns : ns ≠ extra) (id : TransactionId) (key : Bytes) :
    Tracks (Engine.AlikeBut extra) Eq (delete id ns key) (delete id ns key) :=
  tracks_write hns key none .delete (run_delete · id ns key)

/-- An iterator that is opened elsewhere walks the same keys in both engines. -/
theorem tracks_openIterator (hns : ns ≠ extra) (id : TransactionId) (range : Range) :
    Tracks (Engine.AlikeBut extra) Eq (openIterator id ns range) (openIterator id ns range) := by
  refine tracks_guarded .iterator (run_openIterator · id ns range) (run_openIterator · id ns range)
    fun e e' h hdrawn hdrawn' => ?_
  rw [hdrawn, hdrawn']
  have hkeys := h.keysOf hns id range
  generalize e.keysOf id ns range = keys at hkeys
  generalize e'.keysOf id ns range = keys' at hkeys
  cases hkeys with
  | error err => exact ⟨.error err, h⟩
  | ok hsame =>
    subst hsame
    exact ⟨.ok rfl, h.withStore h.store.iteratorOpened⟩

/-- A rollback forgets what was written, the writes to the spared namespace included. -/
theorem tracks_rollback (id : TransactionId) :
    Tracks (Engine.AlikeBut extra) Eq (rollback id) (rollback id) := by
  refine tracks_guarded .rollback (run_rollback · id) (run_rollback · id)
    fun e e' h hdrawn hdrawn' => ?_
  rw [hdrawn, hdrawn']
  have hheld := h.held id
  generalize e.held id = held at hheld
  generalize e'.held id = held' at hheld
  cases hheld with
  | error err => exact ⟨.error err, h⟩
  | @ok tx tx' hsame =>
    cases hfin : tx.finished with
    | true =>
      -- a transaction that has ended stays as it is
      have hrun : tx.rollback e.store = (.error .transactionClosed, tx, e.store) := if_pos hfin
      have hrun' : tx'.rollback e'.store = (.error .transactionClosed, tx', e'.store) :=
        if_pos (hsame.finished.trans hfin)
      refine ⟨?_, h.ended ?_ ?_ id⟩
      · show Agree Eq (tx.rollback e.store).1 (tx'.rollback e'.store).1
        rw [hrun, hrun']
        exact .error _
      · rw [hrun, hrun']
        exact hsame
      · rw [hrun, hrun']
        exact h.store
    | false =>
      have hopen : ¬ tx.finished = true := by
        rw [hfin]
        exact Bool.false_ne_true
      have hrun : tx.rollback e.store = (.ok (), tx.close, e.store.leave tx.start) := if_neg hopen
      have hrun' : tx'.rollback e'.store = (.ok (), tx'.close, e'.store.leave tx.start) := by
        rw [← hsame.start]
        exact if_neg (hsame.finished ▸ hopen)
      refine ⟨?_, h.ended ?_ ?_ id⟩
      · show Agree Eq (tx.rollback e.store).1 (tx'.rollback e'.store).1
        rw [hrun, hrun']
        exact .ok rfl
      · rw [hrun, hrun']
        exact hsame.close
      · rw [hrun, hrun']
        exact h.store.leave tx.start

theorem tracks_status : Tracks (Engine.AlikeBut extra) Eq status status := by
  intro e e' h
  rw [run_status, run_status, fails_of_healthy e .status h.healthy,
    fails_of_healthy e' .status h.healthy', h.drawn_eq, h.drawn_eq']
  exact ⟨.ok rfl, h⟩

/-- What is told of the recent records elsewhere is the same. -/
theorem tracks_recentTally (hns : ns ≠ extra) (range : Range) :
    Tracks (Engine.AlikeBut extra) Eq (recentTally ns range) (recentTally ns range) := by
  refine tracks_guarded .recentTally (run_recentTally · ns range) (run_recentTally · ns range)
    fun e e' h hdrawn hdrawn' => ?_
  rw [hdrawn, hdrawn']
  exact ⟨.of_eq (h.store.recentTally hns range), h⟩

theorem tracks_olderSize (hns : ns ≠ extra) (range : Range) :
    Tracks (Engine.AlikeBut extra) Eq (olderSize ns range) (olderSize ns range) := by
  refine tracks_guarded .olderSize (run_olderSize · ns range) (run_olderSize · ns range)
    fun e e' h hdrawn hdrawn' => ?_
  rw [hdrawn, hdrawn']
  exact ⟨.of_eq (h.store.olderSize hns range), h⟩

/-- Something is done to the store that keeps stores alike. -/
theorem tracks_modify {f : Engine → Engine}
    (hf : ∀ e e', e.AlikeBut extra e' → (f e).AlikeBut extra (f e')) :
    Tracks (Engine.AlikeBut extra) Eq (do modifyThe Engine f; pure .done : EngineM StoreAnswer)
      (do modifyThe Engine f; pure .done) :=
  .bind (.modify hf) fun _ _ _ => .pure rfl

/-- A flush answers alike, in the spared namespace as well. -/
theorem tracks_flush (ns : Namespace) :
    Tracks (Engine.AlikeBut extra) Eq (perform (.flush ns)) (perform (.flush ns)) := by
  intro e e' h
  simp only [perform, run_bind, run_ask]
  have hflushed := h.store.flush ns
  generalize e.store.flush ns = flushed at hflushed
  generalize e'.store.flush ns = flushed' at hflushed
  cases hflushed with
  | ok halike => exact ⟨.ok rfl, h.withStore halike⟩
  | error err => exact ⟨.error err, h⟩

/-- Every call stays in step that reads and writes elsewhere, except for commits. -/
theorem tracks_perform {call : StoreCall} (hcommit : ∀ id, call ≠ .commit id)
    (hns : ∀ ns, call.touched? = some ns → ns ≠ extra) :
    Tracks (Engine.AlikeBut extra) Eq (perform call) (perform call) := by
  cases call with
  | createNamespace ns => exact tracks_modify fun _ _ h => h.withStore (h.store.createNamespace ns)
  | flush ns => exact tracks_flush ns
  | flushAll => exact tracks_modify fun _ _ h => h.withStore h.store.flushAll
  | recentTally ns range => exact .congr _ (tracks_recentTally (hns ns rfl) range)
  | olderSize ns range => exact .congr _ (tracks_olderSize (hns ns rfl) range)
  | begin => exact .congr _ tracks_begin
  | get id ns key => exact .congr _ (tracks_lookup (hns ns rfl) id key)
  | put id ns key value => exact .congr _ (tracks_put (hns ns rfl) id key value)
  | delete id ns key => exact .congr _ (tracks_delete (hns ns rfl) id key)
  | iterator id ns range => exact .congr _ (tracks_openIterator (hns ns rfl) id range)
  | releaseIterator => exact tracks_modify fun _ _ h => h.withStore h.store.iteratorReleased
  | commit id => exact absurd rfl (hcommit id)
  | rollback id => exact .congr _ (tracks_rollback id)
  | drop id => exact tracks_modify fun _ _ h => h.discard id

/-! ### Calls that go unnoticed -/

/-- A look-up in the spared namespace is not noticed elsewhere, whatever it finds. -/
theorem unnoticed_lookup (id : TransactionId) (key : Bytes) :
    Unnoticed (Engine.AlikeBut extra) (lookup id extra key) := by
  intro e e' h
  rw [run_lookup, h.drawn_eq', fails_of_healthy e' .get h.healthy']
  exact h

/-- A write to the namespace in the second engine. -/
theorem keeping_extra (h : e.AlikeBut extra e') {key : Bytes} {slot : Slot}
    (hwritten : e'.writtenTo id extra key slot = .ok tx') : e.AlikeBut extra (e'.keeping id tx') := by
  obtain ⟨old, hopen, -, rfl⟩ := of_writtenTo hwritten
  refine ⟨h.healthy, h.healthy', h.next, h.store, fun j => ?_⟩
  simp only [Engine.keeping, SortedMap.get?_insert]
  split
  -- what the transaction has written to the namespace is not compared
  · next heq =>
    have htx := h.transactions id
    rw [hopen.1] at htx
    rw [← heq]
    generalize e.transactions.get? id = first at htx ⊢
    cases htx with
    | some hsame => exact .some (hsame.write_extra _)
  · exact h.transactions j

/-- A write to the spared namespace is buffered where nobody else looks, or it is refused. -/
theorem unnoticed_write {x : EngineM Unit} (call : EngineCall) {key : Bytes} {slot : Slot}
    (hx : ∀ e : Engine, x.run e =
      if e.fails call then (.error (.injected call), e.drawn call)
      else match e.writtenTo id extra key slot with
        | .ok tx => (.ok ⟨⟩, (e.drawn call).keeping id tx)
        | .error err => (.error err, e.drawn call)) :
    Unnoticed (Engine.AlikeBut extra) x := by
  intro e e' h
  rw [hx, h.drawn_eq', fails_of_healthy e' call h.healthy', if_neg Bool.false_ne_true]
  cases hwritten : e'.writtenTo id extra key slot with
  | error err => exact h
  | ok tx => exact h.keeping_extra hwritten

theorem unnoticed_put (id : TransactionId) (key value : Bytes) :
    Unnoticed (Engine.AlikeBut extra) (put id extra key value) :=
  unnoticed_write .put (run_put · id extra key value)

theorem unnoticed_delete (id : TransactionId) (key : Bytes) :
    Unnoticed (Engine.AlikeBut extra) (delete id extra key) :=
  unnoticed_write .delete (run_delete · id extra key)

end AlikeBut

/-! ### Commits -/

/-- Outcomes are the same, or both are conflicts, in whichever namespaces. -/
inductive SameOrConflict {α : Type} : Except EngineError α → Except EngineError α → Prop
  | same (outcome : Except EngineError α) : SameOrConflict outcome outcome
  | conflict (ns ns' : Namespace) : SameOrConflict (.error (.conflict ns)) (.error (.conflict ns'))

/-- To rename an answer does not turn a conflict into anything else. -/
theorem SameOrConflict.map {α β : Type} {r r' : Except EngineError α} (h : SameOrConflict r r')
    (f : α → β) : SameOrConflict (r.map f) (r'.map f) := by
  cases h with
  | same outcome => exact .same _
  | conflict ns ns' => exact .conflict ns ns'

/-- Alike transactions are committed alike if both or neither have something to commit, and both or neither
are refused. -/
theorem AlikeBut.commit (h : e.AlikeBut extra e') (hsound : e.Sound) (hsound' : e'.Sound)
    (hopen : e.HasOpen id tx) (hopen' : e'.HasOpen id tx') (htx : tx.AlikeBut extra tx')
    (hnothing : tx'.changes = .nothing ↔ tx.changes = .nothing)
    (hblocked : tx'.Blocked e'.store ↔ tx.Blocked e.store) :
    SameOrConflict (tx.commit e.store).1 (tx'.commit e'.store).1 ∧
      (e.ended id tx Transaction.commit).AlikeBut extra (e'.ended id tx' Transaction.commit) := by
  have hleave : (e.store.leave tx.start).AlikeBut extra (e'.store.leave tx'.start) := by
    rw [htx.start]
    exact h.store.leave tx.start
  have hinstall : ((e.store.install tx.writes).leave tx.start).AlikeBut extra
      ((e'.store.install tx'.writes).leave tx'.start) := by
    rw [htx.start]
    exact (h.store.install htx).leave tx.start
  -- of the nine ways in which two commits may go only three are left
  rcases hsound.commit_cases hopen with ⟨hnone, hc⟩ | ⟨hsome, hfree, hc⟩ | ⟨hsome, hyes, ns, hc⟩ <;>
    rcases hsound'.commit_cases hopen' with ⟨hnone', hc'⟩ | ⟨hsome', hfree', hc'⟩ |
      ⟨hsome', hyes', ns', hc'⟩
  · refine ⟨?_, h.ended ?_ ?_ id⟩ <;> rw [hc, hc']
    exacts [.same _, htx.close, hleave]
  · exact absurd (hnothing.2 hnone) hsome'
  · exact absurd (hnothing.2 hnone) hsome'
  · exact absurd (hnothing.1 hnone') hsome
  · refine ⟨?_, h.ended ?_ ?_ id⟩ <;> rw [hc, hc']
    exacts [.same _, htx.close, hinstall]
  · exact absurd (hblocked.1 hyes') hfree
  · exact absurd (hnothing.1 hnone') hsome
  · exact absurd (hblocked.2 hyes) hfree'
  · refine ⟨?_, h.ended ?_ ?_ id⟩ <;> rw [hc, hc']
    exacts [.conflict ns ns', htx.close, hleave]

end Engine

end SecondaryIndex
