import Mathlib.Algebra.BigOperators.Group.List.Basic
import SecondaryIndex.Proofs.Debt.Index
import SecondaryIndex.Proofs.Session.Program

/-!
# Sessions that leak nothing

In a session whoever is alive is in somebody's hands: a raw iterator under its handle, a cursor under its
handle until it is dropped or used up. What a session owes is what its handles owe (`Session.debt`), and
along every run the books show that debt and no other (`Session.Runs.balanced`). The faults to come may be
chosen anew between any two steps.

Counters are installed with indexes, and an index may be made to count into counters that are there
already, so that several indexes share them. Counters that nobody has installed cannot be counted into
(`Session.Admits`).
-/

namespace SecondaryIndex

/-! ### Sums over a map -/

namespace SortedMap

variable {κ α : Type} [LT κ] [LE κ] [DecidableEq κ] [Std.LawfulOrderLT κ] [Std.IsLinearOrder κ]
  [DecidableLT κ]

omit [DecidableEq κ] [DecidableLT κ] [Std.IsLinearOrder κ] in
/-- The keys of a map differ, so no entry of it occurs twice. -/
theorem nodup_entries (m : SortedMap κ α) : m.entries.Nodup := by
  refine m.sorted.imp ?_
  rintro ⟨k, a⟩ ⟨j, b⟩ hlt heq
  cases heq
  exact Std.lt_irrefl hlt

/-- A binding and the rest are the whole map. -/
theorem perm_insert (m : SortedMap κ α) (k : κ) (a : α) :
    (m.insert k a).entries.Perm ((k, a) :: (m.erase k).entries) := by
  have hnew : (k, a) ∉ (m.erase k).entries := by
    rw [← get?_eq_some_iff, get?_erase, if_pos rfl]
    nofun
  refine (List.perm_ext_iff_of_nodup (nodup_entries _)
    (List.nodup_cons.2 ⟨hnew, nodup_entries _⟩)).2 ?_
  rintro ⟨j, b⟩
  rw [List.mem_cons, ← get?_eq_some_iff, ← get?_eq_some_iff, get?_insert, get?_erase, Prod.mk.injEq]
  by_cases hj : k = j
  · subst hj
    simp [eq_comm]
  · simp [hj, Ne.symm hj]

/-- A sum over the values of a map. -/
def sum {M : Type} [AddCommMonoid M] (m : SortedMap κ α) (f : α → M) : M := (m.values.map f).sum

variable {M : Type} [AddCommMonoid M] {m : SortedMap κ α} {k : κ} {a : α} (f : α → M)

/-- A sum is that of one binding and that of the others. -/
theorem sum_insert (m : SortedMap κ α) (k : κ) (a : α) : (m.insert k a).sum f = f a + (m.erase k).sum f := by
  have hperm := ((m.perm_insert k a).map Prod.snd).map f
  exact hperm.sum_eq

/-- A binding that is there may be taken out of a sum. -/
theorem sum_of_get? (h : m.get? k = some a) : m.sum f = f a + (m.erase k).sum f := by
  rw [← sum_insert, insert_of_get? h]

end SortedMap

/-- Counters with the numbers below `n` are `n` counters. -/
theorem Database.Owes.size_eq {n : Nat} {debt : Debt} {db : Database} (h : db.Owes n debt) :
    db.metrics.size = n := by
  -- each of the numbers below `n` is a key, and no key is there twice
  have hnodup : db.metrics.keys.Nodup := by
    refine List.Pairwise.map Prod.fst (fun _ _ hlt => Nat.ne_of_lt hlt) db.metrics.sorted
  have hperm : db.metrics.keys.Perm (List.range n) := by
    refine (List.perm_ext_iff_of_nodup hnodup List.nodup_range).2 fun id => ?_
    rw [List.mem_range, ← h.installed id, Option.isSome_iff_exists]
    simp [SortedMap.keys, SortedMap.get?_eq_some_iff]
  have hlength := hperm.length_eq
  rwa [List.length_range, SortedMap.keys, List.length_map] at hlength

/-- New counters have counted nothing, like counters that are not there. -/
theorem Database.Owes.installMetrics {n : Nat} {owed : Debt} {db : Database} (h : db.Owes n owed) :
    db.installMetrics.2.Owes (n + 1) owed := by
  have hsize := h.size_eq
  refine ⟨h.iterators, fun id => ?_, fun id => ?_⟩
  · have hcursors := h.cursors id
    have hcounters : db.installMetrics.2.counters id = db.counters id := by
      simp only [Database.installMetrics, Database.counters, SortedMap.getD, SortedMap.get?_insert]
      split
      · next hid =>
        have hnone : ¬ (db.metrics.get? id).isSome := by
          rw [h.installed, ← hid, hsize]
          exact Nat.lt_irrefl n
        rw [Option.not_isSome_iff_eq_none.1 hnone]
        rfl
      · rfl
    rw [hcounters, hcursors]
  · show ((db.metrics.insert db.metrics.size {}).get? id).isSome ↔ id < n + 1
    rw [SortedMap.get?_insert, hsize]
    split
    · next hid => simp [← hid]
    · next hid =>
      rw [h.installed, Nat.lt_succ_iff_lt_or_eq]
      exact (or_iff_left (Ne.symm hid)).symm

/-- Counters that are installed stay so when others are added. -/
theorem AnyIndex.Installed.mono {K V : Type} {n m : Nat} {index : AnyIndex K V} (h : index.Installed n)
    (hle : n ≤ m) : index.Installed m :=
  ⟨fun id hid => Nat.lt_of_lt_of_le (h.forward id hid) hle,
    fun reverse hreverse id hid => Nat.lt_of_lt_of_le (h.reverse reverse hreverse id hid) hle⟩

namespace Session

open Program

variable {α : Type} {n : Nat} {owed taken : Debt} {given : α → Debt} {s : Session}

/-! ### What a session owes -/

/-- What the handles of a session owe. -/
def debt (s : Session) : Debt :=
  (s.iterators.sum fun _ => Debt.iterator) + s.cursors.sum fun held => held.cursor.debt

/-- The books of a session show a debt besides that of its handles, and its indexes count into counters
that are installed. -/
structure Owes (n : Nat) (owed : Debt) (s : Session) : Prop where
  database : s.database.Owes n (owed + s.debt)
  indexes : ∀ ix held, s.indexes.get? ix = some held → held.index.Installed n

/-! ### Programs over a session -/

/-- A program over the database accounts within a session as well, where what the handles owe is owed by somebody
else. -/
theorem accounts_ofIndex {x : IndexM α} (h : Accounts (Database.Owes n) taken given x) :
    Accounts (Owes n) taken given (ofIndex x) := by
  intro rest s hs
  -- to a program over the database, what the handles owe is owed besides
  have hdatabase := hs.database
  rw [add_assoc] at hdatabase
  have hx := h (rest + s.debt) s.database hdatabase
  rw [← add_assoc] at hx
  refine ⟨?_, hs.indexes⟩
  have hafter : Debt.after given ((ofIndex x).run s).1 = Debt.after given (x.run s.database).1 := by
    show Debt.after given ((x.run s.database).1.mapError StepError.index) = _
    cases (x.run s.database).1 <;> rfl
  rw [hafter]
  exact hx

/-- A call of the engine accounts within a session, as long as it owes iterators only. -/
theorem accounts_ofEngine {x : EngineM α} (h : Accounts Engine.Owes 0 given x)
    (hgiven : ∀ a, (given a).2 = 0) : Accounts (Owes n) 0 given (ofEngine x) := by
  intro rest s hs
  have hx := (Accounts.ofEngine (n := n) h hgiven) (rest + s.debt) s.database
    (by rw [← add_assoc]; exact hs.database)
  rw [← add_assoc, IndexM.run_ofEngine] at hx
  refine ⟨?_, hs.indexes⟩
  have hafter : Debt.after given ((ofEngine x).run s).1 =
      Debt.after given ((x.run s.database.engine).1.mapError IndexError.storage) := by
    show Debt.after given ((x.run s.database.engine).1.mapError StepError.engine) = _
    cases (x.run s.database.engine).1 <;> rfl
  rw [hafter]
  exact hx

theorem balances_engine {x : EngineM α} (h : Balances Engine.Owes x) :
    Balances (Owes n) (ofEngine x) := accounts_ofEngine h fun _ => rfl

/-- A call that leaves the engine as it is. -/
theorem balances_reads {x : EngineM α} {outcome : Engine → Except EngineError α}
    (h : ∀ e, x.run e = (outcome e, e)) : Balances (Owes n) (ofEngine x) :=
  balances_engine (Engine.balances_of_kept fun e => by rw [h])

/-- Whatever is done to a store in a session balances if it spares the open iterators. -/
theorem balances_modifyStore {f : Store → Store}
    (h : ∀ store, (f store).openIterators = store.openIterators) :
    Balances (Owes n) (modifyStore f) :=
  balances_engine (Engine.balances_of_kept fun e => h e.store)

/-- To find out what a handle stands for owes nothing, and neither does a handle that stands for nothing. -/
theorem balances_resolve (handles : SortedMap Handle α) (handle : Handle) :
    Balances (Owes n) (resolve handles handle) := by
  unfold resolve
  split
  · exact .done _
  · exact .throw _

theorem balances_transaction (tx : Handle) : Balances (Owes n) (transaction tx) :=
  Accounts.get.bind fun s => balances_resolve s.transactions tx

theorem balances_contextOf (tx? : Option Handle) : Balances (Owes n) (contextOf tx?) := by
  cases tx? with
  | none => exact .done _
  | some tx => exact .map (balances_transaction tx)

theorem balances_readItem (kind : ItemKind) (text : String) : Balances (Owes n) (readItem kind text) := by
  unfold readItem
  split
  · exact .done _
  · exact .throw _

/-- Texts are read before any of them is used, so a text that cannot be read leaves nothing owed. -/
theorem balances_readPairs (keys values : ItemKind) (pairs : List (String × String)) :
    Balances (Owes n) (readPairs keys values pairs) :=
  .mapM fun pair => (balances_readItem keys pair.1).bind fun _ =>
    (balances_readItem values pair.2).bind fun _ => .done _

/-! ### Handles -/

/-- A transaction that is dropped leaves its iterators to the handles that they stand under. -/
theorem Owes.dropTransaction (h : s.Owes n owed) (tx : Handle) : (s.dropTransaction tx).Owes n owed := by
  unfold Session.dropTransaction
  split
  · exact ⟨h.database.withEngine (Engine.openIterators_discard _ _), h.indexes⟩
  · exact h

/-- Without an iterator a session owes so much less. -/
theorem debt_of_iterator {it : Handle} {iterator : RawIterator} (h : s.iterators.get? it = some iterator) :
    s.debt = Debt.iterator + debt { s with iterators := s.iterators.erase it } := by
  rw [debt, SortedMap.sum_of_get? _ h, add_assoc]
  rfl

/-- Without a cursor a session owes so much less. -/
theorem debt_of_cursor {c : Handle} {held : CursorHandle} (h : s.cursors.get? c = some held) :
    s.debt = held.cursor.debt + debt { s with cursors := s.cursors.erase c } := by
  rw [debt, SortedMap.sum_of_get? _ h, add_left_comm]
  rfl

/-- A cursor under a handle is owed for instead of what stood there. -/
theorem debt_withCursor (s : Session) (c : Handle) (held : CursorHandle) :
    debt { s with cursors := s.cursors.insert c held } =
      held.cursor.debt + debt { s with cursors := s.cursors.erase c } := by
  show _ + SortedMap.sum (s.cursors.insert c held) _ = _
  rw [SortedMap.sum_insert, add_left_comm]
  rfl

/-- An iterator under a handle is owed for instead of what stood there. -/
theorem debt_withIterator (s : Session) (it : Handle) (iterator : RawIterator) :
    debt { s with iterators := s.iterators.insert it iterator } =
      Debt.iterator + debt { s with iterators := s.iterators.erase it } := by
  show SortedMap.sum (s.iterators.insert it iterator) _ + _ = _
  rw [SortedMap.sum_insert, add_assoc]
  rfl

/-- A handle that is dropped owes nothing any more, whatever it stood for. -/
theorem Owes.dropIterator (h : s.Owes n owed) (it : Handle) :
    (s.dropIterator it).Owes n owed ∧ (s.dropIterator it).iterators = s.iterators.erase it := by
  unfold Session.dropIterator
  split
  · next iterator hget =>
    have hdatabase := h.database
    rw [debt_of_iterator hget, add_left_comm] at hdatabase
    exact ⟨⟨hdatabase.released, h.indexes⟩, rfl⟩
  · next hget => exact ⟨h, (SortedMap.erase_of_get?_eq_none hget).symm⟩

/-- A handle owes nothing any more when its cursor was dropped, whether that one had been closed or not. -/
theorem Owes.dropCursor (h : s.Owes n owed) (c : Handle) :
    (s.dropCursor c).Owes n owed ∧ (s.dropCursor c).cursors = s.cursors.erase c := by
  unfold Session.dropCursor
  split
  · next held hget =>
    have hdatabase := h.database
    rw [debt_of_cursor hget, add_left_comm] at hdatabase
    exact ⟨⟨Cursor.owes_release hdatabase, h.indexes⟩, rfl⟩
  · next hget => exact ⟨h, (SortedMap.erase_of_get?_eq_none hget).symm⟩

/-- A handle that is given another transaction drops the one it stood for. -/
theorem balances_holdTransaction (tx : Handle) (id : TransactionId) :
    Balances (Owes n) (holdTransaction tx id) := by
  intro rest s hs
  have hdropped := hs.dropTransaction tx
  exact ⟨hdropped.database, hdropped.indexes⟩

/-- A handle takes over what an iterator owes. -/
theorem accounts_holdIterator (it : Handle) (iterator : RawIterator) :
    Accounts (Owes n) Debt.iterator (fun _ => 0) (holdIterator it iterator) := by
  intro rest s hs
  obtain ⟨hdropped, herased⟩ := hs.dropIterator it
  refine ⟨?_, hdropped.indexes⟩
  have hdatabase := hdropped.database
  -- the handle is free, since what it stood for has been dropped
  show Database.Owes n (0 + rest + debt { s.dropIterator it with
    iterators := (s.dropIterator it).iterators.insert it iterator }) _
  rw [debt_withIterator, zero_add, add_left_comm, herased, SortedMap.erase_of_get?_eq_none (by simp),
    ← herased, ← add_assoc]
  exact hdatabase

/-- A handle takes over what a cursor owes. -/
theorem accounts_holdCursor (c : Handle) (kind : ItemKind) (cursor : Cursor kind.Carrier) :
    Accounts (Owes n) cursor.debt (fun _ => 0) (holdCursor c kind cursor) := by
  intro rest s hs
  obtain ⟨hdropped, herased⟩ := hs.dropCursor c
  refine ⟨?_, hdropped.indexes⟩
  have hdatabase := hdropped.database
  show Database.Owes n (0 + rest + debt { s.dropCursor c with
    cursors := (s.dropCursor c).cursors.insert c { kind, cursor } }) _
  rw [debt_withCursor, zero_add, add_left_comm, herased, SortedMap.erase_of_get?_eq_none (by simp),
    ← herased, ← add_assoc]
  exact hdatabase

/-- A step that opens a cursor leaves it to its handle to pay for it. If the cursor is refused nobody owes
anything. -/
theorem balances_openCursor (c : Handle) (kind : ItemKind) {x : IndexM (Cursor kind.Carrier)}
    (h : Accounts (Database.Owes n) 0 Cursor.debt x) : Balances (Owes n) (openCursor c kind x) :=
  (accounts_ofIndex h).bind fun cursor => (accounts_holdCursor c kind cursor).bind fun _ => .done _

/-! ### Steps of an index -/

/-- A step on an index owes nothing but what is in the hands of the session after it. -/
theorem balances_onIndex {held : IndexHandle} (hinstalled : held.index.Installed n) (ctx : Context)
    (step : IndexStep) : Balances (Owes n) (performOnIndex held ctx step) := by
  have hop {α : Type} {x : IndexM α} (hx : Balances (Database.Owes n) x) :
      Balances (Owes n) (ofIndex x) := accounts_ofIndex hx
  have hkey (text : String) := balances_readItem (n := n) held.keys text
  have hvalue (text : String) := balances_readItem (n := n) held.values text
  have hforward := hinstalled.forward
  cases step with
  | add key value =>
    exact (hkey key).bind fun _ => (hvalue value).bind fun _ =>
      (hop (hinstalled.add _ _)).bind fun _ => .done _
  | addMany pairs =>
    exact (balances_readPairs _ _ pairs).bind fun _ => (hop (hinstalled.addMany _)).bind fun _ => .done _
  | remove key value =>
    exact (hkey key).bind fun _ => (hvalue value).bind fun _ =>
      (hop (hinstalled.remove _ _)).bind fun _ => .done _
  | removeAll key =>
    exact (hkey key).bind fun _ => (hop (hinstalled.removeAll _)).bind fun _ => .done _
  | findFirst key =>
    exact (hkey key).bind fun _ => (hop (Index.balances_findFirst _ _)).bind fun _ => .done _
  | find c key =>
    exact (hkey key).bind fun _ => balances_openCursor c _ (Index.accounts_find _ hforward _)
  | scanKeys c => exact balances_openCursor c _ (Index.accounts_openCursor _ hforward _ _ _ _)
  | scanDistinctKeys c => exact balances_openCursor c _ (Index.accounts_openCursor _ hforward _ _ _ _)
  | scanValues c => exact balances_openCursor c _ (Index.accounts_openCursor _ hforward _ _ _ _)
  | findByValue c value =>
    unfold performOnIndex
    cases hreverse : held.index.reverse? with
    | none => exact .done _
    | some reverse =>
      exact (hvalue value).bind fun _ => balances_openCursor c _
        (reverse.accounts_find (hinstalled.reverse reverse hreverse) _)
  | count => exact (hop (Index.balances_count _ hforward)).bind fun _ => .done _
  | countKey key =>
    exact (hkey key).bind fun _ => (hop (Index.balances_countKey _ hforward _)).bind fun _ => .done _
  | span key => exact (hkey key).bind fun _ => (hop (.encoding _)).bind fun _ => .done _
  | estimateRange range =>
    exact (hop (Index.balances_estimateRange _ hforward range)).bind fun _ => .done _
  | estimateKey key =>
    exact (hkey key).bind fun _ => (hop (Index.balances_estimateKey _ hforward _)).bind fun _ => .done _
  | estimateSize => exact (hop (Index.balances_estimateRange _ hforward _)).bind fun _ => .done _
  | statistics query budget estimateOk meanwhile force =>
    intro rest s hs
    unfold performOnIndex
    rw [run_bind, run_askStatistics]
    cases query.question held.keys held.values with
    | error err => exact hs
    | ok question =>
      rw [Except.map]
      cases hcount : (held.index.statistics ctx).count? budget estimateOk question with
      | none => exact hs
      | some count =>
        -- the count is a program that owes nothing, whenever it is run
        have hvalue := Statistics.balances_count hforward hinstalled.reverse hcount
        refine ((balances_readPairs (n := n) held.keys held.values meanwhile).bind fun pairs =>
          (hop (hinstalled.addMany pairs)).bind fun _ => ?_) rest s hs
        cases force with
        | true => exact (hop hvalue).bind fun _ => .done _
        | false => exact .done _
  | metrics => exact Accounts.get.bind fun _ => .done _
  | physicalKey key value =>
    exact (hkey key).bind fun _ => (hvalue value).bind fun _ =>
      (hop (.encoding _)).bind fun _ => .done _
  | _ => exact .done _

/-- The counters of a half are among those of its index. -/
theorem installed_half {held part : IndexHandle} {half : Half} (h : held.index.Installed n)
    (hpart : held.half? half = some part) : part.index.Installed n := by
  obtain ⟨keys, values, index⟩ := held
  cases index with
  | oneWay index => cases hpart
  | twoWay index =>
    cases half with
    | forward =>
      cases hpart
      exact ⟨h.forward, nofun⟩
    | reverse =>
      cases hpart
      exact ⟨h.reverse _ rfl, nofun⟩

/-- A step on an index, or on one of its halves, balances also where there is no such index or half. -/
theorem balances_index (ix : Handle) (half? : Option Half) (tx? : Option Handle) (step : IndexStep) :
    Balances (Owes n) (performIndex ix half? tx? step) := by
  intro rest s hs
  unfold performIndex resolve
  rw [run_bind_ok (run_get s)]
  cases hget : s.indexes.get? ix with
  | none => exact hs
  | some held =>
    have hinstalled := hs.indexes ix held hget
    have hon {held : IndexHandle} (h : held.index.Installed n) : Balances (Owes n) (do
        let ctx ← contextOf tx?
        performOnIndex held ctx step) :=
      (balances_contextOf tx?).bind fun ctx => balances_onIndex h ctx step
    cases half? with
    | none => exact hon hinstalled rest s hs
    | some half =>
      rw [run_bind_ok (run_pure _ _)]
      dsimp only
      cases hpart : held.half? half with
      | none => exact hs
      | some part => exact hon (installed_half hinstalled hpart) rest s hs

/-! ### Steps on the store -/

theorem openIterators_flush {ns : Namespace} {store store' : Store} (h : store.flush ns = .ok store') :
    store'.openIterators = store.openIterators := by
  unfold Store.flush at h
  cases ht : store.table ns with
  | error err =>
    rw [ht] at h
    cases h
  | ok table =>
    rw [ht] at h
    cases h
    rfl

theorem balances_putWords (id : TransactionId) (ns : Namespace) (first : UInt64) (m : Nat) :
    Balances (Owes n) (putWords id ns first m) := by
  induction m generalizing first with
  | zero => exact .done _
  | succ m ih => exact (balances_engine (Engine.balances_put _ _ _ _)).bind fun _ => ih (first + 1)

theorem balances_dumpKeys (ns : Namespace) (tx? : Option Handle) :
    Balances (Owes n) (dumpKeys ns tx?) := by
  cases tx? with
  | none => exact balances_reads fun e => Engine.run_ask e _
  | some tx =>
    exact (balances_transaction tx).bind fun id => balances_reads fun e => Engine.run_visibleKeys e id ns .all

/-- A commit in a session balances, also one whose conflict is told without its namespace. -/
theorem balances_commit (tx : Handle) (hideNamespace : Bool) :
    Balances (Owes n) (commit tx hideNamespace) := by
  refine (balances_transaction tx).bind fun id => .tryCatch ?_ fun err => ?_
  · exact (balances_engine (Engine.balances_commit id)).bind fun _ => .done _
  · -- a conflict may be told as a success without its namespace
    split
    · split
      · exact .done _
      · exact .throw _
    · exact .throw _

/-- A change of the engine that keeps the number of open iterators. -/
theorem Owes.mapEngine (h : s.Owes n owed) {f : Engine → Engine}
    (hf : ∀ e, (f e).store.openIterators = e.store.openIterators) :
    Owes n owed (s.mapDatabase (Database.mapEngine f)) :=
  ⟨h.database.withEngine (hf _), h.indexes⟩

/-- A step on the store that makes no index. -/
theorem balances_store {step : StoreStep} (h : ∀ ix spec, step ≠ .index ix spec) :
    Balances (Owes n) (performStore step) := by
  cases step with
  | createNamespace ns =>
    -- a store that is changed here has as many iterators open as before
    refine (balances_modifyStore fun store => ?_).bind fun _ => .done _
    unfold Store.createNamespace
    split <;> rfl
  | hasNamespace ns => exact balances_reads fun e => Engine.run_ask e _
  | flush ns =>
    intro rest s hs
    show Owes n _ _
    unfold performStore ofStore
    rw [run_bind]
    have hask : (ofEngine (Engine.ask fun store => store.flush ns)).run s =
        ((s.database.engine.store.flush ns).mapError .engine, s) := rfl
    rw [hask]
    cases hflush : s.database.engine.store.flush ns with
    | error err => exact hs
    | ok store =>
      exact ⟨hs.database.withEngine (openIterators_flush hflush), hs.indexes⟩
  | flushAll =>
    have hflush : ∀ store : Store, store.flushAll.openIterators = store.openIterators := fun _ => rfl
    exact (balances_modifyStore hflush).bind fun _ => .done _
  | openIterators => exact balances_reads fun e => Engine.run_ask e _
  | recentTally ns range =>
    exact (balances_engine (Engine.balances_recentTally ns range)).bind fun _ => .done _
  | olderSize ns range =>
    exact (balances_engine (Engine.balances_olderSize ns range)).bind fun _ => .done _
  | dump ns tx? => exact (balances_dumpKeys ns tx?).bind fun _ => .done _
  | begin tx =>
    exact (balances_engine Engine.balances_begin).bind fun id =>
      (balances_holdTransaction tx id).bind fun _ => .done _
  | commit tx hideNamespace => exact balances_commit tx hideNamespace
  | rollback tx =>
    exact (balances_transaction tx).bind fun id =>
      (balances_engine (Engine.balances_rollback id)).bind fun _ => .done _
  | drop tx =>
    exact (balances_transaction tx).bind fun _ =>
      (Accounts.modify fun _ _ hs => hs.dropTransaction tx).bind fun _ => .done _
  | pending tx =>
    exact (balances_transaction tx).bind fun id =>
      (balances_reads fun e => Engine.run_transaction e id).bind fun _ => .done _
  | get tx ns key =>
    exact (balances_transaction tx).bind fun id =>
      (balances_engine (Engine.balances_lookup id ns key)).bind fun _ => .done _
  | put tx ns key value =>
    exact (balances_transaction tx).bind fun id =>
      (balances_engine (Engine.balances_put id ns key value)).bind fun _ => .done _
  | putRange tx ns first m =>
    exact (balances_transaction tx).bind fun id =>
      (balances_putWords id ns first m).bind fun _ => .done _
  | delete tx ns key =>
    exact (balances_transaction tx).bind fun id =>
      (balances_engine (Engine.balances_delete id ns key)).bind fun _ => .done _
  | iterator it tx ns range =>
    exact (balances_transaction tx).bind fun id =>
      -- the one step that opens an iterator owes it to the handle it is held under
      (accounts_ofEngine (Engine.accounts_openIterator id ns range) fun _ => rfl).bind fun iterator =>
        (accounts_holdIterator it iterator).bind fun _ => .done _
  | context tx? => exact (balances_contextOf tx?).bind fun _ => .done _
  | fault call skip times =>
    exact (Accounts.modify fun _ _ hs => hs.mapEngine fun _ => rfl).bind fun _ => .done _
  | clearFaults =>
    exact (Accounts.modify fun _ _ hs => hs.mapEngine fun _ => rfl).bind fun _ => .done _
  | index ix spec => exact absurd rfl (h ix spec)

/-! ### Steps of an iterator -/

/-- A handle goes on to stand for an iterator when that is moved. -/
theorem balances_moveIterator (it : Handle) (move : RawIterator → RawIterator) :
    Balances (Owes n) (moveIterator it move) := by
  intro rest s hs
  unfold moveIterator resolve
  rw [run_bind_ok (run_get s)]
  cases hget : s.iterators.get? it with
  | none => exact hs
  | some iterator =>
    have hdatabase := hs.database
    refine ⟨?_, hs.indexes⟩
    show Database.Owes n (0 + rest + debt { s with
      iterators := s.iterators.insert it (move iterator) }) s.database
    rwa [debt_withIterator, ← debt_of_iterator hget]

/-- A step of a raw iterator leaves it under its handle, unless it is dropped. -/
theorem balances_iterator (it : Handle) (step : IteratorStep) :
    Balances (Owes n) (performIterator it step) := by
  cases step with
  | status =>
    exact Accounts.get.bind fun s => (balances_resolve s.iterators it).bind fun _ =>
      (balances_engine Engine.balances_status).bind fun _ => .done _
  | drop =>
    exact Accounts.get.bind fun s => (balances_resolve s.iterators it).bind fun _ =>
      (Accounts.modify fun _ _ hs => (hs.dropIterator it).1).bind fun _ => .done _
  | _ => exact balances_moveIterator it _

/-! ### Steps of a cursor -/

/-- Each step of a cursor balances, given what is owed for the cursor. -/
theorem balances_cursorProgram {kind : ItemKind} {step : CursorStep}
    {program : CursorM kind.Carrier Answer} (h : cursorProgram kind step = some program) :
    Cursor.Balances program := by
  cases step with
  | next =>
    cases h
    exact Cursor.balances_next.map _
  | prev =>
    cases h
    exact Cursor.balances_prev.map _
  | current =>
    cases h
    exact Cursor.balances_current.map _
  | seek text =>
    obtain ⟨item, -, rfl⟩ := Option.map_eq_some_iff.1 h
    exact (Cursor.balances_seek item).map _
  | close =>
    cases h
    exact Cursor.balances_close
  | state =>
    cases h
    exact fun _ _ _ _ hdb => hdb
  | describe =>
    cases h
    exact fun _ _ _ _ hdb => hdb

/-- A cursor under its handle makes room for another one that owes as much as has not been paid on the way. -/
theorem Owes.replaceCursor (h : s.Owes n owed) {c : Handle} {held held' : CursorHandle} {database : Database}
    (hget : s.cursors.get? c = some held)
    (hdatabase : ∀ rest, s.database.Owes n (held.cursor.debt + rest) →
      database.Owes n (held'.cursor.debt + rest)) :
    Owes n owed { s with database, cursors := s.cursors.insert c held' } := by
  have howed := h.database
  rw [debt_of_cursor hget, add_left_comm] at howed
  refine ⟨?_, h.indexes⟩
  show Database.Owes n (owed + debt { s with cursors := s.cursors.insert c held' }) database
  rw [debt_withCursor, add_left_comm]
  exact hdatabase _ howed

/-- After a step of a cursor its handle owes what the cursor does then. -/
theorem Owes.performCursor (h : s.Owes n owed) (c : Handle) (step : CursorStep) :
    ((performCursor c step).run s).2.Owes n owed := by
  cases hget : s.cursors.get? c with
  | none =>
    rw [run_performCursor_of_none hget]
    exact h
  | some held =>
    obtain ⟨kind, cursor, _ | done⟩ := held
    · rw [run_performCursor_of_some hget]
      cases hprogram : cursorProgram kind step with
      | none => exact h
      | some program =>
        exact h.replaceCursor hget fun rest howed =>
          balances_cursorProgram hprogram n rest cursor s.database howed
    · rw [run_performCursor_of_iterated hget]
      exact h

/-- Every way of using a cursor up pays for it. -/
theorem accounts_endingProgram (kind : ItemKind) (cursor : Cursor kind.Carrier) (ending : CursorEnding) :
    Accounts (Database.Owes n) cursor.debt (fun _ => 0) (endingProgram kind cursor ending) := by
  cases ending with
  | count => exact .map cursor.accounts_count
  | collect => exact cursor.accounts_collect.bind fun _ => .done _
  | items =>
    intro rest db hdb
    show Database.Owes n (0 + rest) (cursor.items.run db).2
    rw [zero_add]
    exact Cursor.owes_items hdb
  | drop =>
    intro rest db hdb
    show Database.Owes n (0 + rest) (cursor.release db)
    rw [zero_add]
    exact Cursor.owes_release hdb

/-- Whoever uses a cursor up takes it out of the hands of the session and pays what it owes. -/
theorem balances_ending (c : Handle) (ending : CursorEnding) :
    Balances (Owes n) (performEnding c ending) := by
  intro rest s hs
  cases hget : s.cursors.get? c with
  | none =>
    rw [run_performEnding_of_none hget]
    exact hs
  | some held =>
    obtain ⟨kind, cursor, done?⟩ := held
    have hended (hfree : done? = none ∨ ending = .drop) : Owes n (Debt.after (fun _ => 0)
        ((performEnding c ending).run s).1 + rest) ((performEnding c ending).run s).2 := by
      rw [run_performEnding_of_some hget hfree]
      refine accounts_ofIndex (accounts_endingProgram kind cursor ending) rest _ ⟨?_, hs.indexes⟩
      have hdatabase := hs.database
      rwa [zero_add, debt_of_cursor hget, add_left_comm, ← add_assoc] at hdatabase
    cases done? with
    | none => exact hended (.inl rfl)
    | some done =>
      by_cases hdrop : ending = .drop
      · exact hended (.inr hdrop)
      · rw [run_performEnding_of_iterated hget hdrop]
        exact hs

/-- A cursor stays under its handle while it is iterated over. -/
theorem balances_iteration (c : Handle) (step : IterationStep) :
    Balances (Owes n) (performIteration c step) := by
  intro rest s hs
  cases hget : s.cursors.get? c with
  | none =>
    rw [run_performIteration_of_none hget]
    exact hs
  | some held =>
    rw [run_performIteration_of_some hget]
    obtain ⟨kind, cursor, done?⟩ := held
    cases step with
    | start =>
      cases done? with
      | none => exact hs.replaceCursor hget fun _ howed => howed
      | some done => exact hs
    | next =>
      cases done? with
      | none => exact hs
      | some done =>
        rw [run_iterate_next]
        exact hs.replaceCursor hget fun rest howed =>
          CursorItems.owes_next ⟨cursor, done⟩ howed

/-! ### Making an index -/

/-- An index that is made with counters of its own installs them, and one that shares counters counts into those
that are there. -/
theorem Owes.makeIndex (h : s.Owes n owed) (spec : IndexSpec)
    (hspec : spec.counted = false → ∀ id, spec.options.metrics = some id → id < n) :
    ∃ m, (makeIndex spec s).2.Owes m owed ∧ (makeIndex spec s).1.index.Installed m := by
  unfold Session.makeIndex
  cases hcounted : spec.counted with
  | true =>
    have hdatabase := h.database.installMetrics
    have hoptions : Database.Installed (n + 1) (some s.database.installMetrics.1) := by
      rintro id ⟨⟩
      show s.database.metrics.size < n + 1
      rw [h.database.size_eq]
      exact Nat.lt_succ_self n
    refine ⟨n + 1, ⟨hdatabase, fun ix held hget => (h.indexes ix held hget).mono (Nat.le_succ n)⟩, ?_⟩
    cases spec.reverseNs with
    | none => exact .create hoptions
    | some reverseNs => exact .createTwoWay hoptions
  | false =>
    have hoptions : Database.Installed n spec.options.metrics := hspec hcounted
    refine ⟨n, h, ?_⟩
    cases spec.reverseNs with
    | none => exact .create hoptions
    | some reverseNs => exact .createTwoWay hoptions

/-! ### Runs -/

/-- An index is made to count into counters that are installed, if it does not bring its own. -/
def Admits (s : Session) : Step → Prop
  | .store (.index _ spec) => spec.counted = false →
      ∀ id, spec.options.metrics = some id → (s.database.metrics.get? id).isSome
  | _ => True

/-- The sessions that steps lead to, whatever faults are chosen between them. -/
inductive Runs (options : StoreOptions) : Session → Prop
  | start : Runs options (ofOptions options)
  | step {s : Session} (runs : Runs options s) (step : Step) (admits : s.Admits step) :
    Runs options ((perform step).run s).2
  | faults {s : Session} (runs : Runs options s) (faults : FaultPlan) :
    Runs options (s.mapDatabase (Database.mapEngine fun engine => { engine with faults }))

/-- A step that is carried out by a program which owes nothing. -/
theorem Owes.reply (h : s.Owes n 0) {x : SessionM Answer} (hx : Balances (Owes n) x) :
    ((reply x).run s).2.Owes n 0 := by
  have hpaid := hx 0 s (by rwa [add_zero])
  have hnothing : Debt.after (fun _ => 0) (x.run s).1 + 0 = 0 := by
    cases (x.run s).1 <;> rfl
  rw [hnothing] at hpaid
  exact hpaid

/-- A step that cannot be read does nothing but look for its handle. -/
theorem balances_refuse (handle? : Option (HandleKind × Handle)) : Balances (Owes n) (refuse handle?) := by
  cases handle? with
  | none => exact .throw _
  | some holding =>
    intro rest s hs
    rw [run_refuse]
    exact hs

/-- A step owes nothing beyond what the handles owe after it. -/
theorem Owes.perform (h : s.Owes n 0) (step : Step) (hadmits : s.Admits step) :
    ∃ m, ((perform step).run s).2.Owes m 0 := by
  cases step with
  | store step =>
    -- making an index may install counters, so that there are more of them afterwards
    by_cases hindex : ∃ ix spec, step = .index ix spec
    · obtain ⟨ix, spec, rfl⟩ := hindex
      obtain ⟨m, hmade, hinstalled⟩ := h.makeIndex spec fun hcounted id hid =>
        (h.database.installed id).1 (hadmits hcounted id hid)
      refine ⟨m, hmade.database, fun other held hget => ?_⟩
      change ((Session.makeIndex spec s).2.indexes.insert ix (Session.makeIndex spec s).1).get? other =
        some held at hget
      rw [SortedMap.get?_insert] at hget
      split at hget
      · cases hget
        exact hinstalled
      · exact hmade.indexes other held hget
    · exact ⟨n, h.reply (balances_store fun ix spec heq => hindex ⟨ix, spec, heq⟩)⟩
  | iterator it step => exact ⟨n, h.reply (balances_iterator it step)⟩
  | index ix half? tx? step => exact ⟨n, h.reply (balances_index ix half? tx? step)⟩
  | cursor c step => exact ⟨n, h.performCursor c step⟩
  | iteration c step => exact ⟨n, h.reply (balances_iteration c step)⟩
  | ending c ending => exact ⟨n, h.reply (balances_ending c ending)⟩
  | unreadable handle? => exact ⟨n, h.reply (balances_refuse handle?)⟩

/-- At the beginning there are no handles, and nothing is owed. -/
theorem owes_ofOptions (options : StoreOptions) : (ofOptions options).Owes 0 0 :=
  ⟨⟨rfl, fun _ => rfl, fun id => by simp [ofOptions, Database.ofOptions]⟩,
    fun _ _ hget => by simp [ofOptions] at hget⟩

/-- Wherever a run leads, nothing is owed but what the handles owe. -/
theorem Runs.balanced {options : StoreOptions} (h : Runs options s) : ∃ n, s.Owes n 0 := by
  induction h with
  | start => exact ⟨0, owes_ofOptions options⟩
  | step runs step admits ih =>
    obtain ⟨n, hn⟩ := ih
    exact hn.perform step admits
  | faults runs faults ih =>
    obtain ⟨n, hn⟩ := ih
    exact ⟨n, hn.mapEngine fun _ => rfl⟩

end Session

end SecondaryIndex
