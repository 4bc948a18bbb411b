import SecondaryIndex.Proofs.Engine.Once

/-!
# What an engine mentions

A table mentions a record if one of its layers has it, whether or not a newer layer shows through; a tombstone is
a record without a value. An engine mentions what its tables mention, and what its transactions have written and
not committed.

An engine mentions nothing by itself. Flushing moves records from layer to layer or drops them, a commit hands
the writes of its transaction on, and every other end of a transaction forgets them; so whatever is mentioned
after a call on a store was mentioned before it, or the call has written it (`Engine.mentions_perform`). What is
seen is mentioned, too (`Engine.mentions_of_keysOf`).
-/

namespace SecondaryIndex

/-- A layer of a table has a record under a key. -/
inductive Table.Mentions (table : Table) (key : Bytes) : Slot → Prop
  | recent {slot : Slot} (recent : table.memtable.get? key = some slot) : Mentions table key slot
  | older {value : Bytes} (older : table.flushed.get? key = some value) : Mentions table key (some value)

/-- A layer of a table of a store has a record in a place. -/
def Store.Mentions (store : Store) (x : Place) (slot : Slot) : Prop :=
  ∃ table, store.tables.get? x.1 = some table ∧ table.Mentions x.2 slot

/-- A record is stored in a place, or it was written there and not yet committed. -/
inductive Engine.Mentions (e : Engine) (x : Place) (slot : Slot) : Prop
  | stored (stored : e.store.Mentions x slot)
  | pending {id : TransactionId} {tx : Transaction} (held : e.transactions.get? id = some tx)
    (written : tx.changes x = some slot)

/-- What a call on a store writes, and where. -/
def StoreCall.write? : StoreCall → Option (Place × Slot)
  | .put _ ns key value => some ((ns, key), some value)
  | .delete _ ns key => some ((ns, key), none)
  | _ => none

/-! ### Tables -/

namespace Table

variable {table : Table} {key : Bytes} {slot : Slot}

/-- What shows through is in some layer. -/
theorem mentions_of_get? {value : Bytes} (h : table.get? key = some value) :
    table.Mentions key (some value) := by
  unfold get? at h
  cases hrecent : table.memtable.get? key with
  | none =>
    rw [hrecent] at h
    exact .older h
  | some slot =>
    rw [hrecent] at h
    exact .recent (hrecent.trans (congrArg some h))

/-- A flushed table mentions only what the table did. -/
theorem Mentions.of_flush (h : table.flush.Mentions key slot) : table.Mentions key slot := by
  cases h with
  | recent hrecent => cases hrecent
  | older holder => exact mentions_of_get? ((table.get?_contents key).symm.trans holder)

/-- A table that is flushed on reaching its capacity mentions only what it did before. -/
theorem Mentions.of_flushAt {capacity : Nat} (h : (table.flushAt capacity).Mentions key slot) :
    table.Mentions key slot := by
  unfold flushAt at h
  split at h
  · exact h.of_flush
  · exact h

/-- After a write a table mentions only what it did before and what the batch has. -/
theorem Mentions.of_write {seq : Nat} {batch : Batch} (h : (table.write seq batch).Mentions key slot) :
    table.Mentions key slot ∨ batch.get? key = some slot := by
  cases h with
  | recent hrecent =>
    have hmerged : (batch.overlay table.memtable).get? key = some slot := hrecent
    rw [SortedMap.get?_overlay, Option.or_eq_some_iff] at hmerged
    rcases hmerged with hwritten | ⟨-, hbefore⟩
    · exact .inr hwritten
    · exact .inl (.recent hbefore)
  | older holder => exact .inl (.older holder)

end Table

/-! ### Stores -/

namespace Store

variable {store : Store} {ns : Namespace} {x : Place} {slot : Slot}

/-- A new namespace mentions nothing. -/
theorem Mentions.of_createNamespace (h : (store.createNamespace ns).Mentions x slot) :
    store.Mentions x slot := by
  obtain ⟨table, htable, hmentions⟩ := h
  unfold createNamespace at htable
  split at htable
  · exact ⟨table, htable, hmentions⟩
  · simp only [SortedMap.get?_insert] at htable
    split at htable
    -- a table that is new is empty
    · cases htable
      cases hmentions with
      | recent hrecent => cases hrecent
      | older holder => cases holder
    · exact ⟨table, htable, hmentions⟩

/-- A flushed store mentions only what the store did. -/
theorem Mentions.of_flush {flushed : Store} (hflush : store.flush ns = .ok flushed)
    (h : flushed.Mentions x slot) : store.Mentions x slot := by
  obtain ⟨table, htable, hmentions⟩ := h
  unfold flush at hflush
  cases hget : store.table ns with
  | error err =>
    rw [hget] at hflush
    cases hflush
  | ok before =>
    rw [hget] at hflush
    cases hflush
    simp only [SortedMap.get?_insert] at htable
    split at htable
    · next heq =>
      cases htable
      exact ⟨before, heq ▸ table_eq_ok_iff.1 hget, hmentions.of_flush⟩
    · exact ⟨table, htable, hmentions⟩

theorem Mentions.of_flushAll (h : store.flushAll.Mentions x slot) : store.Mentions x slot := by
  obtain ⟨table, htable, hmentions⟩ := h
  simp only [flushAll, SortedMap.get?_mapValues] at htable
  obtain ⟨before, hbefore, rfl⟩ := Option.map_eq_some_iff.1 htable
  exact ⟨before, hbefore, hmentions.of_flush⟩

/-- What is there after some writes were installed was there before, or was written. -/
theorem Mentions.of_install {writes : WriteSet} (h : (store.install writes).Mentions x slot) :
    store.Mentions x slot ∨ writes.changes x = some slot := by
  obtain ⟨table, htable, hmentions⟩ := h
  simp only [install, SortedMap.get?_mapEntries] at htable
  obtain ⟨before, hbefore, rfl⟩ := Option.map_eq_some_iff.1 htable
  unfold WriteSet.changes SortedMap.getD
  -- forgetting last writes does not touch the layers
  cases hwrites : writes.get? x.1 with
  | none =>
    rw [hwrites] at hmentions
    exact .inl ⟨before, hbefore, by cases hmentions with
      | recent hrecent => exact .recent hrecent
      | older holder => exact .older holder⟩
  | some batch =>
    rw [hwrites] at hmentions
    have hwritten : ((before.write (store.lastCommit + 1) batch).flushAt
        store.options.memtableCapacity).Mentions x.2 slot := by
      cases hmentions with
      | recent hrecent => exact .recent hrecent
      | older holder => exact .older holder
    rcases hwritten.of_flushAt.of_write with hmentions | hbatch
    · exact .inl ⟨before, hbefore, hmentions⟩
    · exact .inr hbatch

end Store

/-! ### Engines -/

namespace Engine

open Program

variable {e e' : Engine} {x : Place} {slot : Slot} {id : TransactionId} {tx : Transaction}

/-- What is mentioned was mentioned before, where the records in store were, and every transaction is one that was
there already, or one without writes. -/
theorem Mentions.before (h : e'.Mentions x slot) (hstore : e'.store.Mentions x slot → e.Mentions x slot)
    (htransactions : ∀ id tx, e'.transactions.get? id = some tx →
      tx.changes = .nothing ∨ e.transactions.get? id = some tx) : e.Mentions x slot := by
  cases h with
  | stored hstored => exact hstore hstored
  | @pending id tx hheld hwritten =>
    rcases htransactions id tx hheld with hnothing | hheld'
    · rw [hnothing] at hwritten
      cases hwritten
    · exact .pending hheld' hwritten

/-- An engine that idles comes to mention nothing. -/
theorem Mentions.of_idles (hidles : e.Idles e') (h : e'.Mentions x slot) : e.Mentions x slot := by
  obtain ⟨n, hstore⟩ := hidles.store
  refine h.before (fun hstored => .stored ?_) fun id tx hheld => .inr ?_
  · rw [hstore] at hstored
    exact hstored
  · rwa [← hidles.transactions]

/-- A buffered write is mentioned, and nothing else is new. -/
theorem Mentions.of_written {ns : Namespace} {key : Bytes} {slot' : Slot}
    (hwritten : e.writtenTo id ns key slot' = .ok tx) (h : (e.keeping id tx).Mentions x slot) :
    e.Mentions x slot ∨ (x = (ns, key) ∧ slot = slot') := by
  obtain ⟨before, hopen, -, rfl⟩ := of_writtenTo hwritten
  cases h with
  | stored hstored => exact .inl (.stored hstored)
  | @pending j tx' hheld hslot =>
    replace hheld : (e.transactions.insert id _).get? j = some tx' := hheld
    rw [SortedMap.get?_insert] at hheld
    split at hheld
    · cases hheld
      rw [changes_insert] at hslot
      rcases Option.or_eq_some_iff.1 hslot with hnew | ⟨-, hold⟩
      · unfold Changes.single at hnew
        split at hnew
        · next heq => exact .inr ⟨heq, (Option.some.inj hnew).symm⟩
        · cases hnew
      · exact .inl (.pending hopen.1 hold)
    · exact .inl (.pending hheld hslot)

/-- A transaction that is ended is forgotten, or its writes are installed. -/
theorem Mentions.of_ending {program : EngineM Unit} {call : EngineCall}
    {ending : Transaction → Store → Except EngineError Unit × Transaction × Store}
    (hrun : program.run e =
      if e.fails call then (.error (.injected call), e.drawn call)
      else match e.held id with
        | .ok tx => ((ending tx e.store).1, (e.drawn call).ended id tx ending)
        | .error err => (.error err, e.drawn call))
    (hstore : ∀ tx, (ending tx e.store).2.2.Mentions x slot →
      e.store.Mentions x slot ∨ tx.changes x = some slot)
    (hwrites : ∀ tx, (ending tx e.store).2.1.changes = .nothing ∨ (ending tx e.store).2.1 = tx)
    (h : (program.run e).2.Mentions x slot) : e.Mentions x slot := by
  rw [hrun] at h
  cases hfails : e.fails call with
  | true =>
    rw [hfails] at h
    exact h.of_idles (idles_drawn e call)
  | false =>
    rw [hfails, if_neg Bool.false_ne_true] at h
    cases hheld : e.held id with
    | error err =>
      rw [hheld] at h
      exact h.of_idles (idles_drawn e call)
    | ok tx =>
      rw [hheld] at h
      have hget := held_eq_ok_iff.1 hheld
      refine h.before (fun hstored => ?_) fun j tx' hheld' => ?_
      -- what is stored now was stored before or was pending in the transaction that ends
      · rcases hstore tx hstored with hbefore | hwritten
        · exact .stored hbefore
        · exact .pending hget hwritten
      · replace hheld' : (e.transactions.insert id (ending tx e.store).2.1).get? j = some tx' := hheld'
        rw [SortedMap.get?_insert] at hheld'
        -- the transaction that ended has nothing pending or is as it was; the others are as they were
        split at hheld'
        · next heq =>
          cases hheld'
          refine (hwrites tx).imp_right fun hsame => ?_
          rw [hsame, ← heq, hget]
        · exact .inr hheld'

/-- A commit moves what was written into the tables, where the engine mentioned it already. -/
theorem Mentions.of_commit (h : ((commit id).run e).2.Mentions x slot) : e.Mentions x slot := by
  refine .of_ending (run_commit e id) (fun tx hstored => ?_) (fun tx => ?_) h
  · rcases commit_cases tx e.store with ⟨-, hc⟩ | ⟨-, -, hc⟩ | ⟨-, -, store, happly, hc⟩ |
      ⟨-, -, err, -, hc⟩ <;> rw [hc] at hstored
    · exact .inl hstored
    · exact .inl hstored
    · obtain ⟨-, rfl⟩ := Store.apply_eq_ok_iff.1 happly
      exact Store.Mentions.of_install hstored
    · exact .inl hstored
  · rcases commit_cases tx e.store with ⟨-, hc⟩ | ⟨-, -, hc⟩ | ⟨-, -, store, -, hc⟩ |
      ⟨-, -, err, -, hc⟩ <;> rw [hc]
    · exact .inr rfl
    all_goals exact .inl rfl

/-- A rollback makes the engine mention nothing new. -/
theorem Mentions.of_rollback (h : ((rollback id).run e).2.Mentions x slot) : e.Mentions x slot := by
  refine .of_ending (run_rollback e id) (fun tx hstored => .inl ?_) (fun tx => ?_) h
  · unfold Transaction.rollback at hstored
    split at hstored <;> exact hstored
  · unfold Transaction.rollback
    split
    · exact .inr rfl
    · exact .inl rfl

theorem Mentions.of_discard (h : (e.discard id).Mentions x slot) : e.Mentions x slot := by
  have hbeside := beside_discard e id
  refine h.before (fun hstored => .stored ?_) fun j tx hheld => .inr ?_
  · obtain ⟨n, active, hstore⟩ := hbeside.store
    rw [hstore] at hstored
    exact hstored
  · rw [← hbeside.others j ?_]
    · exact hheld
    · rintro rfl
      rw [get?_discard] at hheld
      cases hheld

/-- A call that makes a write draws its fate first. -/
theorem Mentions.of_write {program : EngineM Unit} {call : EngineCall} {ns : Namespace} {key : Bytes}
    {slot' : Slot}
    (hrun : program.run e =
      if e.fails call then (.error (.injected call), e.drawn call)
      else match e.writtenTo id ns key slot' with
        | .ok tx => (.ok ⟨⟩, (e.drawn call).keeping id tx)
        | .error err => (.error err, e.drawn call))
    (h : (program.run e).2.Mentions x slot) : e.Mentions x slot ∨ (x = (ns, key) ∧ slot = slot') := by
  rw [hrun] at h
  cases hfails : e.fails call with
  | true =>
    rw [hfails] at h
    exact .inl (h.of_idles (idles_drawn e call))
  | false =>
    rw [hfails, if_neg Bool.false_ne_true] at h
    cases hwritten : e.writtenTo id ns key slot' with
    | error err =>
      rw [hwritten] at h
      exact .inl (h.of_idles (idles_drawn e call))
    | ok tx =>
      rw [hwritten] at h
      have hdrawn : (e.drawn call).writtenTo id ns key slot' = .ok tx := hwritten
      exact (h.of_written hdrawn).imp_left fun hbefore => hbefore.of_idles (idles_drawn e call)

/-- What is mentioned after a call on a store was mentioned before, or the call has written it. -/
theorem mentions_perform (e : Engine) (call : StoreCall) (h : ((perform call).run e).2.Mentions x slot) :
    e.Mentions x slot ∨ call.write? = some (x, slot) := by
  cases call with
  | createNamespace ns =>
    exact .inl (h.before (fun hstored => .stored hstored.of_createNamespace) fun _ _ => .inr)
  | flush ns =>
    simp only [perform, run_bind, run_ask] at h
    cases hflush : e.store.flush ns with
    | error err =>
      rw [hflush] at h
      exact .inl h
    | ok store =>
      rw [hflush] at h
      exact .inl (h.before (fun hstored => .stored (Store.Mentions.of_flush hflush hstored)) fun _ _ => .inr)
  | flushAll => exact .inl (h.before (fun hstored => .stored hstored.of_flushAll) fun _ _ => .inr)
  | recentTally ns range =>
    simp only [perform, run_map, run_recentTally] at h
    exact .inl (Mentions.of_idles (idles_drawn e .recentTally) (by split at h <;> exact h))
  | olderSize ns range =>
    simp only [perform, run_map, run_olderSize] at h
    exact .inl (Mentions.of_idles (idles_drawn e .olderSize) (by split at h <;> exact h))
  | begin =>
    simp only [perform, run_map, run_begin] at h
    cases hfails : e.fails .begin with
    | true =>
      rw [hfails] at h
      exact .inl (h.of_idles (idles_drawn e .begin))
    | false =>
      rw [hfails] at h
      refine .inl (Mentions.of_idles (idles_drawn e .begin) (h.before (fun hstored => .stored hstored) ?_))
      -- a transaction that was just begun has written nothing
      intro j tx hheld
      replace hheld : (e.transactions.insert e.nextTransaction _).get? j = some tx := hheld
      rw [SortedMap.get?_insert] at hheld
      split at hheld
      · cases hheld
        exact .inl rfl
      · exact .inr hheld
  | get id ns key =>
    simp only [perform, run_map, run_lookup] at h
    exact .inl (Mentions.of_idles (idles_drawn e .get) (by split at h <;> exact h))
  | put id ns key value =>
    simp only [perform, run_map] at h
    refine (Mentions.of_write (run_put e id ns key value) h).imp_right ?_
    rintro ⟨rfl, rfl⟩
    rfl
  | delete id ns key =>
    simp only [perform, run_map] at h
    refine (Mentions.of_write (run_delete e id ns key) h).imp_right ?_
    rintro ⟨rfl, rfl⟩
    rfl
  | iterator id ns range =>
    have hidles : e.Idles ((perform (.iterator id ns range)).run e).2 := by
      simp only [perform, run_map, run_openIterator]
      split
      · exact idles_drawn e .iterator
      · split
        · exact (idles_drawn e .iterator).trans (idles_iterating _)
        · exact idles_drawn e .iterator
    exact .inl (h.of_idles hidles)
  | releaseIterator => exact .inl (h.of_idles (idles_releaseIterator e))
  | commit id =>
    simp only [perform, run_map] at h
    exact .inl h.of_commit
  | rollback id =>
    simp only [perform, run_map] at h
    exact .inl h.of_rollback
  | drop id => exact .inl h.of_discard

/-- What a transaction sees is mentioned. -/
theorem mentions_of_keysOf {ns : Namespace} {range : Range} {keys : List Bytes}
    (h : e.keysOf id ns range = .ok keys) {key : Bytes} (hkey : key ∈ keys) :
    ∃ value, e.Mentions (ns, key) (some value) := by
  obtain ⟨⟨changes, hpending⟩, -, -, hmem⟩ := of_keysOf h
  obtain ⟨value, hvalue⟩ := Option.isSome_iff_exists.1 ((hmem key).1 hkey).2
  refine ⟨value, ?_⟩
  simp only [Ledger.view, hpending, Option.getD_some, Changes.applyTo, ledger_committed] at hvalue
  cases hchange : changes (ns, key) with
  | some slot =>
    rw [hchange] at hvalue
    obtain ⟨tx, hopen, rfl⟩ := pending_eq_some_iff.1 hpending
    exact .pending hopen.1 (hchange.trans (congrArg some hvalue))
  | none =>
    rw [hchange] at hvalue
    obtain ⟨table, htable, hget⟩ := Option.bind_eq_some_iff.1 hvalue
    exact .stored ⟨table, htable, Table.mentions_of_get? hget⟩

end Engine

end SecondaryIndex
