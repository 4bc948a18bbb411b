import SecondaryIndex.Proofs.Index.Effects

/-!
# Programs that stop

`Acts` says what a program does within a transaction if it gives a result. `Stops ready spaces id view program
left` is about the other case: if the program fails in an open transaction that sees `view`, then `left` holds of
what it has written by then and of its error. If `ready` is promised, the engine is without faults and has all
of `spaces`. No call of the engine fails then, so that what is said of such failures need not hold.

There is one rule for each way of building programs. A sequence stops where its first part stops, or where its
second part stops, and that was started on what the first part has written (`Stops.bind`). A program that removes
several keys stops before one of them, and what it leaves is the removal of those that come earlier
(`Stops.deleteAll`).
-/

namespace SecondaryIndex

variable {α β : Type}

/-- What a program leaves that fails within an open transaction. -/
def Stops (ready : Prop) (spaces : List Namespace) (id : TransactionId) (view : Place → Option Bytes)
    (program : IndexM α) (left : Changes Place Bytes → IndexError → Prop) : Prop :=
  ∀ db : Database, db.engine.ledger.Usable (some id) → db.engine.ledger.view (some id) = view →
    (ready → db.engine.Ready spaces) → ∀ err, (program.run db).1 = .error err →
      ∃ c, (program.run db).2.engine.ledger = db.engine.ledger.write c (some id) ∧ left c err

namespace Stops

open Program IndexM

variable {ready : Prop} {spaces : List Namespace} {id : TransactionId} {view : Place → Option Bytes}
  {left : Changes Place Bytes → IndexError → Prop}

/-! ### Building programs -/

/-- What is left behind where a program stops can be weakened. -/
theorem mono {program : IndexM α} {left' : Changes Place Bytes → IndexError → Prop}
    (h : Stops ready spaces id view program left) (himp : ∀ c err, left c err → left' c err) :
    Stops ready spaces id view program left' := by
  intro db hu hv hr err herr
  obtain ⟨c, hledger, hleft⟩ := h db hu hv hr err herr
  exact ⟨c, hledger, himp c err hleft⟩

theorem pure (a : α) : Stops ready spaces id view (Pure.pure a : IndexM α) left :=
  fun _ _ _ _ _ => nofun

/-- A sequence stops in its first part, or in the rest with the changes of the first part already made. -/
theorem bind {program : IndexM α} {rest : α → IndexM β} {post : Changes Place Bytes → α → Prop}
    (h : Stops ready spaces id view program left) (hacts : Acts False spaces id view program post)
    (hrest : ∀ c a, post c a → Stops ready spaces id (c.applyTo view) (rest a)
      fun c' err => left (c'.after c) err) :
    Stops ready spaces id view (program >>= rest) left := by
  intro db hu hv hr err herr
  obtain ⟨c, hacted, hok, -⟩ := hacts db fun _ => hv
  have hstops := h db hu hv hr
  rcases hrun : program.run db with ⟨err' | a, db'⟩
  · rw [run_bind_error hrun] at herr ⊢
    rw [hrun] at hstops
    cases herr
    exact hstops err rfl
  · rw [run_bind_ok hrun] at herr ⊢
    rw [hrun] at hacted hok
    -- the rest starts where the transaction sees the writes of the first part
    have hview : db'.engine.ledger.view (some id) = c.applyTo view := by
      rw [hacted.ledger, Ledger.view_write _ _ hu, hv]
    have hready : ready → db'.engine.Ready spaces := fun hp =>
      (hr hp).persists hacted.steady.toPersists
    obtain ⟨c', hledger, hleft⟩ :=
      hrest c a (hok a rfl) db' (hacted.usable_iff.2 hu) hview hready err herr
    refine ⟨c'.after c, ?_, hleft⟩
    rw [hledger, hacted.ledger, Ledger.write_write]

theorem map {g : α → β} {program : IndexM α} (h : Stops ready spaces id view program left) :
    Stops ready spaces id view (g <$> program) left := by
  intro db hu hv hr err herr
  rw [run_map] at herr ⊢
  refine h db hu hv hr err ?_
  cases houtcome : (program.run db).1 with
  | error err' =>
    rw [houtcome] at herr
    cases herr
    rfl
  | ok a =>
    rw [houtcome] at herr
    cases herr

/-- An encoding stops before anything is written. -/
theorem encoding {outcome : Except EncodingError α}
    (h : ∀ cause, outcome = .error cause → left .nothing (.encoding cause)) :
    Stops ready spaces id view (ofEncoding outcome) left := by
  intro db _ _ _ err herr
  rw [run_ofEncoding] at herr ⊢
  cases outcome with
  | ok a => cases herr
  | error cause =>
    cases herr
    exact ⟨.nothing, (Ledger.write_nothing _ _).symm, h cause rfl⟩

/-! ### Calls of the engine -/

variable {ns : Namespace} {key : Bytes}

/-- A call that fails has done nothing, and no call fails if all that it needs is there. -/
theorem engine {program : EngineM α} (hacts : Acts True spaces id view (ofEngine program) fun _ _ => True)
    (hsame : ∀ e err, (program.run e).1 = .error err → (program.run e).2.ledger = e.ledger)
    (h : ¬ ready → ∀ cause, left .nothing (.storage cause)) :
    Stops ready spaces id view (ofEngine program) left := by
  intro db hu hv hr err herr
  by_cases hp : ready
  · obtain ⟨-, -, -, hlive, -⟩ := hacts db fun _ => hv
    obtain ⟨a, ha⟩ := hlive trivial hu (hr hp)
    rw [ha] at herr
    cases herr
  · have hledger := hsame db.engine
    rw [run_ofEngine] at herr ⊢
    rcases hrun : (program.run db.engine).1 with cause | a
    · rw [hrun] at herr
      cases herr
      exact ⟨.nothing, (hledger cause hrun).trans (Ledger.write_nothing _ _).symm, h hp cause⟩
    · rw [hrun] at herr
      cases herr

/-- A lookup stops only where the storage is not ready. -/
theorem lookup (hns : ns ∈ spaces) (h : ¬ ready → ∀ cause, left .nothing (.storage cause)) :
    Stops ready spaces id view (ofEngine (Engine.lookup id ns key)) left := by
  refine engine (.lookup hns trivial) (fun e err _ => ?_) h
  rw [Engine.run_lookup]
  split <;> rfl

/-- A write that fails has written nothing, whichever of the two calls makes it. -/
theorem of_write {program : EngineM Unit} {call : EngineCall} {slot : Slot}
    (hrun : ∀ e : Engine, program.run e =
      if e.fails call then (.error (.injected call), e.drawn call)
      else match e.writtenTo id ns key slot with
        | .ok tx => (.ok ⟨⟩, (e.drawn call).keeping id tx)
        | .error err => (.error err, e.drawn call))
    (hns : ns ∈ spaces) (h : ¬ ready → ∀ cause, left .nothing (.storage cause)) :
    Stops ready spaces id view (ofEngine program) left := by
  refine engine (.of_write hrun hns trivial) (fun e err herr => ?_) h
  rw [hrun] at herr ⊢
  cases hfails : e.fails call with
  | true => rfl
  | false =>
    rw [hfails, if_neg Bool.false_ne_true] at herr
    rw [if_neg Bool.false_ne_true]
    cases hwritten : e.writtenTo id ns key slot with
    | error err' => rfl
    | ok tx =>
      rw [hwritten] at herr
      cases herr

/-- A buffered write that stops has written nothing. -/
theorem put {value : Bytes} (hns : ns ∈ spaces)
    (h : ¬ ready → ∀ cause, left .nothing (.storage cause)) :
    Stops ready spaces id view (ofEngine (Engine.put id ns key value)) left :=
  of_write (fun e => Engine.run_put e id ns key value) hns h

/-- A buffered deletion that stops has deleted nothing. -/
theorem delete (hns : ns ∈ spaces) (h : ¬ ready → ∀ cause, left .nothing (.storage cause)) :
    Stops ready spaces id view (ofEngine (Engine.delete id ns key)) left :=
  of_write (fun e => Engine.run_delete e id ns key) hns h

/-- An iterator that is not opened leaves nothing behind. -/
theorem openIterator {range : Range} (hns : ns ∈ spaces)
    (h : ¬ ready → ∀ cause, left .nothing (.storage cause)) :
    Stops ready spaces id view (ofEngine (Engine.openIterator id ns range)) left := by
  refine engine (.openIterator hns fun _ _ => trivial) (fun e err _ => ?_) h
  rw [Engine.run_openIterator]
  split
  · rfl
  · split <;> rfl

theorem status (h : ¬ ready → ∀ cause, left .nothing (.storage cause)) :
    Stops ready spaces id view (ofEngine Engine.status) left := by
  refine engine (.status trivial) (fun e err _ => ?_) h
  rw [Engine.run_status]
  split <;> rfl

/-- Looking into an iterator writes nothing. -/
theorem look {range : Range} (hns : ns ∈ spaces) (look : RawIterator → α)
    (h : ¬ ready → ∀ cause, left .nothing (.storage cause)) :
    Stops ready spaces id view
      (IndexM.withIterator id ns range fun it => do
        ofEngine Engine.status
        Pure.pure (look it)) left := by
  have hlooked (it : RawIterator) : Stops ready spaces id view
      (do let outcome ← attempt (do
            ofEngine Engine.status
            Pure.pure (look it))
          IndexM.releaseIterator
          ofOutcome outcome) left := by
    have hstatus : Acts False spaces id view (ofEngine Engine.status) fun _ _ => True :=
      .status trivial
    have hstops : Stops ready spaces id view
        (do ofEngine Engine.status; Pure.pure (look it)) left :=
      bind (status h) hstatus fun _ _ _ => pure _
    -- that the iterator is released makes no difference to the ledger
    exact fun db hu hv hr err herr => hstops db hu hv hr err herr
  have hopened : Acts False spaces id view (ofEngine (Engine.openIterator id ns range))
      fun c _ => c = .nothing := .openIterator hns fun _ _ => rfl
  refine bind (openIterator hns h) hopened ?_
  rintro c it rfl
  simpa using hlooked it

/-- Who removes keys one after the other stops before one of them. -/
theorem deleteAll (hns : ns ∈ spaces) (keys : List Bytes)
    (h : ¬ ready → ∀ m ≤ keys.length, ∀ cause, left (.removing ns (keys.take m)) (.storage cause)) :
    Stops ready spaces id view
      (keys.forM fun key => ofEngine (Engine.delete id ns key)) left := by
  -- along the keys; what the later removals go on top of is part of what is left
  induction keys generalizing view left with
  | nil => exact pure _
  | cons key keys ih =>
    rw [List.forM_eq_forM, List.forM_cons, ← List.forM_eq_forM]
    have hdeleted : Acts False spaces id view (ofEngine (Engine.delete id ns key))
        fun c _ => c = .single (ns, key) none := .delete hns rfl
    refine bind (delete hns fun hp cause => ?_) hdeleted ?_
    · have hfirst := h hp 0 (Nat.zero_le _) cause
      rwa [List.take_zero, Changes.removing_nil] at hfirst
    · rintro c ⟨⟩ rfl
      refine ih fun hp m hm cause => ?_
      rw [Changes.removing_after_single]
      exact h hp (m + 1) (Nat.succ_le_succ hm) cause

end Stops

/-! ### Parts of operations -/

namespace Index

open IndexM

variable {K V : Type} {index : Index K V} {ready : Prop} {spaces : List Namespace} {id : TransactionId}
  {f : Place → Option Bytes} {left : Changes Place Bytes → IndexError → Prop} {key : K} {value : V}

/-- An insertion stops at its encoding, or at the storage, and has written nothing. -/
theorem insertWithin_stops (hns : index.ns ∈ spaces)
    (hencode : ∀ cause, index.codec.encode key value = .error cause → left .nothing (.encoding cause))
    (h : ¬ ready → ∀ cause, left .nothing (.storage cause)) :
    Stops ready spaces id f (index.insertWithin id key value) left := by
  refine .bind (.encoding hencode) (encode_acts False.elim) ?_
  rintro c p ⟨rfl, -⟩
  refine .put hns fun hp cause => ?_
  rw [Changes.after_nothing]
  exact h hp cause

/-- Erasing removes one physical key at most, and that comes last. -/
theorem eraseWithin_stops (hns : index.ns ∈ spaces)
    (hencode : ∀ cause, index.codec.encode key value = .error cause → left .nothing (.encoding cause))
    (h : ¬ ready → ∀ cause, left .nothing (.storage cause)) :
    Stops ready spaces id f (index.eraseWithin id key value) left := by
  refine .bind (.encoding hencode) (encode_acts False.elim) ?_
  rintro c p ⟨rfl, -⟩
  have hlookup : Acts False spaces id f (IndexM.ofEngine (Engine.lookup id index.ns p)) fun c _ =>
      c = .nothing := .lookup hns rfl
  refine .bind (.lookup hns h) hlookup ?_
  rintro c slot rfl
  cases slot with
  | none => exact .pure _
  | some bytes =>
    have hdelete : Acts False spaces id f (IndexM.ofEngine (Engine.delete id index.ns p)) fun _ _ =>
        True := .delete hns trivial
    exact .bind (.delete hns h) hdelete fun _ _ _ => .pure _

theorem keyRange_stops
    (hspan : ∀ cause, index.codec.span key = .error cause → left .nothing (.encoding cause)) :
    Stops ready spaces id f (index.keyRange key) left := by
  have hacts : Acts False spaces id f (ofEncoding (index.span key)) fun _ _ => True :=
    .encoding (fun _ _ => trivial) False.elim
  exact .bind (.encoding hspan) hacts fun _ _ _ => .pure _

/-- Erasing the pairs of a key stops before one of the physical keys that are listed in its range. -/
theorem eraseAllWithin_stops (hns : index.ns ∈ spaces)
    (hspan : ∀ cause, index.codec.span key = .error cause → left .nothing (.encoding cause))
    (hlook : ¬ ready → ∀ cause, left .nothing (.storage cause))
    (h : ¬ ready → ∀ lower upper doomed, index.codec.span key = .ok (lower, upper) →
      Listing f index.ns ⟨.included lower, upper⟩ doomed → ∀ m ≤ doomed.length, ∀ cause,
        left (.removing index.ns (doomed.take m)) (.storage cause)) :
    Stops ready spaces id f (index.eraseAllWithin id key) left := by
  rw [eraseAllWithin_eq]
  refine .bind (keyRange_stops hspan) (keyRange_acts False.elim) ?_
  rintro c range ⟨rfl, lower, upper, hspan, rfl⟩
  have hdoomed : Acts False spaces id f
      (IndexM.withIterator id index.ns ⟨.included lower, upper⟩ fun iterator => do
        IndexM.ofEngine Engine.status
        pure iterator.keys) fun c keys =>
        c = .nothing ∧ Listing f index.ns ⟨.included lower, upper⟩ keys :=
    .look hns fun keys hkeys => ⟨rfl, hkeys⟩
  refine .bind (.look hns _ hlook) hdoomed ?_
  rintro c keys ⟨rfl, hkeys⟩
  have hdeleted : Acts False spaces id f
      (keys.forM fun p => IndexM.ofEngine (Engine.delete id index.ns p)) fun _ _ => True :=
    .deleteAll hns keys trivial
  refine .bind (.deleteAll hns keys fun hp m hm cause => ?_) hdeleted fun _ _ _ => .pure _
  simpa only [Changes.after_nothing] using h hp lower upper keys hspan hkeys m hm cause

end Index

namespace TwoWayIndex

variable {K V : Type} {index : TwoWayIndex K V} {ready : Prop} {spaces : List Namespace}
  {id : TransactionId} {f : Place → Option Bytes} {left : Changes Place Bytes → IndexError → Prop}
  {key : K} {value : V}

/-- The reverse half cannot take back what is seen of a physical key: no value can be read from it, or the value
is too long to be looked up. -/
def Resists (index : TwoWayIndex K V) (key : K) (p : Bytes) (cause : EncodingError) : Prop :=
  index.forward.codec.readValue p = .error cause ∨
    ∃ value, index.forward.codec.readValue p = .ok value ∧
      index.reverse.codec.encode value key = .error cause

/-- Taking back physical keys stops before one of them, or at one that resists. -/
theorem eraseReverseWithin_stops (hreverse : index.reverse.ns ∈ spaces) (doomed : List Bytes)
    (hresists : ∀ c, ∀ p ∈ doomed, ∀ cause, index.Resists key p cause → left c (.encoding cause))
    (h : ¬ ready → ∀ m ≤ doomed.length, ∀ cause,
      left (.clearing f (index.Listed key (doomed.take m))) (.storage cause)) :
    Stops ready spaces id f (index.eraseReverseWithin id key doomed) left := by
  unfold eraseReverseWithin
  -- along the physical keys; each round sees what the rounds before it have left
  induction doomed generalizing f left with
  | nil => exact .pure _
  | cons p doomed ih =>
    rw [List.forM_eq_forM, List.forM_cons, ← List.forM_eq_forM]
    have hround : Stops ready spaces id f
        (do let value ← IndexM.ofEncoding (index.forward.codec.readValue p)
            let _ ← index.reverse.eraseWithin id value key
            pure ()) left := by
      have hread : Acts False spaces id f (IndexM.ofEncoding (index.forward.codec.readValue p))
          fun c value => c = .nothing ∧ index.forward.codec.readValue p = .ok value :=
        .encoding (fun _ hv => ⟨rfl, hv⟩) False.elim
      refine .bind (.encoding fun cause hcause => ?_) hread ?_
      · exact hresists _ p List.mem_cons_self cause (.inl hcause)
      rintro c value ⟨rfl, hvalue⟩
      have herased : Acts False spaces id f (index.reverse.eraseWithin id value key) fun _ _ => True :=
        .mono (Index.eraseWithin_deletes hreverse False.elim) fun _ _ _ => trivial
      refine .bind (Index.eraseWithin_stops hreverse (fun cause hcause => ?_) fun hp cause => ?_) herased
        fun _ _ _ => .pure _
      · exact hresists _ p List.mem_cons_self cause (.inr ⟨value, hvalue, hcause⟩)
      · have hfirst := h hp 0 (Nat.zero_le _) cause
        rwa [List.take_zero, clearing_listed_nil] at hfirst
    refine .bind hround (eraseReverse_deletes hreverse p) ?_
    rintro c ⟨⟩ ⟨value, hback, rfl⟩
    refine ih (fun c q hq => hresists _ q (List.mem_cons_of_mem _ hq)) fun hp m hm cause => ?_
    rw [clearing_listed_cons hback]
    exact h hp (m + 1) (Nat.succ_le_succ hm) cause

/-- Erasing the pairs of a key stops in the forward half, or in the reverse half when the forward half is done. -/
theorem eraseAll_stops (hforward : index.forward.ns ∈ spaces) (hreverse : index.reverse.ns ∈ spaces)
    (hspan : ∀ cause, index.forward.codec.span key = .error cause → left .nothing (.encoding cause))
    (hlook : ¬ ready → ∀ cause, left .nothing (.storage cause))
    (h : ∀ lower upper doomed, index.forward.codec.span key = .ok (lower, upper) →
      Listing f index.forward.ns ⟨.included lower, upper⟩ doomed →
        (∀ c, ∀ p ∈ doomed, ∀ cause, index.Resists key p cause → left c (.encoding cause)) ∧
        (¬ ready → ∀ m ≤ doomed.length, ∀ cause,
          left (.removing index.forward.ns (doomed.take m)) (.storage cause) ∧
          left (.clearing f fun x => index.forward.Under key x ∨ index.Listed key (doomed.take m) x)
            (.storage cause))) :
    Stops ready spaces id f
      (do let doomed ← index.forward.eraseAllWithin id key
          index.eraseReverseWithin id key doomed
          pure doomed.length) left := by
  refine .bind (Index.eraseAllWithin_stops hforward hspan hlook
    fun hp lower upper doomed hspan hkeys m hm cause => ?_) (Index.eraseAllWithin_deletes hforward False.elim) ?_
  · exact ((h lower upper doomed hspan hkeys).2 hp m hm cause).1
  · rintro c doomed ⟨rfl, lower, upper, hspan, hkeys⟩
    obtain ⟨hresists, hstorage⟩ := h lower upper doomed hspan hkeys
    refine .bind (eraseReverseWithin_stops hreverse doomed (fun c p hp => hresists _ p hp)
      fun hp m hm cause => ?_) (eraseReverseWithin_deletes hreverse doomed) fun _ _ _ => .pure _
    rw [Index.clearing_under hspan hkeys, Changes.clearing_after]
    exact (hstorage hp m hm cause).2

end TwoWayIndex

end SecondaryIndex
