import SecondaryIndex.Proofs.Index.Operations
import SecondaryIndex.Proofs.Twin.Pairing
import SecondaryIndex.Proofs.Twin.Program

/-!
# Programs with and without a reverse half

Twin databases (`Database.Twins`) count the same over twin engines. The second one holds a two-way index, and
the first one the forward half of it as an index of its own. Here are the rules by which operations on the two
are in step: for what reads only, or writes elsewhere (`tracks_of_elsewhere`), for what writes to the index
(`Coupled.tracks`), and for operations in a context (`tracks_transactionally`).

A write to the index is a write to the forward half that is followed, in the second database, by one to the
reverse half (`Coupled`). While it is under way the databases are only alike but for the reverse namespace.
That they are twins again when it is done takes three things: the second write fails only where the first
would have failed, it is not noticed outside its namespace, and the two together come to writes to pairs.

An operation that auto-commits is not refused in either database, since its transaction starts from the last
commit. So it does not matter here that a conflict would be told in different namespaces.
-/

namespace SecondaryIndex

open Program IndexM

variable {K V α β : Type} {index : TwoWayIndex K V} {spaces : List Namespace} {id : TransactionId}

/-- Two databases that count the same, the second of which holds the reverse half of an index as well. -/
abbrev Database.Twins (index : TwoWayIndex K V) (spaces : List Namespace) : Database → Database → Prop :=
  Database.Alike (Engine.Twins index spaces)

/-- Twin databases are the same but for the reverse half. -/
theorem Database.Alike.alikeBut {db db' : Database} (h : Database.Twins index spaces db db') :
    Database.AlikeBut index.reverse.ns db db' := h.mono fun _ _ hengines => hengines.alike

/-! ### Reading, and writing elsewhere -/

/-- Twins stay twins where each of them has worked in a transaction, if what was written comes to pairs. -/
theorem Engine.Twins.worked {e e' e₁ e₁' : Engine} {allowed allowed' : Allowance}
    {c : Changes Place Bytes} {d : Changes (K × V) Unit} (h : Engine.Twins index spaces e e')
    (hworks : Engine.Works allowed id e e₁) (hworks' : Engine.Works allowed' id e' e₁')
    (halike : e₁.AlikeBut index.reverse.ns e₁')
    (hledger : e₁'.ledger = e'.ledger.write c (some id)) (hc : index.presentation.changes c d) :
    Engine.Twins index spaces e₁ e₁' :=
  ⟨halike, hworks.steady.sound h.sound, h.pairs.worked hworks' hledger hc,
    fun ns hns => hworks'.steady.hasNamespace (h.there ns hns)⟩

/-- What is in step but for the reverse namespace, and writes only where the index does not, is in step. -/
theorem tracks_of_elsewhere {x : IndexM α} {allowed : Allowance} (id : TransactionId)
    (h : Tracks (Database.AlikeBut index.reverse.ns) Eq x x) (hconfined : Confined allowed id x)
    (helsewhere : ∀ y slot, allowed y slot → y.1 ∉ (AnyIndex.twoWay index).namespaces) :
    Tracks (Database.Twins index spaces) Eq x x := by
  intro db db' hdb
  obtain ⟨hagree, halike⟩ := h db db' hdb.alikeBut
  obtain ⟨c, hadmits, hledger⟩ := (hconfined db').exists_changes
  have hnothing : (AnyIndex.twoWay index).presentation.changes c .nothing := by
    refine AnyIndex.changes_of_spared _ fun ns hns p => ?_
    cases hc : c (ns, p) with
    | none => rfl
    | some slot => exact absurd hns (helsewhere _ slot (hadmits _ slot hc))
  exact ⟨hagree, hdb.engines.worked (hconfined db) (hconfined db') halike.engines hledger hnothing,
    halike.metrics⟩

/-- What writes nothing at all is in step if it is but for the reverse namespace. -/
theorem tracks_of_reading {x : IndexM α} (id : TransactionId)
    (h : Tracks (Database.AlikeBut index.reverse.ns) Eq x x)
    (hreads : Confined (fun _ _ => False) id x) : Tracks (Database.Twins index spaces) Eq x x :=
  tracks_of_elsewhere id h hreads fun _ _ => False.elim

/-! ### Writing -/

/-- A program on the forward half and what follows it on the reverse half. Unless something is too long, the
two together fail only where the transaction is not open, and they write pairs. -/
structure Coupled (index : TwoWayIndex K V) (id : TransactionId) (fits : Prop) (first : IndexM α)
    (rest : α → IndexM β) (result : α → β) : Prop where
  forward : Tracks (Database.AlikeBut index.reverse.ns) Eq first first
  reverse : ∀ a, Unnoticed (Database.AlikeBut index.reverse.ns) (rest a)
  gives : ∀ {a db b}, ((rest a).run db).1 = .ok b → b = result a
  confined : ∃ allowed, Confined allowed id first
  confined' : ∃ allowed, Confined allowed id (first >>= rest)
  refuses : Refuses id first
  unfit : ¬ fits → ∃ err, ∀ db, first.run db = (.error err, db)
  acts : ∀ {f g}, index.presentation.views f g →
    Acts fits (AnyIndex.twoWay index).namespaces id f (first >>= rest) fun c _ => ∃ d, index.presentation.changes c d

/-- In a database that holds pairs it comes to pairs, and it fails only in a transaction that is not open. -/
theorem Coupled.wrote {fits : Prop} {first : IndexM α} {rest : α → IndexM β} {result : α → β}
    (h : Coupled index id fits first rest result) (hfits : fits) {db db' : Database}
    (hdb : Database.Twins index (AnyIndex.twoWay index).namespaces db db') :
    ∃ c d, ((first >>= rest).run db').2.engine.ledger = db'.engine.ledger.write c (some id) ∧
      index.presentation.changes c d ∧
      (db'.engine.ledger.Usable (some id) → ∃ b, ((first >>= rest).run db').1 = .ok b) := by
  obtain ⟨pairs, hholds⟩ := hdb.engines.pairs.holds
  have hviews : index.presentation.views (db'.engine.ledger.view (some id)) (pairs.view (some id)) :=
    hholds.view fun _ _ => trivial
  obtain ⟨c, hacted, hok, hlive, -⟩ := h.acts hviews db' fun _ => rfl
  by_cases husable : db'.engine.ledger.Usable (some id)
  · obtain ⟨b, hb⟩ := hlive hfits husable hdb.engines.ready
    obtain ⟨d, hd⟩ := hok b hb
    exact ⟨c, d, hacted.ledger, hd, fun _ => ⟨b, hb⟩⟩
  · -- nowhere to write to, so that it does not matter what would have been written
    refine ⟨.nothing, .nothing, ?_, index.presentation.nothing, fun husable' => absurd husable' husable⟩
    rw [hacted.ledger, Ledger.write_of_not_usable husable, Ledger.write_nothing]

/-- A coupled write is in step with its first part. -/
theorem Coupled.tracks {fits : Prop} {first : IndexM α} {rest : α → IndexM β} {result : α → β}
    (h : Coupled index id fits first rest result) :
    Tracks (Database.Twins index (AnyIndex.twoWay index).namespaces) Eq (result <$> first) (first >>= rest) := by
  intro db db' hdb
  by_cases hfits : fits
  · obtain ⟨allowed, hconfined⟩ := h.confined
    obtain ⟨allowed', hconfined'⟩ := h.confined'
    have hworks := hconfined db
    have hworks' := hconfined' db'
    obtain ⟨c, d, hledger, hd, hlive⟩ := h.wrote hfits hdb
    obtain ⟨hagree, halike⟩ := h.forward db db' hdb.alikeBut
    rw [run_map]
    rcases hrun : first.run db with ⟨outcome, db₁⟩
    rcases hrun' : first.run db' with ⟨outcome', db₁'⟩
    rw [hrun] at hagree halike hworks
    rw [hrun'] at hagree halike
    obtain rfl := hagree.eq
    cases outcome' with
    | error err =>
      rw [run_bind_error hrun'] at hledger hworks' ⊢
      exact ⟨.error err, hdb.engines.worked hworks hworks' halike.engines hledger hd, halike.metrics⟩
    | ok a =>
      -- the first part went through, hence the transaction is open, and so the rest does as well
      have husable : db'.engine.ledger.Usable (some id) :=
        h.refuses.usable_of_ok (congrArg Prod.fst hrun')
      obtain ⟨b, hb⟩ := hlive husable
      rw [run_bind_ok hrun'] at hledger hb hworks' ⊢
      have hdone := h.reverse a db₁ db₁' halike
      refine ⟨?_, hdb.engines.worked hworks hworks' hdone.engines hledger hd, hdone.metrics⟩
      rw [hb, h.gives hb]
      exact .ok rfl
  · -- what is too long is refused before anything else is done
    obtain ⟨err, hrun⟩ := h.unfit hfits
    rw [run_map, hrun, run_bind_error (hrun db')]
    exact ⟨.error err, hdb⟩

/-- What has to be encoded first fails if it cannot be. -/
theorem IndexM.exists_run_ofEncoding_eq {γ : Type} {fits : Prop} {outcome : Except EncodingError γ}
    (houtcome : ∀ {c}, outcome = .ok c → fits) (rest : γ → IndexM α) (hfits : ¬ fits) :
    ∃ err, ∀ db, (IndexM.ofEncoding outcome >>= rest).run db = (.error err, db) := by
  cases houtcome' : outcome with
  | ok c => exact absurd (houtcome houtcome') hfits
  | error err => exact ⟨.encoding err, fun db => by rw [run_bind_error (run_ofEncoding _ db)]⟩

theorem IndexM.eq_of_run_then_pure {x : IndexM β} {a b : α} {db : Database}
    (h : ((x >>= fun _ => pure a).run db).1 = .ok b) : b = a := by
  rw [run_bind] at h
  rcases hrun : x.run db with ⟨_ | _, db'⟩ <;> rw [hrun] at h <;> cases h
  rfl

namespace TwoWayIndex

theorem reverse_mem (index : TwoWayIndex K V) :
    index.reverse.ns ∈ (AnyIndex.twoWay index).namespaces := List.mem_cons_of_mem _ List.mem_cons_self

variable [DecidableEq K] [DecidableEq V] (key : K) {value : V}

/-- The two writes of an addition belong together. The second one fails only if the first one would have. -/
theorem coupled_insert (hsane : index.Sane) (hvalue : index.reverse.codec.Fits value)
    (id : TransactionId) : Coupled index id (index.forward.codec.Fits key)
      (index.forward.insertWithin id key value) (fun _ => index.reverse.insertWithin id value key)
      fun _ => () where
  forward := index.forward.tracks_insertWithin id key value hsane.apart
  reverse _ := index.reverse.unnoticed_insertWithin id value key
  gives _ := rfl
  confined := ⟨_, index.forward.insertWithin_confined id key value⟩
  confined' := ⟨_, index.insert_confined id key value⟩
  refuses := index.forward.insertWithin_refuses id key value
  unfit := exists_run_ofEncoding_eq EntryCodec.fits_of_encode _
  acts _ := .mono (insert_acts hsane (AnyIndex.forward_mem _) index.reverse_mem (fun h => h)
    fun _ => hvalue) fun _ _ hc => ⟨_, hc⟩

/-- The two removals of a pair belong together. -/
theorem coupled_erase (hsane : index.Sane) (hvalue : index.reverse.codec.Fits value)
    (id : TransactionId) : Coupled index id (index.forward.codec.Fits key)
      (index.forward.eraseWithin id key value)
      (fun removed => do
        let _ ← index.reverse.eraseWithin id value key
        pure removed)
      fun removed => removed where
  forward := index.forward.tracks_eraseWithin id key value hsane.apart
  reverse _ := .bind (index.reverse.unnoticed_eraseWithin id value key) fun _ => .pure _
  gives hb := eq_of_run_then_pure hb
  confined := ⟨_, index.forward.eraseWithin_confined id key value⟩
  confined' := ⟨_, index.erase_confined id key value⟩
  refuses := index.forward.eraseWithin_refuses id key value
  unfit := exists_run_ofEncoding_eq EntryCodec.fits_of_encode _
  acts hf := .mono (erase_acts hsane hf (AnyIndex.forward_mem _) index.reverse_mem (fun h => h)
    fun _ => hvalue) fun _ _ hc => ⟨_, hc⟩

/-- The removal of a key goes with that of all its counterparts in the reverse half. -/
theorem coupled_eraseAll (hsane : index.Sane) (id : TransactionId) :
    Coupled index id (index.forward.codec.Fits key) (index.forward.eraseAllWithin id key)
      (fun doomed => do
        index.eraseReverseWithin id key doomed
        pure doomed.length)
      List.length where
  forward := index.forward.tracks_eraseAllWithin id key hsane.apart
  reverse doomed := .bind (index.unnoticed_eraseReverseWithin id key doomed) fun _ => .pure _
  gives hb := eq_of_run_then_pure hb
  confined := ⟨_, index.forward.eraseAllWithin_confined id key⟩
  confined' := ⟨_, index.eraseAll_confined id key⟩
  refuses := index.forward.eraseAllWithin_refuses id key
  unfit hfits := by
    have hrange : ∃ err, ∀ db, (index.forward.keyRange key).run db = (.error err, db) :=
      exists_run_ofEncoding_eq EntryCodec.fits_of_span _ hfits
    obtain ⟨err, hrun⟩ := hrange
    exact ⟨err, fun db => run_bind_error (hrun db)⟩
  acts hf := .mono (eraseAll_acts hsane hf (AnyIndex.forward_mem _) index.reverse_mem fun h => h)
    fun _ _ hc => ⟨_, hc.1⟩

end TwoWayIndex

/-! ### Transactions of their own -/

/-- An operation that has worked in a transaction since this was begun is committed. -/
theorem Confined.commit_ok {allowed : Allowance} {operation : IndexM α} {e : Engine}
    (h : Confined allowed id operation) (hid : id = e.nextTransaction) (hsound : e.Sound)
    (hhealthy : e.faults = .healthy) {db : Database} (hdb : db.engine = e.begun) :
    ((Engine.commit id).run (operation.run db).2.engine).1 = .ok () := by
  subst hid
  have hworks := h db
  obtain ⟨c, -, hledger⟩ := hworks.exists_changes
  rw [hdb] at hworks hledger
  have hbegin : e.Persists e.begun := (Engine.Moves.begins fun hf => hf).persists
  -- nothing has been committed since it was begun, so there is nothing it could conflict with
  obtain ⟨tx, hopen, hstart⟩ := Settles.exists_open_of_begun hworks.steady hledger
  exact (hworks.steady.sound (hbegin.sound hsound)).commit_of_start_eq
    (hworks.steady.healthy (hbegin.healthy hhealthy)) hopen hstart

section Contexts

variable {operation operation' : TransactionId → IndexM α} {undo : α → IndexM Unit}

/-- What the store is asked for on behalf of an operation keeps twins. -/
theorem Database.Alike.called (hsane : index.Sane) {db db' : Database}
    (h : Database.Twins index spaces db db') (call : StoreCall) (htarget : call.target? = none)
    (htouched : call.touched? = none) :
    Database.Twins index spaces { db with engine := ((Engine.perform call).run db.engine).2 }
      { db' with engine := ((Engine.perform call).run db'.engine).2 } := by
  refine ⟨(h.engines.perform hsane (fun ns hns => ?_) fun ns hns => ?_).2, h.metrics⟩
  · rw [htarget] at hns
    cases hns
  · rw [htouched] at hns
    cases hns

theorem Engine.run_begin_of_healthy {e : Engine} (h : e.faults = .healthy) :
    begin.run e = (.ok e.nextTransaction, e.begun) := by
  rw [run_begin, fails_of_healthy _ _ h, drawn_of_healthy _ _ h]
  rfl

/-- The transaction of an operation is settled alike if its commit goes through in both. -/
theorem Database.Alike.settled (hsane : index.Sane) {db db' : Database}
    (h : Database.Twins index spaces db db') (hcommit : ((Engine.commit id).run db.engine).1 = .ok ())
    (hcommit' : ((Engine.commit id).run db'.engine).1 = .ok ()) (outcome : Except IndexError α) :
    Agree Eq ((settle id outcome undo).run db).1 ((settle id outcome undo).run db').1 ∧
      Database.Twins index spaces ((settle id outcome undo).run db).2
        ((settle id outcome undo).run db').2 := by
  cases outcome with
  | error err =>
    have hended : Database.Twins index spaces
        { db with engine := ((Engine.rollback id).run db.engine).2 }
        { db' with engine := ((Engine.rollback id).run db'.engine).2 } := by
      simpa only [Engine.perform, run_map] using h.called hsane (.rollback id) rfl rfl
    rw [run_settle_error, run_settle_error]
    exact ⟨.error err, hended⟩
  | ok a =>
    have hended : Database.Twins index spaces
        { db with engine := ((Engine.commit id).run db.engine).2 }
        { db' with engine := ((Engine.commit id).run db'.engine).2 } := by
      simpa only [Engine.perform, run_map] using h.called hsane (.commit id) rfl rfl
    rw [run_settle_ok hcommit, run_settle_ok hcommit']
    exact ⟨.ok rfl, hended⟩

/-- An operation that is in step within every transaction is in step in a transaction of its own. -/
theorem tracks_committed (hsane : index.Sane)
    (h : ∀ id, Tracks (Database.Twins index spaces) Eq (operation id) (operation' id))
    (hconfined : ∀ id, ∃ allowed, Confined allowed id (operation id))
    (hconfined' : ∀ id, ∃ allowed, Confined allowed id (operation' id)) :
    Tracks (Database.Twins index spaces) Eq (transactionally none operation undo)
      (transactionally none operation' undo) := by
  intro db db' hdb
  have hbegin := Engine.run_begin_of_healthy hdb.engines.alike.healthy
  have hbegin' := Engine.run_begin_of_healthy hdb.engines.alike.healthy'
  rw [run_transactionally_none operation undo (run_ofEngine_ok hbegin),
    run_transactionally_none operation' undo (run_ofEngine_ok hbegin')]
  have hbegun : Database.Twins index spaces { db with engine := db.engine.begun }
      { db' with engine := db'.engine.begun } := by
    simpa only [Engine.perform, run_map, hbegin, hbegin'] using hdb.called hsane .begin rfl rfl
  -- the transaction has one number in both, and starts from the last commit in both
  rw [hdb.engines.alike.next]
  generalize hid : db.engine.nextTransaction = id
  obtain ⟨allowed, hop⟩ := hconfined id
  obtain ⟨allowed', hop'⟩ := hconfined' id
  have hcommit : ((Engine.commit id).run
      ((operation id).run { db with engine := db.engine.begun }).2.engine).1 = .ok () :=
    hop.commit_ok hid.symm hdb.engines.sound hdb.engines.alike.healthy rfl
  have hcommit' : ((Engine.commit id).run
      ((operation' id).run { db' with engine := db'.engine.begun }).2.engine).1 = .ok () :=
    hop'.commit_ok (hdb.engines.alike.next.trans hid).symm hdb.engines.pairs.sound
      hdb.engines.alike.healthy' rfl
  obtain ⟨hagree, htwins⟩ := h id _ _ hbegun
  rw [hagree.eq]
  obtain ⟨hsettled, hended⟩ := htwins.settled hsane hcommit hcommit' _
  exact ⟨hsettled, hended.called hsane (.drop id) rfl rfl⟩

/-- An operation in a context is in step if it is in step in every transaction, and if whatever it writes stays
there. -/
theorem tracks_transactionally (hsane : index.Sane) (ctx : Context)
    (h : ∀ id, Tracks (Database.Twins index spaces) Eq (operation id) (operation' id))
    (hconfined : ∀ id, ∃ allowed, Confined allowed id (operation id))
    (hconfined' : ∀ id, ∃ allowed, Confined allowed id (operation' id)) :
    Tracks (Database.Twins index spaces) Eq (transactionally ctx operation undo)
      (transactionally ctx operation' undo) := by
  cases ctx with
  | none => exact tracks_committed hsane h hconfined hconfined'
  | some id => exact h id

end Contexts

end SecondaryIndex
