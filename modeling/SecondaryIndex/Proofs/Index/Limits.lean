import SecondaryIndex.Codec.Item
import SecondaryIndex.Proofs.Index.Endings
import SecondaryIndex.Proofs.Index.Rejects
import SecondaryIndex.Proofs.Index.Removal

/-!
# Keys within their limit

A key that is within the limit of its layout is never the reason why a key is reported to be too long. What
an operation that takes it reports is an error of the engine, an error in what is stored, that nothing was
found, or that a value is too long for the reverse half (`AnyIndex.operate_not_tooLong`).

`IndexM.NeverTooLong` says this of a program, wherever it is run. There is one rule for each way of building
programs. Only the removal of a key from both halves of an index depends on where it is run, since it writes
the values of the key as keys of the reverse half, and these are the ones that its context sees
(`AnyIndex.Turned`).
-/

namespace SecondaryIndex

variable {K V α β : Type}

/-- An error that tells of a key that is too long. -/
def IndexError.TooLong (err : IndexError) : Prop :=
  ∃ length limit, err = .encoding (.keyTooLong length limit)

/-! ### Reading -/

/-- A codec that reads without regard to the limits of keys, which are up to the layout. -/
def Codec.Unlimited (codec : Codec α) : Prop :=
  ∀ buffer offset length cause, codec.decode buffer offset length = .error cause →
    ¬ (IndexError.encoding cause).TooLong

/-- A codec that reads whole windows has no limit if its reading never complains of a length. -/
theorem Codec.unlimited_ofWhole {encode : α → Bytes} {read : Bytes → Except EncodingError α}
    (h : ∀ bytes cause, read bytes = .error cause → ¬ (IndexError.encoding cause).TooLong) :
    (Codec.ofWhole encode read).Unlimited := by
  intro buffer offset length cause hcause
  have hread : (do read (← buffer.window offset length)) = .error cause := hcause
  cases hwindow : buffer.window offset length with
  | ok bytes =>
    rw [hwindow] at hread
    exact h bytes cause hread
  | error err =>
    rw [hwindow] at hread
    unfold Bytes.window at hwindow
    split at hwindow
    · cases hwindow
    · cases hwindow
      cases hread
      exact nofun

/-- The stock codecs are of this kind. -/
theorem ItemKind.codec_unlimited (kind : ItemKind) : kind.codec.Unlimited := by
  -- whatever is read wrong, it is a word of another length or malformed text
  cases kind with
  | verbatim => exact Codec.unlimited_ofWhole nofun
  | unsigned =>
    refine Codec.unlimited_ofWhole fun bytes cause hcause => ?_
    cases hread : BigEndian.toUInt64? bytes with
    | some w =>
      rw [hread] at hcause
      cases hcause
    | none =>
      rw [hread] at hcause
      cases hcause
      exact nofun
  | signed =>
    refine Codec.unlimited_ofWhole fun bytes cause hcause => ?_
    cases hread : BigEndian.toInt64? bytes with
    | some v =>
      rw [hread] at hcause
      cases hcause
    | none =>
      rw [hread] at hcause
      cases hcause
      exact nofun
  | text =>
    refine Codec.unlimited_ofWhole fun bytes cause hcause => ?_
    cases hread : Utf8.decode bytes with
    | ok chars =>
      rw [hread] at hcause
      cases hcause
    | error fault =>
      rw [hread] at hcause
      cases hcause
      exact nofun

/-- Splitting a stored key never complains of a length. -/
theorem Layout.split_not_tooLong {layout : Layout} {physical : Bytes} {cause : EncodingError}
    (h : layout.split physical = .error cause) : ¬ (IndexError.encoding cause).TooLong := by
  unfold split at h
  split at h
  · cases h
    exact nofun
  · dsimp only at h
    split at h
    · cases h
      exact nofun
    · cases h

/-- Reading the value of a stored key complains of a length only if the codec of the values does. -/
theorem EntryCodec.readValue_not_tooLong {codec : EntryCodec K V} (hvalues : codec.values.Unlimited)
    {physical : Bytes} {cause : EncodingError} (h : codec.readValue physical = .error cause) :
    ¬ (IndexError.encoding cause).TooLong := by
  unfold readValue at h
  cases hsplit : codec.layout.split physical with
  | ok parts =>
    rw [hsplit] at h
    exact hvalues _ _ _ _ h
  | error err =>
    rw [hsplit] at h
    cases h
    exact Layout.split_not_tooLong hsplit

/-- What stops the reading of physical keys is one that cannot be read. -/
theorem Cursor.exists_of_readUntil_error {decode : Bytes → Except EncodingError α} {keys : List Bytes}
    {err : IndexError} (h : (readUntil decode keys).2 = some err) :
    ∃ p ∈ keys, ∃ cause, decode p = .error cause ∧ err = .encoding cause := by
  induction keys with
  | nil => cases h
  | cons p keys ih =>
    unfold readUntil at h
    cases hdecode : decode p with
    | error cause =>
      rw [hdecode] at h
      exact ⟨p, List.mem_cons_self, cause, hdecode, (Option.some.inj h).symm⟩
    | ok x =>
      rw [hdecode] at h
      obtain ⟨q, hq, hcause⟩ := ih h
      exact ⟨q, List.mem_cons_of_mem p hq, hcause⟩

/-! ### Programs -/

/-- Run from a database, a program does not tell of a key that is too long. -/
def IndexM.WithinLimits (program : IndexM α) (db : Database) : Prop :=
  ∀ err, (program.run db).1 = .error err → ¬ err.TooLong

/-- Whether a program never complains of a length, wherever it is run. -/
def IndexM.NeverTooLong (program : IndexM α) : Prop := ∀ db, WithinLimits program db

namespace IndexM

open Program

variable {program : IndexM α} {rest : α → IndexM β} {db : Database}

/-- The rest has to stay within the limits only where the first part gets. -/
theorem WithinLimits.bind (h : WithinLimits program db)
    (hrest : ∀ a db', program.run db = (.ok a, db') → WithinLimits (rest a) db') :
    WithinLimits (program >>= rest) db := by
  intro err herr
  rcases hrun : program.run db with ⟨err' | a, db'⟩
  · rw [run_bind_error hrun] at herr
    cases herr
    exact h err (congrArg Prod.fst hrun)
  · rw [run_bind_ok hrun] at herr
    exact hrest a db' hrun err herr

theorem WithinLimits.map (h : WithinLimits program db) (f : α → β) : WithinLimits (f <$> program) db := by
  rw [map_eq_pure_bind]
  exact h.bind fun _ _ _ _ => nofun

namespace NeverTooLong

theorem pure (a : α) : NeverTooLong (Pure.pure a : IndexM α) := fun _ _ => nofun

/-- The rest need not complain only of the results the first part can give. -/
theorem bind_of (h : NeverTooLong program)
    (hrest : ∀ db a db', program.run db = (.ok a, db') → NeverTooLong (rest a)) :
    NeverTooLong (program >>= rest) := fun db => (h db).bind fun a db' hrun => hrest db a db' hrun db'

/-- Two parts that never complain of a length make a program that does not. -/
theorem bind (h : NeverTooLong program) (hrest : ∀ a, NeverTooLong (rest a)) :
    NeverTooLong (program >>= rest) := h.bind_of fun _ a _ _ => hrest a

theorem map (h : NeverTooLong program) (f : α → β) : NeverTooLong (f <$> program) := fun db => (h db).map f

theorem modify (f : Database → Database) : NeverTooLong (modifyThe Database f : IndexM PUnit) :=
  fun _ _ => nofun

theorem throw {err : IndexError} (h : ¬ err.TooLong) : NeverTooLong (throw err : IndexM α) := by
  intro db err' herr
  obtain rfl : err = err' := Except.error.inj herr
  exact h

/-- An encoding complains only where it fails. -/
theorem encoding {outcome : Except EncodingError α}
    (h : ∀ cause, outcome = .error cause → ¬ (IndexError.encoding cause).TooLong) :
    NeverTooLong (ofEncoding outcome) := by
  intro db err herr
  rw [run_ofEncoding] at herr
  cases outcome with
  | ok a => cases herr
  | error cause =>
    cases herr
    exact h cause rfl

/-- An encoding that succeeds complains of nothing. -/
theorem encoding_ok {outcome : Except EncodingError α} (h : ∃ a, outcome = .ok a) :
    NeverTooLong (ofEncoding outcome) := by
  obtain ⟨a, rfl⟩ := h
  exact .encoding nofun

/-- The engine knows no keys but physical ones. -/
theorem engine (program : EngineM α) : NeverTooLong (ofEngine program) := by
  intro db err herr
  rw [run_ofEngine] at herr
  cases houtcome : (program.run db.engine).1 with
  | ok a =>
    rw [houtcome] at herr
    cases herr
  | error cause =>
    rw [houtcome] at herr
    cases herr
    exact nofun

/-- A loop complains of nothing if no round of it does. -/
theorem forM {l : List β} {act : β → IndexM PUnit} (h : ∀ b ∈ l, NeverTooLong (act b)) :
    NeverTooLong (l.forM act) := by
  induction l with
  | nil => exact .pure _
  | cons b l ih =>
    rw [List.forM_eq_forM, List.forM_cons, ← List.forM_eq_forM]
    exact (h b List.mem_cons_self).bind fun _ => ih fun c hc => h c (List.mem_cons_of_mem b hc)

/-- Releasing the iterator changes nothing of the outcome. -/
theorem withIterator {id : TransactionId} {ns : Namespace} {range : Range} {look : RawIterator → IndexM α}
    (h : ∀ it, NeverTooLong (look it)) : NeverTooLong (IndexM.withIterator id ns range look) :=
  (engine _).bind fun it db err herr => h it db err herr

/-- How a transaction of its own is settled adds errors of the engine to those of an operation, and those of taking
back. -/
theorem settle {id : TransactionId} {outcome : Except IndexError α} {undo : α → IndexM Unit}
    (houtcome : ∀ err, outcome = .error err → ¬ err.TooLong) (hundo : ∀ a, NeverTooLong (undo a)) :
    NeverTooLong (IndexM.settle id outcome undo) := by
  cases outcome with
  | error err =>
    intro db err' herr
    rw [run_settle_error] at herr
    cases herr
    exact houtcome err rfl
  | ok a =>
    unfold IndexM.settle
    -- an attempt does not fail, whatever comes of the commit
    refine .bind_of (fun _ _ => nofun) fun db committed db' hrun => ?_
    have hcommitted : ((ofEngine (Engine.commit id)).run db).1 = committed :=
      Except.ok.inj (congrArg Prod.fst hrun)
    cases committed with
    | ok _ => exact .pure a
    | error err =>
      have herr : ¬ err.TooLong := engine _ db err hcommitted
      exact (hundo a).bind fun _ => .throw herr

end NeverTooLong

section Contexts

variable {operation : TransactionId → IndexM α} {undo : α → IndexM Unit} {ctx : Context}

/-- An operation in a context is run where it sees what the context sees. -/
theorem WithinLimits.transactionally (hundo : ∀ a, NeverTooLong (undo a))
    (h : ∀ id db₁, (db₁.engine.ledger.Usable (some id) →
      db₁.engine.ledger.view (some id) = db.engine.ledger.view ctx) → WithinLimits (operation id) db₁) :
    WithinLimits (IndexM.transactionally ctx operation undo) db := by
  cases ctx with
  | some id => exact h id db fun _ => rfl
  | none =>
    intro err herr
    have hbegin := Engine.run_begin db.engine
    cases hfails : db.engine.fails .begin with
    | true =>
      rw [run_transactionally_fails operation undo hfails] at herr
      cases herr
      exact nofun
    | false =>
      rw [hfails, if_neg Bool.false_ne_true] at hbegin
      rw [run_transactionally_none operation undo (run_ofEngine_ok hbegin)] at herr
      have hoperation := h db.engine.nextTransaction
        { db with engine := (db.engine.drawn .begin).begun } fun _ => Engine.view_begun
      exact NeverTooLong.settle hoperation hundo _ err herr

/-- A transaction around an operation adds only complaints of the storage. -/
theorem NeverTooLong.transactionally (h : ∀ id, NeverTooLong (operation id))
    (hundo : ∀ a, NeverTooLong (undo a)) : NeverTooLong (IndexM.transactionally ctx operation undo) :=
  fun _ => .transactionally hundo fun id db₁ _ => h id db₁

theorem NeverTooLong.within (h : ∀ id, NeverTooLong (operation id)) :
    NeverTooLong (IndexM.within ctx operation) := .transactionally h fun _ => .pure ()

end Contexts

end IndexM

/-! ### Draining -/

open IndexM in
/-- What stops a cursor that goes from entry to entry is the engine, or an item that cannot be read. -/
theorem Cursor.Terminates.count_neverTooLong {cursor : Cursor α} (h : cursor.Terminates)
    (hstride : cursor.stride = .entry)
    (hdecode : ∀ p cause, cursor.decode p = .error cause → ¬ (IndexError.encoding cause).TooLong) :
    NeverTooLong cursor.count := by
  intro db err herr
  obtain ⟨items, error?, -, -, -, -, hexhausts, hdelivers⟩ := h.forward db
  rw [hexhausts.counted] at herr
  cases hdelivers with
  | interrupted hfaults hfirst =>
    cases herr
    exact nofun
  | all =>
    cases herror : cursor.remaining.2 with
    | none =>
      rw [herror] at herr
      cases herr
    | some err' =>
      rw [herror] at herr
      cases herr
      rw [remaining_of_free (stuck?_of_entry hstride)] at herror
      obtain ⟨p, -, cause, hcause, rfl⟩ := exists_of_readUntil_error herror
      exact hdecode p cause hcause

/-! ### Keys that fit -/

namespace Index

open Program IndexM

variable {index : Index K V} {key : K} {id : TransactionId} {ctx : Context}

/-- A cursor over the values of a key reads values. -/
theorem decode_of_find {db db' : Database} {cursor : Cursor V}
    (hrun : (index.find ctx key).run db = (.ok cursor, db')) : cursor.decode = index.codec.readValue := by
  unfold find at hrun
  rcases hrange : (index.keyRange key).run db with ⟨err | range, db₁⟩
  · rw [run_bind_error hrange] at hrun
    cases hrun
  · rw [run_bind_ok hrange] at hrun
    exact (opened_of_openCursor hrun).decode

/-- Opening a cursor encodes nothing. -/
theorem openCursor_neverTooLong (range : Range) (decode : Bytes → Except EncodingError α)
    (seeking : Seeking α) (stride : Stride) :
    NeverTooLong (index.openCursor ctx range decode seeking stride) := by
  have hopen : NeverTooLong (index.openIterator ctx range) :=
    .transactionally (fun id => .engine _) fun _ => .modify _
  exact hopen.bind fun it => (NeverTooLong.modify _).bind fun _ => .pure _

theorem estimateRange_neverTooLong (range : Range) : NeverTooLong (index.estimateRange range) :=
  (NeverTooLong.engine _).bind fun _ => (NeverTooLong.engine _).bind fun _ =>
    (NeverTooLong.modify _).bind fun _ => .pure _

section Fitting

variable (h : index.codec.Fits key)

include h

/-- A key that fits is encoded with every value. -/
theorem encode_neverTooLong (value : V) : NeverTooLong (ofEncoding (index.codec.encode key value)) :=
  .encoding_ok (EntryCodec.exists_encode h value)

/-- A key that fits has a span. -/
theorem span_neverTooLong : NeverTooLong (ofEncoding (index.span key)) := by
  obtain ⟨lower, upper, hspan⟩ := EntryCodec.exists_span h
  exact .encoding_ok ⟨_, hspan⟩

theorem keyRange_neverTooLong : NeverTooLong (index.keyRange key) :=
  (span_neverTooLong h).bind fun _ => .pure _

theorem insertWithin_neverTooLong (value : V) : NeverTooLong (index.insertWithin id key value) :=
  (encode_neverTooLong h value).bind fun _ => .engine _

theorem eraseWithin_neverTooLong (value : V) : NeverTooLong (index.eraseWithin id key value) := by
  refine (encode_neverTooLong h value).bind fun p => (NeverTooLong.engine _).bind fun found => ?_
  cases found with
  | none => exact .pure false
  | some _ => exact (NeverTooLong.engine _).bind fun _ => .pure true

theorem eraseAllWithin_neverTooLong : NeverTooLong (index.eraseAllWithin id key) := by
  refine (keyRange_neverTooLong h).bind fun range => NeverTooLong.bind ?_ fun doomed => ?_
  · exact .withIterator fun it => (NeverTooLong.engine _).bind fun _ => .pure _
  · exact (NeverTooLong.forM fun _ _ => .engine _).bind fun _ => .pure doomed

theorem find_neverTooLong : NeverTooLong (index.find ctx key) :=
  (keyRange_neverTooLong h).bind fun range => openCursor_neverTooLong range _ _ _

theorem estimateKey_neverTooLong : NeverTooLong (index.estimateKey key) :=
  (keyRange_neverTooLong h).bind fun range => estimateRange_neverTooLong range

variable (hvalues : index.codec.values.Unlimited)

include hvalues

/-- The first value of a key that fits is looked for without a complaint. -/
theorem findFirst_neverTooLong : NeverTooLong (index.findFirst ctx key) := by
  refine (keyRange_neverTooLong h).bind fun range => NeverTooLong.bind ?_ fun physical? => ?_
  · exact .within fun id => .withIterator fun it => (NeverTooLong.engine _).bind fun _ => .pure _
  · cases physical? with
    | none => exact .throw nofun
    | some p => exact .encoding fun cause => EntryCodec.readValue_not_tooLong hvalues

/-- The values of a key that fits are counted without a complaint. -/
theorem countKey_neverTooLong : NeverTooLong (index.countKey ctx key) := by
  refine (find_neverTooLong h).bind_of fun db cursor db' hrun => ?_
  obtain ⟨range, hopens⟩ := exists_opens_of_find hrun
  obtain ⟨-, hstride, hterminates⟩ := hopens.walks_terminate .refl
  refine hterminates.count_neverTooLong hstride fun p cause hcause => ?_
  rw [decode_of_find hrun] at hcause
  exact EntryCodec.readValue_not_tooLong hvalues hcause

end Fitting

end Index

/-! ### Values that turn into keys -/

/-- A value that is seen under a key: who removes the key from both halves writes it as a key. -/
def Index.Turned (index : Index K V) (view : Place → Option Bytes) (key : K) (value : V) : Prop :=
  ∃ p, index.Doomed view key p ∧ index.codec.readValue p = .ok value

/-- The values that an operation writes as keys, if there is a reverse half. -/
def IndexOperation.Turns (index : AnyIndex K V) (view : Place → Option Bytes)
    (operation : IndexOperation K V) (value : V) : Prop :=
  match operation with
  | call (.add _ value') | call (.remove _ value') => value = value'
  | call (.removeAll key) => index.forward.Turned view key value
  | _ => False

namespace TwoWayIndex

open Program IndexM

variable {index : TwoWayIndex K V} {key : K} {value : V} {id : TransactionId} {db : Database}
  {view : Place → Option Bytes}

/-- The reverse half encodes the values it reads back, so these are what has to fit. -/
theorem eraseReverseWithin_neverTooLong (hvalues : index.forward.codec.values.Unlimited)
    {doomed : List Bytes} (h : ∀ p ∈ doomed, ∀ value, index.forward.codec.readValue p = .ok value →
      index.reverse.codec.Fits value) : NeverTooLong (index.eraseReverseWithin id key doomed) := by
  refine .forM fun p hp => ?_
  refine .bind_of (.encoding fun cause => EntryCodec.readValue_not_tooLong hvalues) ?_
  intro db value db' hrun
  -- what is encoded next is what has been read
  have hvalue : index.forward.codec.readValue p = .ok value := by
    rw [run_ofEncoding] at hrun
    cases hread : index.forward.codec.readValue p with
    | error cause =>
      rw [hread] at hrun
      cases hrun
    | ok value' =>
      rw [hread] at hrun
      cases hrun
      rfl
  exact (Index.eraseWithin_neverTooLong (h p hp value hvalue) key).bind fun _ => .pure _

/-- What is written as a key of the reverse half was seen under the key when its removal began. -/
theorem eraseAll_withinLimits (hfits : index.forward.codec.Fits key)
    (hvalues : index.forward.codec.values.Unlimited)
    (hview : db.engine.ledger.Usable (some id) → db.engine.ledger.view (some id) = view)
    (hturned : ∀ value, index.forward.Turned view key value → index.reverse.codec.Fits value) :
    WithinLimits (do
      let doomed ← index.forward.eraseAllWithin id key
      index.eraseReverseWithin id key doomed
      pure doomed.length) db := by
  refine (Index.eraseAllWithin_neverTooLong hfits db).bind fun doomed db' hrun => ?_
  have hacts : Acts False [index.forward.ns] id view (index.forward.eraseAllWithin id key) fun _ keys =>
      ∃ lower upper, index.forward.codec.span key = .ok (lower, upper) ∧
        Listing view index.forward.ns ⟨.included lower, upper⟩ keys :=
    .mono (Index.eraseAllWithin_deletes List.mem_cons_self False.elim) fun _ _ h => h.2
  obtain ⟨_, -, hlisted, -⟩ := hacts db hview
  obtain ⟨lower, upper, hspan, hlisting⟩ := hlisted doomed (congrArg Prod.fst hrun)
  have hdoomed : ∀ p ∈ doomed, index.forward.Doomed view key p := fun p hp =>
    ((Index.lists_doomed hspan hlisting).mem_iff p).1 hp
  have hreverse : NeverTooLong (index.eraseReverseWithin id key doomed) :=
    eraseReverseWithin_neverTooLong hvalues fun p hp value hvalue =>
      hturned value ⟨p, hdoomed p hp, hvalue⟩
  exact hreverse.bind (fun _ => .pure doomed.length) db'

end TwoWayIndex

namespace AnyIndex

open Program IndexM

variable {index : AnyIndex K V} {key : K} {value : V} {ctx : Context} {db : Database}

section

variable (hfits : index.forward.codec.Fits key)

include hfits

/-- A pair both of whose keys fit is added without a complaint. -/
theorem add_neverTooLong (hvalue : index.FitsReverse value) : NeverTooLong (index.add ctx key value) := by
  cases index with
  | oneWay index =>
    exact (NeverTooLong.within fun id => Index.insertWithin_neverTooLong hfits value).bind fun _ => .modify _
  | twoWay index =>
    have hreverse : index.reverse.codec.Fits value := hvalue index.reverse rfl
    refine NeverTooLong.bind (.within fun id => ?_) fun _ => .modify _
    exact (Index.insertWithin_neverTooLong hfits value).bind fun _ =>
      Index.insertWithin_neverTooLong hreverse key

/-- A pair both of whose keys fit is removed without a complaint. -/
theorem remove_neverTooLong (hvalue : index.FitsReverse value) :
    NeverTooLong (index.remove ctx key value) := by
  have hcounting (id? : Option MetricsId) (removed : Bool) :
      NeverTooLong (if removed then IndexM.observe id? (Counters.countRemoved 1) else pure () :
        IndexM Unit) := by
    cases removed with
    | true => exact .modify _
    | false => exact .pure ()
  cases index with
  | oneWay index =>
    exact (NeverTooLong.within fun id => Index.eraseWithin_neverTooLong hfits value).bind (hcounting _)
  | twoWay index =>
    have hreverse : index.reverse.codec.Fits value := hvalue index.reverse rfl
    refine NeverTooLong.bind (.within fun id => ?_) (hcounting _)
    refine (Index.eraseWithin_neverTooLong hfits value).bind fun removed => ?_
    exact (Index.eraseWithin_neverTooLong hreverse key).bind fun _ => .pure removed

variable (hvalues : index.forward.codec.values.Unlimited)

include hvalues

/-- The removal of a key that fits complains only if a value that is there does not fit the reverse half. -/
theorem removeAll_withinLimits (hturned : ∀ value,
    index.forward.Turned (db.engine.ledger.view ctx) key value → index.FitsReverse value) :
    WithinLimits (index.removeAll ctx key) db := by
  cases index with
  | oneWay index =>
    have hremoved : NeverTooLong (index.removeAll ctx key) :=
      (NeverTooLong.within fun id => (Index.eraseAllWithin_neverTooLong hfits).map _).bind fun removed =>
        (NeverTooLong.modify _).bind fun _ => .pure removed
    exact hremoved db
  | twoWay index =>
    refine WithinLimits.bind (.transactionally (fun _ => .pure ()) fun id db₁ hview => ?_) fun removed db' _ => ?_
    · exact TwoWayIndex.eraseAll_withinLimits hfits hvalues hview fun value hturns =>
        hturned value hturns index.reverse rfl
    · exact (NeverTooLong.modify _).bind (fun _ => .pure removed) db'

/-- What an operation reports that takes a key within the limit is not that a key is too long, if the values are
short enough that it writes as keys. -/
theorem operate_withinLimits {operation : IndexOperation K V} (hkey : operation.key? = some key)
    (hturns : ∀ value, operation.Turns index (db.engine.ledger.view ctx) value → index.FitsReverse value) :
    WithinLimits (index.operate ctx operation) db := by
  refine operate_keyed (P := fun _ program => WithinLimits program db) hkey
    (fun f hwithin => hwithin.map f) ?_ ?_ ?_ ?_ ?_ ?_ ?_ ?_
  · rintro value rfl
    exact add_neverTooLong hfits (hturns value rfl) db
  · rintro value rfl
    exact remove_neverTooLong hfits (hturns value rfl) db
  · rintro rfl
    exact removeAll_withinLimits hfits hvalues hturns
  · exact Index.findFirst_neverTooLong hfits hvalues db
  · exact Index.find_neverTooLong hfits db
  · exact Index.countKey_neverTooLong hfits hvalues db
  · exact Index.span_neverTooLong hfits db
  · exact Index.estimateKey_neverTooLong hfits db

end

end AnyIndex

end SecondaryIndex
