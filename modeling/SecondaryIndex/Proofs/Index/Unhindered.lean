import SecondaryIndex.Proofs.Index.Counts
import SecondaryIndex.Proofs.Index.Estimates
import SecondaryIndex.Proofs.Index.Stops

/-!
# Operations that auto-commit are not hindered

Without faults nothing is in the way of an operation that auto-commits, whatever was committed before it, whatever
the conflict log still holds, and however many transactions are open on the same pairs. It gives a result, unless a
key or a value that it must encode is too long, or it asks for the first value of a key that has none
(`Unhindered`); in particular it is not refused by the engine. `Database.Runs.autocommit_unhindered` is the main result.
Estimates are asked for without a context, so they do not auto-commit, but they are included: they are given as long as
the sizes they are made of are words, and the engine refuses them for nothing else (`IndexOperation.Overflows`).

For an operation that writes this comes in two parts. Its transaction starts from the last commit and nothing is
committed before it ends, so what comes of the operation is what comes of it within its transaction
(`IndexM.outcome_of_within`). There it can only stop at something that cannot be encoded (`Stops`), and it has
encoded everything if it gives a result (`Acts`). An operation that reads relies on its namespaces holding nothing
but entries, so that whatever it meets can be decoded.
-/

namespace SecondaryIndex

variable {K V A B α β : Type}

/-! ### What an operation may come to -/

/-- A result is given if nothing is refused and nothing is missing; an error is that of a refusal, or tells that
nothing was found. -/
def Unhindered (refused : IndexError → Prop) (missing : Prop) (outcome : Except IndexError α) : Prop :=
  match outcome with
  | .ok _ => (∀ err, ¬ refused err) ∧ ¬ missing
  | .error err => refused err ∨ (∀ err', ¬ refused err') ∧ missing ∧ err = .notFound

namespace Unhindered

open Program

variable {refused refused' : IndexError → Prop} {missing : Prop} {outcome : Except IndexError α}
  {program : IndexM α} {rest : α → IndexM β} {db : Database}

/-- What succeeded was hindered by nothing. -/
theorem of_ok (h : ∃ a, outcome = .ok a) (hrefused : ∀ err, ¬ refused err) (hmissing : ¬ missing) :
    Unhindered refused missing outcome := by
  obtain ⟨a, rfl⟩ := h
  exact ⟨hrefused, hmissing⟩

theorem congr (h : Unhindered refused missing outcome) (hiff : ∀ err, refused err ↔ refused' err) :
    Unhindered refused' missing outcome := by
  obtain rfl : refused = refused' := funext fun err => propext (hiff err)
  exact h

theorem map {f : α → β} (h : Unhindered refused missing (program.run db).1) :
    Unhindered refused missing ((f <$> program).run db).1 := by
  rw [run_map]
  cases houtcome : (program.run db).1 with
  | ok a => exact (houtcome ▸ h : Unhindered refused missing (Except.ok a))
  | error err => exact (houtcome ▸ h : Unhindered refused missing (Except.error err : Except IndexError α))

/-- What comes last does not fail. -/
theorem followed (h : Unhindered refused missing (program.run db).1)
    (hrest : ∀ a db, ∃ b, ((rest a).run db).1 = .ok b) :
    Unhindered refused missing ((program >>= rest).run db).1 := by
  rcases hrun : program.run db with ⟨err | a, db'⟩
  · rw [hrun] at h
    rw [run_bind_error hrun]
    exact h
  · rw [hrun] at h
    rw [run_bind_ok hrun]
    exact of_ok (hrest a db') h.1 h.2

end Unhindered

/-! ### What is refused -/

/-- A key is refused if it is longer than its layout allows. -/
def Index.Refuses (index : Index K V) (key : K) (err : IndexError) : Prop :=
  ¬ index.codec.Fits key ∧
    err = .encoding (.keyTooLong (index.codec.keys.encode key).length index.codec.layout.keyLimit)

/-- A value is refused if it is too long to be looked up, where that can be done. -/
def AnyIndex.RefusesReverse (index : AnyIndex K V) (value : V) (err : IndexError) : Prop :=
  ∃ reverse, index.reverse? = some reverse ∧ reverse.Refuses value err

/-- A call is refused for a key or a value that it must encode. Who removes a key must encode the values that are
stored under it, to find them in the reverse half. -/
def IndexCall.Refused (index : AnyIndex K V) (view : Place → Option Bytes) (call : IndexCall K V)
    (err : IndexError) : Prop :=
  match call with
  | add key value | remove key value => index.forward.Refuses key err ∨ index.RefusesReverse value err
  | removeAll key => index.forward.Refuses key err ∨
    ∃ value, index.forward.Stores view key value ∧ index.RefusesReverse value err
  | findFirst key | find key | countKey key => index.forward.Refuses key err
  | findByValue value => index.RefusesReverse value err
  | scanKeys | scanDistinctKeys | scanValues | count => False

/-- A question is refused for the key or the value that it is about. -/
def Question.Refused (index : AnyIndex K V) (question : Question K V) (err : IndexError) : Prop :=
  match question with
  | valuesOfKey key => index.forward.Refuses key err
  | keysWithValue value => index.RefusesReverse value err
  | entries | keys | values => False

/-- An operation is refused for a key or a value that it must encode. A question that no answer fits encodes
nothing. -/
def IndexOperation.Refused (index : AnyIndex K V) (view : Place → Option Bytes)
    (operation : IndexOperation K V) (err : IndexError) : Prop :=
  match operation with
  | call asked => asked.Refused index view err
  | span key | estimateKey key => index.forward.Refuses key err
  | estimateRange _ | estimateSize => False
  | count question budget estimateOk =>
    ((index.statistics none).count? budget estimateOk question).isSome ∧ question.Refused index err

/-- The sizes of the records in a range are no words. -/
def Index.Overweight (index : Index K V) (store : Store) (range : Range) : Prop :=
  ∃ table, store.tables.get? index.ns = some table ∧ ¬ store.Fits table range

/-- The sizes of the records in the range of a key are no words. -/
def Index.OverweightKey (index : Index K V) (store : Store) (key : K) : Prop :=
  ∃ lower upper, index.codec.span key = .ok (lower, upper) ∧ index.Overweight store ⟨.included lower, upper⟩

/-- What a question would estimate is made of sizes that are no words. -/
def Question.Overflows (index : AnyIndex K V) (store : Store) (question : Question K V) : Prop :=
  match question with
  | entries => index.forward.Overweight store Index.fullRange
  | valuesOfKey key => index.forward.OverweightKey store key
  | keys | values | keysWithValue _ => False

/-- An estimate is asked for of a range in which the sizes of the records are no words. It is not asked for in a
context, so no call that auto-commits is among these operations, and neither is a question that is counted. -/
def IndexOperation.Overflows (index : AnyIndex K V) (store : Store) (operation : IndexOperation K V) : Prop :=
  match operation with
  | call _ | span _ => False
  | estimateRange range => index.forward.Overweight store range
  | estimateKey key => index.forward.OverweightKey store key
  | estimateSize => index.forward.Overweight store Index.fullRange
  | count question budget estimateOk =>
    ((index.statistics none).count? budget estimateOk question).any Count.isEstimate = true ∧
      question.Overflows index store

/-- The first value of a key is asked for, and there is none. -/
def IndexOperation.Missing (index : AnyIndex K V) (view : Place → Option Bytes)
    (operation : IndexOperation K V) : Prop :=
  match operation with
  | call (.findFirst key) => ∀ value, ¬ index.forward.Stores view key value
  | _ => False

namespace Index

variable {index : Index K V} {key : K} {value : V} {cause : EncodingError} {err : IndexError}

theorem not_refuses (h : index.codec.Fits key) : ¬ index.Refuses key err := fun hrefuses => hrefuses.1 h

/-- A stem that fails refuses its key. -/
theorem refuses_of_stem (h : index.codec.stem key = .error cause) : index.Refuses key (.encoding cause) := by
  unfold EntryCodec.stem Layout.stem at h
  split at h
  · cases h
  · next hlong =>
    cases h
    exact ⟨hlong, rfl⟩

/-- An encoding that fails refuses its key, whatever the value. -/
theorem refuses_of_encode (h : index.codec.encode key value = .error cause) :
    index.Refuses key (.encoding cause) := by
  refine refuses_of_stem ?_
  unfold EntryCodec.encode Layout.join at h
  unfold EntryCodec.stem
  cases hstem : index.codec.layout.stem (index.codec.keys.encode key) with
  | ok stem =>
    rw [hstem] at h
    cases h
  | error cause' =>
    rw [hstem] at h
    cases h
    rfl

/-- A span that fails refuses its key. -/
theorem refuses_of_span (h : index.codec.span key = .error cause) : index.Refuses key (.encoding cause) := by
  refine refuses_of_stem ?_
  unfold EntryCodec.stem
  cases hstem : index.codec.layout.stem (index.codec.keys.encode key) with
  | ok stem =>
    have hfits : index.codec.Fits key := (Layout.stem_eq_ok_iff.1 hstem).1
    obtain ⟨lower, upper, hspan⟩ := EntryCodec.exists_span hfits
    rw [h] at hspan
    cases hspan
  | error cause' =>
    unfold EntryCodec.span Layout.span at h
    rw [hstem] at h
    cases h
    rfl

end Index

/-- Nothing is refused but for its length. -/
theorem IndexOperation.Refused.exists_encoding {index : AnyIndex K V} {view : Place → Option Bytes}
    {operation : IndexOperation K V} {err : IndexError} (h : operation.Refused index view err) :
    ∃ length limit, err = .encoding (.keyTooLong length limit) := by
  have hkey {key : K} (h : index.forward.Refuses key err) :
      ∃ length limit, err = .encoding (.keyTooLong length limit) := ⟨_, _, h.2⟩
  have hvalue {value : V} (h : index.RefusesReverse value err) :
      ∃ length limit, err = .encoding (.keyTooLong length limit) := by
    obtain ⟨reverse, -, hrefuses⟩ := h
    exact ⟨_, _, hrefuses.2⟩
  cases operation with
  | span key => exact hkey h
  | estimateKey key => exact hkey h
  | estimateRange range => exact h.elim
  | estimateSize => exact h.elim
  | count question budget estimateOk =>
    cases question with
    | valuesOfKey key => exact hkey h.2
    | keysWithValue value => exact hvalue h.2
    | entries | keys | values => exact h.2.elim
  | call call =>
    cases call with
    | add key value | remove key value => exact h.elim hkey hvalue
    | removeAll key => exact h.elim hkey fun ⟨value, _, hrefuses⟩ => hvalue hrefuses
    | findFirst key | find key | countKey key => exact hkey h
    | findByValue value => exact hvalue h
    | scanKeys | scanDistinctKeys | scanValues | count => exact h.elim

theorem AnyIndex.not_refusesReverse {index : AnyIndex K V} {value : V} {err : IndexError}
    (h : index.FitsReverse value) : ¬ index.RefusesReverse value err :=
  fun ⟨reverse, hreverse, hrefuses⟩ => hrefuses.1 (h reverse hreverse)

/-! ### Operations that write -/

namespace Index

variable {index : Index K V} {spaces : List Namespace} {id : TransactionId}
  {view : Place → Option Bytes} {key : K} {value : V}

/-- What is listed of the range of a key are the physical keys of its pairs. -/
theorem OnlyEntries.mem_listed_iff (h : index.OnlyEntries view) (hinv : index.codec.keys.Inverts)
    {lower : Bytes} {upper : Bound} (hspan : index.codec.span key = .ok (lower, upper))
    {keys : List Bytes} (hkeys : Listing view index.ns ⟨.included lower, upper⟩ keys) {p : Bytes} :
    p ∈ keys ↔ ∃ value, index.codec.encode key value = .ok p ∧ (view (index.ns, p)).isSome := by
  rw [hkeys.mem_iff]
  constructor
  · rintro ⟨hrange, hsome⟩
    obtain ⟨key', value, hencode⟩ := h p hsome
    obtain rfl := (EntryCodec.contains_iff hinv hspan hencode).1 hrange
    exact ⟨value, hencode, hsome⟩
  · rintro ⟨value, hencode, hsome⟩
    exact ⟨(EntryCodec.contains_iff hinv hspan hencode).2 rfl, hsome⟩

/-- An insertion on a ready engine stops only at a key that is refused. -/
theorem insertWithin_refused (hns : index.ns ∈ spaces) :
    Stops True spaces id view (index.insertWithin id key value) fun _ err => index.Refuses key err :=
  insertWithin_stops hns (fun _ hcause => refuses_of_encode hcause) fun hnot => absurd trivial hnot

/-- A removal on a ready engine stops only at a key that is refused. -/
theorem eraseWithin_refused (hns : index.ns ∈ spaces) :
    Stops True spaces id view (index.eraseWithin id key value) fun _ err => index.Refuses key err :=
  eraseWithin_stops hns (fun _ hcause => refuses_of_encode hcause) fun hnot => absurd trivial hnot

end Index

namespace IndexM

open Program

variable {spaces : List Namespace} {operation : TransactionId → IndexM α} {db : Database}

/-- Without faults, what comes of an operation that auto-commits is what comes of it within its transaction: nothing
is committed in between, so nothing is in the way of the commit. -/
theorem outcome_of_within {post : Changes Place Bytes → α → Prop} (hsound : db.engine.Sound)
    (hhealthy : db.engine.faults = .healthy)
    (hacts : ∀ id, Acts False spaces id db.engine.store.read (operation id) post) :
    ((within none operation).run db).1 =
      ((operation db.engine.nextTransaction).run { db with engine := db.engine.begun }).1 := by
  have hrun := Engine.run_begin db.engine
  rw [Engine.fails_of_healthy _ _ hhealthy, if_neg Bool.false_ne_true,
    Engine.drawn_of_healthy _ _ hhealthy] at hrun
  have hbegin : db.engine.Persists db.engine.begun := (Engine.Moves.begins fun hf => hf).persists
  obtain ⟨c, hacted, -⟩ := hacts db.engine.nextTransaction { db with engine := db.engine.begun }
    fun _ => Engine.view_begun
  unfold within
  rw [run_transactionally_none operation _ (run_ofEngine_ok hrun)]
  cases houtcome :
      ((operation db.engine.nextTransaction).run { db with engine := db.engine.begun }).1 with
  | error err => rw [run_settle_error]
  | ok a =>
    -- the operation has committed nothing, so its transaction still starts from the last commit
    obtain ⟨tx, hopen, hstart⟩ := Settles.exists_open_of_begun hacted.steady hacted.ledger
    exact settle_ok (hacted.steady.sound (hbegin.sound hsound))
      (hacted.steady.healthy (hbegin.healthy hhealthy)) hopen hstart

/-- An operation is not hindered if all it stops at is refused, and all is encoded when it gives a result. -/
theorem within_unhindered {refused : IndexError → Prop} (hsound : db.engine.Sound)
    (hready : db.engine.Ready spaces)
    (hacts : ∀ id, Acts False spaces id db.engine.store.read (operation id)
      fun _ _ => ∀ err, ¬ refused err)
    (hstops : ∀ id, Stops True spaces id db.engine.store.read (operation id) fun _ err => refused err) :
    Unhindered refused False ((within none operation).run db).1 := by
  have hbegin : db.engine.Persists db.engine.begun := (Engine.Moves.begins fun hf => hf).persists
  have husable : db.engine.begun.ledger.Usable (some db.engine.nextTransaction) := by
    show (db.engine.begun.ledger.pending db.engine.nextTransaction).isSome = true
    rw [Engine.ledger_begun, Ledger.begin_pending, if_pos rfl]
    rfl
  obtain ⟨c, -, hok, -⟩ := hacts db.engine.nextTransaction { db with engine := db.engine.begun }
    fun _ => Engine.view_begun
  have herror := hstops db.engine.nextTransaction { db with engine := db.engine.begun } husable
    Engine.view_begun fun _ => hready.persists hbegin
  rw [outcome_of_within hsound hready.healthy hacts]
  cases houtcome :
      ((operation db.engine.nextTransaction).run { db with engine := db.engine.begun }).1 with
  | ok a => exact ⟨hok a houtcome, id⟩
  | error err =>
    obtain ⟨c, -, hrefused⟩ := herror err houtcome
    exact .inl hrefused

end IndexM

namespace AnyIndex

open Program IndexM

variable {index : AnyIndex K V} {key : K} {value : V} {db : Database} {view : Place → Option Bytes}

/-- A pair that was encoded in both halves is refused by neither. -/
theorem Encodes.not_refused (h : index.Encodes key value) (err : IndexError) :
    ¬ (index.forward.Refuses key err ∨ index.RefusesReverse value err) := by
  cases index with
  | oneWay index =>
    obtain ⟨p, hp⟩ := h
    exact not_or.2 ⟨Index.not_refuses (EntryCodec.fits_of_encode hp), not_refusesReverse nofun⟩
  | twoWay index =>
    obtain ⟨⟨p, hp⟩, q, hq⟩ := h
    refine not_or.2 ⟨Index.not_refuses (EntryCodec.fits_of_encode hp), not_refusesReverse ?_⟩
    rintro reverse ⟨⟩
    exact EntryCodec.fits_of_encode hq

section Writing

variable (hsound : db.engine.Sound) (hready : db.engine.Ready index.namespaces)

include hsound hready

/-- An auto-committed addition fails only at a key that is refused, by either half. -/
theorem add_unhindered :
    Unhindered (fun err => index.forward.Refuses key err ∨ index.RefusesReverse value err) False
      ((index.add none key value).run db).1 := by
  cases index with
  | oneWay index =>
    refine .followed (within_unhindered hsound hready (fun id => ?_) fun id => ?_) fun _ _ => ⟨(), rfl⟩
    · refine .mono (Index.insertWithin_puts List.mem_cons_self False.elim) ?_
      rintro c ⟨⟩ ⟨p, hp, -⟩
      exact Encodes.not_refused ⟨p, hp⟩
    · exact .mono (Index.insertWithin_refused List.mem_cons_self) fun _ _ => .inl
  | twoWay index =>
    have hreverse : index.reverse.ns ∈ (twoWay index).namespaces :=
      List.mem_cons_of_mem _ List.mem_cons_self
    refine .followed (within_unhindered hsound hready (fun id => ?_) fun id => ?_) fun _ _ => ⟨(), rfl⟩
    · refine .mono (TwoWayIndex.insert_puts List.mem_cons_self hreverse) ?_
      rintro c ⟨⟩ ⟨hp, hq, -⟩
      exact Encodes.not_refused ⟨hp, hq⟩
    · refine .bind (.mono (Index.insertWithin_refused List.mem_cons_self) fun _ _ => .inl)
        (Index.insertWithin_puts List.mem_cons_self False.elim) fun _ _ _ => ?_
      exact .mono (Index.insertWithin_refused hreverse) fun _ _ hrefuses => .inr ⟨_, rfl, hrefuses⟩

/-- An auto-committed removal fails only at a key that is refused, by either half. -/
theorem remove_unhindered :
    Unhindered (fun err => index.forward.Refuses key err ∨ index.RefusesReverse value err) False
      ((index.remove none key value).run db).1 := by
  have hcounted (id? : Option MetricsId) (removed : Bool) (db : Database) :
      ∃ u, ((if removed then IndexM.observe id? (Counters.countRemoved 1) else pure () :
        IndexM Unit).run db).1 = .ok u := by
    cases removed <;> exact ⟨(), rfl⟩
  cases index with
  | oneWay index =>
    refine .followed (within_unhindered hsound hready (fun id => ?_) fun id => ?_) (hcounted _)
    · refine .mono (Index.eraseWithin_deletes List.mem_cons_self False.elim) ?_
      rintro c _ ⟨p, hp, -⟩
      exact Encodes.not_refused ⟨p, hp⟩
    · exact .mono (Index.eraseWithin_refused List.mem_cons_self) fun _ _ => .inl
  | twoWay index =>
    have hreverse : index.reverse.ns ∈ (twoWay index).namespaces :=
      List.mem_cons_of_mem _ List.mem_cons_self
    refine .followed (within_unhindered hsound hready (fun id => ?_) fun id => ?_) (hcounted _)
    · refine .mono (TwoWayIndex.erase_deletes List.mem_cons_self hreverse) ?_
      rintro c _ ⟨hp, hq, -⟩
      exact Encodes.not_refused ⟨hp, hq⟩
    · refine .bind (.mono (Index.eraseWithin_refused List.mem_cons_self) fun _ _ => .inl)
        (Index.eraseWithin_deletes List.mem_cons_self False.elim) fun _ _ _ => ?_
      refine .bind (.mono (Index.eraseWithin_refused hreverse) fun _ _ hrefuses => .inr ⟨_, rfl, hrefuses⟩)
        (Index.eraseWithin_deletes hreverse False.elim) fun _ _ _ => .pure _

/-- Who removes a key stops at a value that is stored under it and too long for the reverse half. -/
theorem removeAll_unhindered (hinv : index.forward.codec.Inverts)
    (honly : index.forward.OnlyEntries db.engine.store.read) :
    Unhindered (fun err => index.forward.Refuses key err ∨ ∃ value,
        index.forward.Stores db.engine.store.read key value ∧ index.RefusesReverse value err) False
      ((index.removeAll none key).run db).1 := by
  cases index with
  | oneWay index =>
    refine .followed (within_unhindered hsound hready (fun id => ?_) fun id => ?_) fun n _ => ⟨n, rfl⟩
    · refine .map (Index.eraseAllWithin_deletes List.mem_cons_self False.elim) ?_
      rintro c keys ⟨-, lower, upper, hspan, -⟩ err
      exact not_or.2 ⟨Index.not_refuses (EntryCodec.fits_of_span hspan),
        fun ⟨_, _, reverse, hreverse, _⟩ => nomatch hreverse⟩
    · exact .map (Index.eraseAllWithin_stops List.mem_cons_self
        (fun cause hcause => .inl (Index.refuses_of_span hcause)) (fun hnot => absurd trivial hnot)
        fun hnot => absurd trivial hnot)
  | twoWay index =>
    have hreverse : index.reverse.ns ∈ (twoWay index).namespaces :=
      List.mem_cons_of_mem _ List.mem_cons_self
    replace hinv : index.forward.codec.Inverts := hinv
    replace honly : index.forward.OnlyEntries db.engine.store.read := honly
    refine .followed (within_unhindered hsound hready (fun id => ?_) fun id => ?_) fun n _ => ⟨n, rfl⟩
    · refine .mono (TwoWayIndex.eraseAll_lists List.mem_cons_self hreverse) ?_
      rintro c n ⟨lower, upper, doomed, hspan, hkeys, -, hback, -⟩ err
      refine not_or.2 ⟨Index.not_refuses (EntryCodec.fits_of_span hspan), ?_⟩
      -- what is stored under the key was listed, and then encoded in the reverse half
      rintro ⟨value, ⟨p, hencode, hsome⟩, reverse, ⟨⟩, hrefuses⟩
      obtain ⟨value', hvalue, q, hq⟩ := hback p ((honly.mem_listed_iff hinv.1 hspan hkeys).2 ⟨value, hencode, hsome⟩)
      obtain rfl := Except.ok.inj ((EntryCodec.readValue_of_encode hinv.2 hencode).symm.trans hvalue)
      exact Index.not_refuses (EntryCodec.fits_of_encode hq) hrefuses
    · refine TwoWayIndex.eraseAll_stops List.mem_cons_self hreverse
        (fun cause hcause => .inl (Index.refuses_of_span hcause)) (fun hnot => absurd trivial hnot)
        fun lower upper doomed hspan hkeys => ⟨fun c p hp cause hresists => .inr ?_,
          fun hnot => absurd trivial hnot⟩
      -- what resists was listed, so it is a pair of the key: it can be read, and its value is too long
      obtain ⟨value, hencode, hsome⟩ := (honly.mem_listed_iff hinv.1 hspan hkeys).1 hp
      refine ⟨value, ⟨p, hencode, hsome⟩, index.reverse, rfl, ?_⟩
      have hvalue := EntryCodec.readValue_of_encode hinv.2 hencode
      rcases hresists with herror | ⟨value', hvalue', herror⟩
      · rw [hvalue] at herror
        cases herror
      · rw [hvalue] at hvalue'
        cases hvalue'
        exact Index.refuses_of_encode herror

end Writing

end AnyIndex

/-! ### Operations that read -/

/-- A count on a ready engine does not fail. -/
theorem Tells.unhindered {live : Prop} {spaces : List Namespace} {db : Database} {program : IndexM Nat}
    {number : ℕ∞} (h : Tells live spaces none db program number) (hlive : live)
    (hready : db.engine.Ready spaces) : Unhindered (fun _ => False) False (program.run db).1 :=
  .of_ok (h.total hlive trivial hready) (fun _ => id) id

namespace Index

open Program IndexM

variable {index : Index K V} {key : K} {db : Database} {spaces : List Namespace}

/-- A key that is too long is refused before anything is done with it. -/
theorem keyed_unhindered {program : IndexM α} {missing : Prop}
    (hlong : ∀ cause, index.codec.span key = .error cause → (program.run db).1 = .error (.encoding cause))
    (hfits : index.codec.Fits key → Unhindered (fun _ => False) missing (program.run db).1) :
    Unhindered (index.Refuses key) missing (program.run db).1 := by
  cases hspan : index.codec.span key with
  | ok span =>
    have hkey := EntryCodec.fits_of_span hspan
    exact (hfits hkey).congr fun err => (iff_false_intro (not_refuses hkey)).symm
  | error cause =>
    rw [hlong cause hspan]
    exact .inl (refuses_of_span hspan)

theorem run_keyRange_error {cause : EncodingError} (h : index.codec.span key = .error cause) :
    (index.keyRange key).run db = (.error (.encoding cause), db) := by
  rw [run_keyRange, h]
  rfl

theorem run_keyRange_ok {lower : Bytes} {upper : Bound} (h : index.codec.span key = .ok (lower, upper)) :
    (index.keyRange key).run db = (.ok ⟨.included lower, upper⟩, db) := by
  rw [run_keyRange, h]
  rfl

theorem run_find_error {ctx : Context} {cause : EncodingError} (h : index.codec.span key = .error cause) :
    (index.find ctx key).run db = (.error (.encoding cause), db) :=
  run_bind_error (run_keyRange_error h)

section Estimating

variable (hready : db.engine.Ready spaces) (hns : index.ns ∈ spaces)

include hready hns

/-- An estimate does not fail on sizes that fit. -/
theorem estimateRange_unhindered {range : Range} (hfits : ¬ index.Overweight db.engine.store range) :
    Unhindered (fun _ => False) False ((index.estimateRange range).run db).1 := by
  obtain ⟨table, htable⟩ := Store.hasNamespace_iff.1 (hready.hasNamespace _ hns)
  have hwords : db.engine.store.Fits table range := by
    by_contra hnot
    exact hfits ⟨table, htable, hnot⟩
  exact .of_ok (exists_estimate hready.healthy htable hwords) (fun _ => id) id

/-- The estimate of a key fails only at a key that is refused, if the sizes fit. -/
theorem estimateKey_unhindered (hwords : ¬ index.OverweightKey db.engine.store key) :
    Unhindered (index.Refuses key) False ((index.estimateKey key).run db).1 := by
  refine keyed_unhindered (fun cause hcause => ?_) fun hfits => ?_
  · exact congrArg Prod.fst (run_bind_error (run_keyRange_error hcause))
  · obtain ⟨lower, upper, hspan⟩ := EntryCodec.exists_span hfits
    unfold estimateKey
    rw [run_bind_ok (run_keyRange_ok hspan)]
    exact estimateRange_unhindered hready hns fun hheavy => hwords ⟨lower, upper, hspan, hheavy⟩

end Estimating

/-- On a healthy engine an estimate overflows where the sizes do not fit. -/
theorem estimateRange_overflows_of_overweight (hhealthy : db.engine.faults = .healthy) {range : Range}
    (h : index.Overweight db.engine.store range) :
    ((index.estimateRange range).run db).1 = .error (.storage .overflow) := by
  obtain ⟨table, htable, hheavy⟩ := h
  exact estimateRange_overflows hhealthy htable hheavy

theorem estimateKey_overflows (hhealthy : db.engine.faults = .healthy)
    (h : index.OverweightKey db.engine.store key) :
    ((index.estimateKey key).run db).1 = .error (.storage .overflow) := by
  obtain ⟨lower, upper, hspan, hheavy⟩ := h
  unfold estimateKey
  rw [run_bind_ok (run_keyRange_ok hspan)]
  exact estimateRange_overflows_of_overweight hhealthy hheavy

variable (hsound : db.engine.Sound) (hready : db.engine.Ready spaces) (hns : index.ns ∈ spaces)

include hsound hready hns

/-- A cursor of its own transaction is opened on every ready engine. -/
theorem openCursor_unhindered (range : Range) (decode : Bytes → Except EncodingError α)
    (seeking : Seeking α) (stride : Stride) :
    Unhindered (fun _ => False) False ((index.openCursor none range decode seeking stride).run db).1 := by
  have hsettles : Settles True spaces none db.engine.store.read
      (index.openCursor none range decode seeking stride) (· = .nothing)
      (Gives (index.Opened db.engine.store.read range decode seeking stride)) :=
    openCursor_settles hns range decode seeking stride
  obtain ⟨cursor, hcursor, -⟩ := (hsettles db hsound fun _ => rfl).live trivial trivial hready
  exact .of_ok ⟨cursor, hcursor⟩ (fun _ => id) id

/-- A cursor over a key is refused only with its key. -/
theorem find_unhindered : Unhindered (index.Refuses key) False ((index.find none key).run db).1 := by
  refine keyed_unhindered (fun cause hcause => ?_) fun hfits => ?_
  · rw [run_find_error hcause]
  · obtain ⟨lower, upper, hspan⟩ := EntryCodec.exists_span hfits
    unfold find
    rw [run_bind_ok (run_keyRange_ok hspan)]
    exact openCursor_unhindered hsound hready hns _ _ _ _

variable (hinv : index.codec.Inverts) (honly : index.OnlyEntries db.engine.store.read)

include hinv honly

/-- The count of a key is refused only with its key. -/
theorem countKey_unhindered :
    Unhindered (index.Refuses key) False ((index.find none key >>= Cursor.count).run db).1 := by
  refine keyed_unhindered (fun cause hcause => ?_) fun hfits => ?_
  · rw [run_bind_error (run_find_error hcause)]
  · have htells : Tells (index.codec.Fits key) spaces none db (index.find none key >>= Cursor.count)
        ((Question.valuesOfKey key).number index db.engine.store.read) := tells_find hinv honly hsound hns
    exact htells.unhindered hfits hready

/-- The first value of a key is given, or there is none. -/
theorem findFirst_unhindered :
    Unhindered (index.Refuses key) (∀ value, ¬ index.Stores db.engine.store.read key value)
      ((index.findFirst none key).run db).1 := by
  refine keyed_unhindered (fun cause hcause => ?_) fun hfits => ?_
  · exact congrArg Prod.fst (run_bind_error (run_keyRange_error hcause))
  · have hsettles : Settles (index.codec.Fits key) spaces none db.engine.store.read
        (index.findFirst none key) (· = .nothing) fun outcome => ∃ values,
          Lists (index.codec.values.encode · < index.codec.values.encode ·)
            (index.Stores db.engine.store.read key) values ∧ outcome = firstOf values :=
      findFirst_finds hinv honly hns
    obtain ⟨values, hvalues, houtcome⟩ := (hsettles db hsound fun _ => rfl).live hfits trivial hready
    rw [houtcome]
    cases values with
    | nil => exact .inr ⟨fun _ => id, fun value hstored => List.not_mem_nil ((hvalues.mem_iff value).2 hstored), rfl⟩
    | cons value values =>
      exact ⟨fun _ => id, fun hnone => hnone value ((hvalues.mem_iff value).1 List.mem_cons_self)⟩

end Index

namespace AnyIndex

open Program IndexM

variable {index : AnyIndex K V} {db : Database}

theorem Sane.reverse (h : index.Sane) {reverse : Index V K} (hreverse : index.reverse? = some reverse) :
    reverse.codec.Inverts := by
  cases index with
  | oneWay index => cases hreverse
  | twoWay index =>
    cases hreverse
    exact TwoWayIndex.Sane.reverse h

/-- What the reverse half refuses is what an index refuses as a value. -/
theorem refusesReverse_iff {reverse : Index V K} (hreverse : index.reverse? = some reverse) (value : V)
    (err : IndexError) : reverse.Refuses value err ↔ index.RefusesReverse value err := by
  refine ⟨fun hrefuses => ⟨reverse, hreverse, hrefuses⟩, ?_⟩
  rintro ⟨reverse', hreverse', hrefuses⟩
  obtain rfl := Option.some.inj (hreverse.symm.trans hreverse')
  exact hrefuses

variable (hsane : index.Sane) (hsound : db.engine.Sound) (hready : db.engine.Ready index.namespaces)
  (hforward : index.forward.OnlyEntries db.engine.store.read)
  (hreverse : ∀ reverse, index.reverse? = some reverse → reverse.OnlyEntries db.engine.store.read)

include hsane hsound hready hforward

/-- Every call on its own transaction fails only at what it refuses, or for want of a first value. -/
theorem perform_unhindered (call : IndexCall K V) :
    Unhindered (call.Refused index db.engine.store.read)
      ((IndexOperation.call call).Missing index db.engine.store.read)
      ((index.perform none call).run db).1 := by
  have hns := index.forward_mem
  cases call with
  | add key value => exact .map (add_unhindered hsound hready)
  | remove key value => exact .map (remove_unhindered hsound hready)
  | removeAll key => exact .map (removeAll_unhindered hsound hready hsane.forward hforward)
  | findFirst key => exact .map (Index.findFirst_unhindered hsound hready hns hsane.forward hforward)
  | find key => exact .map (Index.find_unhindered hsound hready hns)
  | scanKeys => exact .map (Index.openCursor_unhindered hsound hready hns _ _ _ _)
  | scanDistinctKeys => exact .map (Index.openCursor_unhindered hsound hready hns _ _ _ _)
  | scanValues => exact .map (Index.openCursor_unhindered hsound hready hns _ _ _ _)
  | count =>
    have htells : Tells True index.namespaces none db (index.forward.count none)
        (Question.entries.number index.forward db.engine.store.read) :=
      Index.tells_count hsane.forward hforward hsound hns
    exact .map (htells.unhindered trivial hready)
  | countKey key => exact .map (Index.countKey_unhindered hsound hready hns hsane.forward hforward)
  | findByValue value =>
    cases hreverse : index.reverse? with
    | none =>
      simp only [perform, hreverse]
      exact .of_ok ⟨_, rfl⟩ (fun err ⟨reverse, hsome, _⟩ => nomatch hreverse.symm.trans hsome) id
    | some reverse =>
      simp only [perform, hreverse]
      exact .map ((Index.find_unhindered hsound hready (Half.reverse reverse hreverse).mem).congr
        (refusesReverse_iff hreverse value))

include hreverse

/-- Whichever way a question is answered, nothing is in the way but sizes that are no words. -/
theorem count_unhindered {question : Question K V} {budget : Budget} {estimateOk : Bool} {count : Count}
    (h : (index.statistics none).count? budget estimateOk question = some count)
    (hwords : count.isEstimate = true → ¬ question.Overflows index db.engine.store) :
    Unhindered (question.Refused index) False (count.value.run db).1 := by
  have hns := index.forward_mem
  have hinv := hsane.forward
  have htold {program : IndexM Nat} {number : ℕ∞}
      (htells : Tells True index.namespaces none db program number) :
      Unhindered (fun _ => False) False (program.run db).1 := htells.unhindered trivial hready
  -- an exact count reads a cursor to its end; an estimate asks the sizes
  rcases Statistics.count?_cases h with hexact | ⟨rfl, rfl⟩ | ⟨key, rfl, rfl⟩
  · cases question with
    | entries =>
      rw [← Option.some.inj hexact]
      exact htold (Index.tells_count hinv hforward hsound hns)
    | keys =>
      rw [← Option.some.inj hexact]
      exact htold (Index.tells_scanDistinctKeys hinv hforward hsound hns)
    | valuesOfKey key =>
      rw [← Option.some.inj hexact]
      exact Index.countKey_unhindered hsound hready hns hinv hforward
    | values =>
      rw [← Option.some.inj hexact]
      exact htold (Index.tells_scanValues hinv hforward hsound hns)
    | keysWithValue value =>
      obtain ⟨reverse, hsome, hprogram⟩ := Option.map_eq_some_iff.1 hexact
      rw [← hprogram]
      have hcount : Unhindered (reverse.Refuses value) False ((reverse.find none value >>= Cursor.count).run db).1 :=
        Index.countKey_unhindered hsound hready (Half.reverse reverse hsome).mem (hsane.reverse hsome)
          (hreverse reverse hsome)
      exact hcount.congr (refusesReverse_iff hsome value)
  · exact Index.estimateRange_unhindered hready hns (hwords rfl)
  · exact Index.estimateKey_unhindered hready hns (hwords rfl)

/-- No operation is hindered, where nothing but entries is committed in the namespaces of an index, unless it asks
for sizes that are no words. -/
theorem operate_unhindered (operation : IndexOperation K V)
    (hwords : ¬ operation.Overflows index db.engine.store) :
    Unhindered (operation.Refused index db.engine.store.read) (operation.Missing index db.engine.store.read)
      ((index.operate none operation).run db).1 := by
  have hns := index.forward_mem
  cases operation with
  | call call => exact .map (perform_unhindered hsane hsound hready hforward call)
  | span key =>
    refine .map (Index.keyed_unhindered (fun cause hcause => ?_) fun hfits => ?_)
    · exact congrArg (Except.mapError IndexError.encoding) hcause
    · obtain ⟨lower, upper, hspan⟩ := EntryCodec.exists_span hfits
      exact .of_ok ⟨_, congrArg (Except.mapError IndexError.encoding) hspan⟩ (fun _ => id) id
  | estimateRange range => exact .map (Index.estimateRange_unhindered hready hns hwords)
  | estimateKey key => exact .map (Index.estimateKey_unhindered hready hns hwords)
  | estimateSize => exact .map (Index.estimateRange_unhindered hready hns hwords)
  | count question budget estimateOk =>
    simp only [operate]
    cases hcount : (index.statistics none).count? budget estimateOk question with
    | none =>
      -- no count is given out, so none can be refused
      refine .of_ok ⟨_, rfl⟩ (fun err hrefused => ?_) id
      have hsome := hrefused.1
      rw [hcount] at hsome
      cases hsome
    | some count =>
      -- only an estimate looks at the sizes
      have hcounted : count.isEstimate = true → ¬ question.Overflows index db.engine.store := by
        intro hestimate hheavy
        refine hwords ⟨?_, hheavy⟩
        rw [hcount]
        exact hestimate
      refine .map ((count_unhindered hsane hsound hready hforward hreverse hcount hcounted).congr fun err => ?_)
      have hsome : ((index.statistics none).count? budget estimateOk question).isSome := by
        rw [hcount]
        rfl
      exact (and_iff_right hsome).symm

omit hsane hsound hready hforward hreverse in
/-- An operation that asks for sizes that are no words overflows as they do. -/
theorem operate_overflows (hhealthy : db.engine.faults = .healthy) {operation : IndexOperation K V}
    (h : operation.Overflows index db.engine.store) :
    ((index.operate none operation).run db).1 = .error (.storage .overflow) := by
  have hmap {α β : Type} {f : α → β} {program : IndexM α}
      (hprogram : (program.run db).1 = .error (.storage .overflow)) :
      ((f <$> program).run db).1 = .error (.storage .overflow) := by
    rw [run_map, hprogram]
    rfl
  cases operation with
  | call call => exact h.elim
  | span key => exact h.elim
  | estimateRange range => exact hmap (Index.estimateRange_overflows_of_overweight hhealthy h)
  | estimateKey key => exact hmap (Index.estimateKey_overflows hhealthy h)
  | estimateSize => exact hmap (Index.estimateRange_overflows_of_overweight hhealthy h)
  | count question budget estimateOk =>
    obtain ⟨hestimate, hheavy⟩ := h
    obtain ⟨count, hcount, hestimate⟩ := (Option.any_eq_true ..).1 hestimate
    simp only [operate, hcount]
    cases question with
    | entries =>
      rcases Statistics.estimable_cases hcount with rfl | rfl
      · cases hestimate
      · exact hmap (Index.estimateRange_overflows_of_overweight hhealthy hheavy)
    | valuesOfKey key =>
      rcases Statistics.estimable_cases hcount with rfl | rfl
      · cases hestimate
      · exact hmap (Index.estimateKey_overflows hhealthy hheavy)
    | keys | values | keysWithValue value => exact hheavy.elim

end AnyIndex

/-! ### Along a run -/

/-- An index as a whole, or one of its halves by itself. -/
inductive AnyIndex.Part (index : AnyIndex K V) : (A B : Type) → AnyIndex A B → Prop
  | whole : index.Part K V index
  | half {A B : Type} {half : Index A B} (isHalf : index.Half A B half) : index.Part A B (.oneWay half)

namespace AnyIndex.Part

variable {index : AnyIndex K V} {asked : AnyIndex A B}

/-- The namespaces of a part are those of its index. -/
theorem mem (h : index.Part A B asked) {ns : Namespace} (hns : ns ∈ asked.namespaces) :
    ns ∈ index.namespaces := by
  cases h with
  | whole => exact hns
  | half isHalf => exact List.mem_singleton.1 hns ▸ isHalf.mem

/-- What a half writes is what the index could have written. -/
theorem allows (h : index.Part A B asked) {x : Place} {slot : Slot} (hx : asked.Allows x slot) :
    index.Allows x slot := by
  cases h with
  | whole => exact hx
  | half isHalf =>
    cases isHalf with
    | forward => exact index.allows_of_forward hx
    | reverse reverse kept =>
      cases index with
      | oneWay index => cases kept
      | twoWay index =>
        cases kept
        exact .inr hx

/-- A part of a sane index is sane. -/
theorem sane (h : index.Part A B asked) (hsane : index.Sane) : asked.Sane := by
  cases h with
  | whole => exact hsane
  | half isHalf =>
    cases isHalf with
    | forward => exact hsane.forward
    | reverse reverse kept => exact hsane.reverse kept

/-- The namespaces of a part hold nothing but its entries, if those of the index do. -/
theorem onlyEntries (h : index.Part A B asked) {view : Place → Option Bytes}
    (honly : index.forward.OnlyEntries view ∧
      ∀ reverse, index.reverse? = some reverse → reverse.OnlyEntries view) :
    asked.forward.OnlyEntries view ∧
      ∀ reverse, asked.reverse? = some reverse → reverse.OnlyEntries view := by
  cases h with
  | whole => exact honly
  | half isHalf =>
    refine ⟨?_, nofun⟩
    cases isHalf with
    | forward => exact honly.1
    | reverse reverse kept => exact honly.2 reverse kept

end AnyIndex.Part

/-- An action leaves the namespaces of an index to the index and its halves. -/
inductive Action.Heeds (index : AnyIndex K V) : Action → Prop
  | own {A B : Type} {asked : AnyIndex A B} (part : index.Part A B asked) (ctx : Context)
    (operation : IndexOperation A B) : Heeds index (.index asked ctx operation)
  | elsewhere (action : Action) (elsewhere : ∀ ns ∈ action.targets, ns ∉ index.namespaces) :
    Heeds index action

/-- An action that heeds an index writes nothing else into its namespaces. -/
theorem Action.Heeds.within {index : AnyIndex K V} {action : Action} (h : action.Heeds index) {db : Database}
    (hsound : db.engine.Sound) (hwithin : db.engine.ledger.Within index.Owns) :
    (action.run db).engine.ledger.Within index.Owns := by
  refine action.within ?_ ?_ hsound hwithin
  · rintro call rfl ns htarget key slot hmem
    cases h with
    | elsewhere _ helsewhere => exact absurd hmem (helsewhere ns (Option.mem_toList.2 htarget))
  · rintro A B asked ctx operation rfl c hc x slot hx hmem
    cases h with
    | own part => exact part.allows (hc x slot hx)
    | elsewhere _ helsewhere =>
      exact absurd hmem (helsewhere x.1 (AnyIndex.mem_of_allows (hc x slot hx)))

namespace Database.Runs

variable {index : AnyIndex K V} {asked : AnyIndex A B} {options : StoreOptions} {db : Database}

/-- After a run that heeds an index, all that is in its namespaces is its own. -/
theorem within_of_heeds (h : Runs (Action.Heeds index) (.ofOptions options) db) :
    db.engine.ledger.Within index.Owns := by
  induction h with
  | refl => exact .empty index.Owns
  | step runs action permitted ih => exact permitted.within (runs.sound (Engine.sound_ofOptions options)) ih

/-- No operation that auto-commits is hindered. Wherever a run leads in which the namespaces of an index were written
through the index or its halves, whatever was committed and removed on the way and whatever is left in the conflict
log, and with any number of transactions open: as long as the namespaces exist and no fault is to come, an operation
of the index or of one of its halves gives a result. It fails only for a key or a value that it must encode and that
is longer than its layout allows, or if it asks for the first value of a key that has none. The engine refuses
nothing. What is asked for outside of any context, which are the estimates, is given just the same as long as the sizes
that they are made of are words, and overflows if they are not. -/
theorem autocommit_unhindered (runs : Runs (Action.Heeds index) (.ofOptions options) db) (hsane : index.Sane)
    (hready : db.engine.Ready index.namespaces) (part : index.Part A B asked)
    (operation : IndexOperation A B) :
    (¬ operation.Overflows asked db.engine.store →
      Unhindered (operation.Refused asked db.engine.store.read) (operation.Missing asked db.engine.store.read)
          ((asked.operate none operation).run db).1 ∧
        ∀ cause, ((asked.operate none operation).run db).1 ≠ .error (.storage cause)) ∧
    (operation.Overflows asked db.engine.store →
      ((asked.operate none operation).run db).1 = .error (.storage .overflow)) := by
  have hsound : db.engine.Sound := runs.sound (Engine.sound_ofOptions options)
  -- what is committed is what the index has written, so it can be read
  have honly : asked.forward.OnlyEntries db.engine.store.read ∧
      ∀ reverse, asked.reverse? = some reverse → reverse.OnlyEntries db.engine.store.read :=
    part.onlyEntries (hsane.onlyEntries fun hx => runs.within_of_heeds.committed hx)
  have hasked : db.engine.Ready asked.namespaces :=
    ⟨hready.healthy, fun ns hns => hready.hasNamespace ns (part.mem hns)⟩
  refine ⟨fun hwords => ?_, asked.operate_overflows hready.healthy⟩
  have hunhindered := asked.operate_unhindered (part.sane hsane) hsound hasked honly.1 honly.2 operation hwords
  refine ⟨hunhindered, fun cause hcause => ?_⟩
  rw [hcause] at hunhindered
  rcases hunhindered with hrefused | ⟨-, -, herr⟩
  · obtain ⟨length, limit, herr⟩ := hrefused.exists_encoding
    cases herr
  · cases herr

/-- A removal of two pairs, of which one has been removed and added again, while an open transaction has removed the
other one. -/
theorem autocommit_unhindered_beside_rival :
    ∃ (index : AnyIndex UInt64 UInt64) (db : Database),
      Runs (Action.Heeds index) (.ofOptions {}) db ∧ index.Sane ∧ db.engine.Ready index.namespaces ∧
      (db.engine.ledger.pending 0).isSome = true ∧
      Unhindered ((IndexOperation.call (.removeAll 1)).Refused index db.engine.store.read)
        ((IndexOperation.call (.removeAll 1)).Missing index db.engine.store.read)
        ((index.operate none (.call (.removeAll 1))).run db).1 ∧
      ∀ cause, ((index.operate none (.call (.removeAll 1))).run db).1 ≠ .error (.storage cause) := by
  let index : AnyIndex UInt64 UInt64 :=
    .twoWay (.create "pairs" "forward" "reverse" .unsigned .unsigned {})
  have hsane : index.Sane :=
    TwoWayIndex.sane_create Codec.unsigned_inverts Codec.unsigned_inverts (by decide)
  obtain ⟨db, runs, hready, hopen⟩ : ∃ db, Runs (Action.Heeds index) (.ofOptions {}) db ∧
      db.engine.Ready index.namespaces ∧ (db.engine.ledger.pending 0).isSome = true := by
    have hspaces : Runs (Action.Heeds index) (.ofOptions {}) _ :=
      (Runs.refl.step (.store (.createNamespace "forward")) (.elsewhere _ nofun)).step
        (.store (.createNamespace "reverse")) (.elsewhere _ nofun)
    have hbegun := hspaces.step (.store .begin) (.elsewhere _ nofun)
    have hadded := (hbegun.step _ (.own .whole none (.call (.add 1 10)))).step _
      (.own .whole none (.call (.add 1 20)))
    have hrival := hadded.step _ (.own .whole (some 0) (.call (.remove 1 20)))
    have hagain := (hrival.step _ (.own .whole none (.call (.remove 1 10)))).step _
      (.own .whole none (.call (.add 1 10)))
    exact ⟨_, hagain, ⟨FaultPlan.eq_healthy fun call => by cases call <;> decide +kernel, by decide +kernel⟩,
      by decide +kernel⟩
  exact ⟨index, db, runs, hsane, hready, hopen,
    (runs.autocommit_unhindered hsane hready .whole (.call (.removeAll 1))).1 id⟩

end Database.Runs

end SecondaryIndex
