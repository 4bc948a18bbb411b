import Mathlib.Data.List.Sort
import SecondaryIndex.Proofs.Engine.Opening
import SecondaryIndex.Proofs.Index.Atomic
import SecondaryIndex.Proofs.Index.Mirror
import SecondaryIndex.Proofs.Index.Stops

/-!
# What the removal of a key leaves in its transaction

Who removes all pairs of a key in an open transaction lists what the transaction sees under the key, and then
removes it one by one: the physical keys of the forward half in ascending order, and after the last of them their
counterparts in the reverse half, if there is one (`AnyIndex.Vacates`). `Engine.HasOpen.removeAll_vacates` is the main
result. If the removal succeeds, what the transaction has buffered is what it had before, with the removal of
exactly these places on top; if it fails, with the removal of an initial segment of them. All else is as it was.

Nothing is assumed of what the transaction has written, nor of what the physical keys of an index with one half
look like. For an index with two halves it is assumed that they mirror each other in what the transaction sees,
since the counterparts are found by reading the physical keys of the forward half.
-/

namespace SecondaryIndex

variable {K V : Type}

/-! ### Counting comes last -/

section Observed

open IndexM Program

variable {α : Type} {live ready : Prop} {spaces : List Namespace} {id : TransactionId}
  {view : Place → Option Bytes} {program : IndexM α}

/-- No transaction notices that something is counted. -/
theorem Acts.observed {post : Changes Place Bytes → α → Prop} (h : Acts live spaces id view program post)
    (id? : Option MetricsId) (count : α → Counters → Counters) :
    Acts live spaces id view (do let a ← program; observe id? (count a); Pure.pure a) post := by
  refine .bind h fun c a hc db _ => ?_
  refine Acts.of_ok rfl (.of_ledger_eq ?_ ?_) ?_
  · exact congrArg Engine.ledger (AnyIndex.engine_observe id? (count a) db)
  · exact (idle_observe id? (count a) db).steady
  · rwa [Changes.nothing_after]

/-- Counting does not fail. -/
theorem Stops.observed {left : Changes Place Bytes → IndexError → Prop}
    {post : Changes Place Bytes → α → Prop} (h : Stops ready spaces id view program left)
    (hacts : Acts False spaces id view program post) (id? : Option MetricsId)
    (count : α → Counters → Counters) :
    Stops ready spaces id view (do let a ← program; observe id? (count a); Pure.pure a) left :=
  .bind h hacts fun _ _ _ _ _ _ _ _ => nofun

end Observed

/-! ### Places that are vacated -/

/-- The removal of what is recorded at some places. -/
def Changes.vacating (places : List Place) : Changes Place Bytes :=
  fun x => if x ∈ places then some none else none

theorem Changes.vacating_nil : Changes.vacating [] = .nothing := by
  funext x
  simp [vacating, nothing]

theorem Changes.removing_eq_vacating (ns : Namespace) (keys : List Bytes) :
    Changes.removing ns keys = .vacating (keys.map (ns, ·)) := by
  funext x
  obtain ⟨n, k⟩ := x
  unfold removing vacating
  refine if_congr ?_ rfl rfl
  rw [List.mem_map]
  simp only [Prod.mk.injEq, exists_eq_right_right]
  exact ⟨fun ⟨hn, hk⟩ => ⟨hk, hn.symm⟩, fun ⟨hk, hn⟩ => ⟨hn.symm, hk⟩⟩

/-- What is cleared is what is vacated, if the places are those at which something is seen. -/
theorem Changes.clearing_eq_vacating {f : Place → Option Bytes} {P : Place → Prop} {places : List Place}
    (h : ∀ x, P x ∧ (f x).isSome ↔ x ∈ places) : Changes.clearing f P = .vacating places := by
  funext x
  by_cases hx : x ∈ places
  · exact (if_pos ((h x).2 hx)).trans (if_pos hx).symm
  · exact (if_neg fun hp => hx ((h x).1 hp)).trans (if_neg hx).symm

theorem Changes.applyTo_vacating {places : List Place} {f : Place → Option Bytes} {x : Place}
    (h : x ∉ places) : (Changes.vacating places).applyTo f x = f x := by
  unfold applyTo vacating
  rw [if_neg h]
  rfl

/-- Ascending lists of one set are one list. -/
theorem Lists.unique {S : Bytes → Prop} {l l' : List Bytes} (h : Lists (· < ·) S l)
    (h' : Lists (· < ·) S l') : l = l' :=
  h.sorted.eq_of_mem_iff h'.sorted fun x => (h.mem_iff x).trans (h'.mem_iff x).symm

/-- What an open transaction sees in a range can be listed. -/
theorem Engine.HasOpen.exists_listing {e : Engine} {id : TransactionId} {tx : Transaction}
    (hopen : e.HasOpen id tx) (ns : Namespace) (range : Range) :
    ∃ keys, Listing (e.ledger.view (some id)) ns range keys := by
  -- in a namespace that is not there the transaction can only have seen its own writes
  obtain ⟨table, hread⟩ : ∃ table : Table, ∀ key, e.store.read (ns, key) = table.get? key := by
    cases htable : e.store.tables.get? ns with
    | some table => exact ⟨table, fun key => Store.read_of_table htable⟩
    | none => exact ⟨∅, fun key => by simp only [Store.read, htable]; rfl⟩
  refine ⟨(table.view (tx.batch ns) range).keys,
    List.pairwise_map.2 (table.view (tx.batch ns) range).sorted, fun key => ?_⟩
  have hview : e.ledger.view (some id) (ns, key) =
      ((tx.batch ns).get? key).getD (table.get? key) := by
    rw [hopen.view, ← hread]
    rfl
  rw [Engine.mem_keys_view_iff, hview]

namespace Index

variable {index : Index K V} {view : Place → Option Bytes} {key : K}

/-- A physical key that is seen under a key. -/
def Doomed (index : Index K V) (view : Place → Option Bytes) (key : K) (p : Bytes) : Prop :=
  index.Under key (index.ns, p) ∧ (view (index.ns, p)).isSome

/-- What is listed of the range of a key is what is seen under it. -/
theorem lists_doomed {lower : Bytes} {upper : Bound} (hspan : index.codec.span key = .ok (lower, upper))
    {keys : List Bytes} (hkeys : Listing view index.ns ⟨.included lower, upper⟩ keys) :
    Lists (· < ·) (index.Doomed view key) keys := by
  refine ⟨hkeys.sorted, fun p => ?_⟩
  rw [hkeys.mem_iff, contains_iff_under hspan]
  rfl

end Index

namespace TwoWayIndex

variable {index : TwoWayIndex K V} {view : Place → Option Bytes} {key : K} {doomed returned : List Bytes}

/-- The reverse half shows the pair of a forward entry of a key under another physical key. -/
def Counterpart (index : TwoWayIndex K V) (view : Place → Option Bytes) (key : K) (p q : Bytes) : Prop :=
  ∃ value, index.forward.codec.encode key value = .ok p ∧
    index.reverse.codec.encode value key = .ok q ∧ (view (index.reverse.ns, q)).isSome

/-- Where the halves mirror each other, all that is seen under a key has a counterpart. -/
theorem Mirrored.exists_counterpart (h : index.Mirrored view) (hinv : index.forward.codec.Inverts)
    {p : Bytes} (hp : index.forward.Doomed view key p) : ∃ q, index.Counterpart view key p q := by
  obtain ⟨⟨-, rest, hsplit⟩, hsome⟩ := hp
  obtain ⟨key', value, hencode⟩ := h.forward_only p hsome
  -- a physical key under a key is that of a pair of the key
  have hkey : index.forward.codec.keys.encode key' = index.forward.codec.keys.encode key :=
    congrArg Prod.fst (Except.ok.inj ((EntryCodec.split_of_encode hencode).symm.trans hsplit))
  obtain rfl := hinv.1.injective hkey
  obtain ⟨q, hq, hseen⟩ := (h.stored_iff key' value).1 ⟨p, hencode, hsome⟩
  exact ⟨q, value, hencode, hq, hseen⟩

theorem Mirrored.exists_returned (h : index.Mirrored view) (hinv : index.forward.codec.Inverts)
    (hdoomed : ∀ p ∈ doomed, index.forward.Doomed view key p) :
    ∃ returned, List.Forall₂ (index.Counterpart view key) doomed returned := by
  induction doomed with
  | nil => exact ⟨[], .nil⟩
  | cons p doomed ih =>
    obtain ⟨q, hq⟩ := h.exists_counterpart hinv (hdoomed p List.mem_cons_self)
    obtain ⟨returned, hreturned⟩ := ih fun p' hp' => hdoomed p' (List.mem_cons_of_mem _ hp')
    exact ⟨q :: returned, .cons hq hreturned⟩

/-- A forward entry that has a counterpart can be taken back. -/
theorem not_resists (hinv : index.forward.codec.Inverts)
    (h : List.Forall₂ (index.Counterpart view key) doomed returned) {p : Bytes} (hp : p ∈ doomed)
    (cause : EncodingError) : ¬ index.Resists key p cause := by
  obtain ⟨i, hi, rfl⟩ := List.mem_iff_getElem.1 hp
  obtain ⟨value, hencode, hq, -⟩ := h.get hi (h.length_eq ▸ hi)
  have hvalue := EntryCodec.readValue_of_encode hinv.2 hencode
  simp only [List.get_eq_getElem] at hvalue
  rintro (herr | ⟨value', hvalue', herr⟩)
  · rw [hvalue] at herr
    cases herr
  · rw [hvalue] at hvalue'
    cases hvalue'
    rw [hq] at herr
    cases herr

/-- What is taken back are the counterparts. -/
theorem listed_iff (hinv : index.forward.codec.Inverts)
    (h : List.Forall₂ (index.Counterpart view key) doomed returned) (x : Place) :
    index.Listed key doomed x ↔ x ∈ returned.map (index.reverse.ns, ·) := by
  induction h with
  | nil => simp [Listed]
  | @cons p q doomed returned hpq hrest ih =>
    obtain ⟨value, hencode, hq, -⟩ := hpq
    have hvalue := EntryCodec.readValue_of_encode hinv.2 hencode
    rw [List.map_cons, List.mem_cons, ← ih, ← Index.storedAt_iff hq]
    unfold Listed
    simp only [List.mem_cons, exists_eq_or_imp, hvalue, Except.ok.injEq, exists_eq_left']

/-- What is cleared under a key and in the reverse half are the entries of the key, and those counterparts that are
taken back. -/
theorem clearing_eq_vacating (hinv : index.forward.codec.Inverts)
    (hdoomed : Lists (· < ·) (index.forward.Doomed view key) doomed) {taken : List Bytes}
    (h : List.Forall₂ (index.Counterpart view key) taken returned) :
    (Changes.clearing view fun x => index.forward.Under key x ∨ index.Listed key taken x) =
      .vacating (doomed.map (index.forward.ns, ·) ++ returned.map (index.reverse.ns, ·)) := by
  refine Changes.clearing_eq_vacating fun x => ?_
  have hforward : x ∈ doomed.map (index.forward.ns, ·) ↔ index.forward.Under key x ∧ (view x).isSome := by
    obtain ⟨ns, p⟩ := x
    simp only [List.mem_map, Prod.mk.injEq, exists_eq_right_right, hdoomed.mem_iff]
    constructor
    · rintro ⟨hp, rfl⟩
      exact hp
    · rintro ⟨⟨rfl, hunder⟩, hsome⟩
      exact ⟨⟨⟨rfl, hunder⟩, hsome⟩, rfl⟩
  -- a counterpart was seen in the view, or it would not have been returned
  have hseen (hx : x ∈ returned.map (index.reverse.ns, ·)) : (view x).isSome := by
    obtain ⟨q, hq, rfl⟩ := List.mem_map.1 hx
    obtain ⟨i, hi, rfl⟩ := List.mem_iff_getElem.1 hq
    obtain ⟨value, -, -, hsome⟩ := h.get (h.length_eq ▸ hi) hi
    exact hsome
  rw [List.mem_append, hforward, listed_iff hinv h]
  constructor
  · rintro ⟨hunder | hback, hsome⟩
    · exact .inl ⟨hunder, hsome⟩
    · exact .inr hback
  · rintro (⟨hunder, hsome⟩ | hback)
    · exact ⟨.inl hunder, hsome⟩
    · exact ⟨.inr hback, hseen hback⟩

end TwoWayIndex

/-! ### Either form -/

namespace AnyIndex

open IndexM

/-- The two halves of an index, if it has two, mirror each other in a view, and what is stored can be read. -/
def Reflects (index : AnyIndex K V) (view : Place → Option Bytes) : Prop :=
  match index with
  | oneWay _ => True
  | twoWay index => index.forward.codec.Inverts ∧ index.Mirrored view

/-- The physical keys that are seen under a key, and the places that are vacated when the key is removed, in their
order: those of the physical keys, and then those of their counterparts, if there are any. -/
inductive Vacates (view : Place → Option Bytes) (key : K) : AnyIndex K V → List Bytes → List Place → Prop
  | oneWay {index : Index K V} {doomed : List Bytes}
    (listed : Lists (· < ·) (index.Doomed view key) doomed) :
    Vacates view key (oneWay index) doomed (doomed.map (index.ns, ·))
  | twoWay {index : TwoWayIndex K V} {doomed returned : List Bytes}
    (listed : Lists (· < ·) (index.forward.Doomed view key) doomed)
    (counterparts : List.Forall₂ (index.Counterpart view key) doomed returned) :
    Vacates view key (twoWay index) doomed
      (doomed.map (index.forward.ns, ·) ++ returned.map (index.reverse.ns, ·))

variable {index : AnyIndex K V} {view : Place → Option Bytes} {key : K} {doomed : List Bytes}
  {places : List Place} (id : TransactionId)

theorem Reflects.exists_vacates (h : index.Reflects view)
    (hdoomed : Lists (· < ·) (index.forward.Doomed view key) doomed) :
    ∃ places, Vacates view key index doomed places := by
  cases index with
  | oneWay index => exact ⟨_, .oneWay hdoomed⟩
  | twoWay index =>
    obtain ⟨returned, hreturned⟩ := h.2.exists_returned h.1 fun p hp => (hdoomed.mem_iff p).1 hp
    exact ⟨_, .twoWay hdoomed hreturned⟩

/-- A removal that succeeds vacates all places. -/
theorem removeAll_vacating (hreflects : index.Reflects view) (h : Vacates view key index doomed places) :
    Acts False index.namespaces id view (index.removeAll (some id) key) fun c n =>
      n = doomed.length ∧ c = .vacating places := by
  cases h with
  | @oneWay index doomed listed =>
    refine Acts.observed (.map (Index.eraseAllWithin_deletes List.mem_cons_self False.elim) ?_) _ _
    rintro c keys ⟨rfl, lower, upper, hspan, hkeys⟩
    obtain rfl := (Index.lists_doomed hspan hkeys).unique listed
    exact ⟨rfl, Changes.removing_eq_vacating _ _⟩
  | @twoWay index doomed returned listed counterparts =>
    refine Acts.observed (.mono (TwoWayIndex.eraseAll_lists List.mem_cons_self
      (List.mem_cons_of_mem _ List.mem_cons_self)) ?_) _ _
    rintro c n ⟨lower, upper, keys, hspan, hkeys, rfl, -, rfl⟩
    obtain rfl := (Index.lists_doomed hspan hkeys).unique listed
    exact ⟨rfl, TwoWayIndex.clearing_eq_vacating hreflects.1 listed counterparts⟩

/-- A removal that fails has vacated the places up to one of them, and fails only if a call of the engine does. -/
theorem removeAll_stops {ready : Prop} (hfits : index.forward.codec.Fits key) (hreflects : index.Reflects view)
    (h : Vacates view key index doomed places) :
    Stops ready index.namespaces id view (index.removeAll (some id) key) fun c err =>
      ¬ ready ∧ (∃ cause, err = .storage cause) ∧ ∃ m, c = .vacating (places.take m) := by
  obtain ⟨lower, upper, hspan⟩ := EntryCodec.exists_span hfits
  have hnothing : ∃ m, Changes.nothing = .vacating (places.take m) :=
    ⟨0, by rw [List.take_zero, Changes.vacating_nil]⟩
  cases h with
  | @oneWay index doomed listed =>
    have hacts : Acts False [index.ns] id view (List.length <$> index.eraseAllWithin id key)
        fun _ _ => True :=
      .map (Index.eraseAllWithin_deletes List.mem_cons_self False.elim) fun _ _ _ => trivial
    -- a failed deletion leaves those before it, in the order in which they were listed
    refine Stops.observed (.map (Index.eraseAllWithin_stops List.mem_cons_self (fun cause hcause => ?_)
      (fun hnot cause => ⟨hnot, ⟨cause, rfl⟩, hnothing⟩)
      fun hnot lower' upper' keys hspan' hkeys m _ cause => ⟨hnot, ⟨cause, rfl⟩, m, ?_⟩)) hacts _ _
    · exact nomatch hspan.symm.trans hcause
    · obtain rfl := (Index.lists_doomed hspan' hkeys).unique listed
      rw [Changes.removing_eq_vacating, List.map_take]
  | @twoWay index doomed returned listed counterparts =>
    have hreverse : index.reverse.ns ∈ [index.forward.ns, index.reverse.ns] :=
      List.mem_cons_of_mem _ List.mem_cons_self
    -- the forward entries go first, so a failure there leaves only some of them
    refine Stops.observed (TwoWayIndex.eraseAll_stops List.mem_cons_self hreverse (fun cause hcause => ?_)
      (fun hnot cause => ⟨hnot, ⟨cause, rfl⟩, hnothing⟩) fun lower' upper' keys hspan' hkeys => ?_)
      (TwoWayIndex.eraseAll_lists List.mem_cons_self hreverse) _ _
    · exact nomatch hspan.symm.trans hcause
    obtain rfl := (Index.lists_doomed hspan' hkeys).unique listed
    refine ⟨fun c p hp cause hresists => ?_, fun hnot m hm cause => ⟨⟨hnot, ⟨cause, rfl⟩, m, ?_⟩,
      hnot, ⟨cause, rfl⟩, keys.length + m, ?_⟩⟩
    · exact absurd hresists (TwoWayIndex.not_resists hreflects.1 counterparts hp cause)
    · rw [List.take_append_of_le_length (by rwa [List.length_map]), ← List.map_take,
        Changes.removing_eq_vacating]
    · rw [TwoWayIndex.clearing_eq_vacating hreflects.1 listed (List.forall₂_take m counterparts),
        List.map_take]
      congr 1
      rw [← List.length_map (index.forward.ns, ·), List.take_length_add_append]

end AnyIndex

/-! ### In an open transaction -/

/-- Removing all pairs of a key in an open transaction touches exactly what is doomed. On success the writes of the
transaction are the former ones with the removal of what it saw under the key on top, and of the counterparts in
the reverse half; the result is the number of pairs. If a call of the engine fails, the removal on top is that of
an initial segment. All other places are seen as before, and other transactions do not notice. -/
theorem Engine.HasOpen.removeAll_vacates {db : Database} {id : TransactionId} {tx : Transaction}
    (hopen : db.engine.HasOpen id tx) {index : AnyIndex K V} {key : K}
    (hfits : index.forward.codec.Fits key)
    (hreflects : index.Reflects (db.engine.ledger.view (some id))) :
    ∃ doomed places tx',
      AnyIndex.Vacates (db.engine.ledger.view (some id)) key index doomed places ∧
      ((index.removeAll (some id) key).run db).2.engine.HasOpen id tx' ∧
      db.engine.Keeps id ((index.removeAll (some id) key).run db).2.engine ∧
      (∀ n, ((index.removeAll (some id) key).run db).1 = .ok n →
        n = doomed.length ∧ tx'.changes = (Changes.vacating places).after tx.changes) ∧
      (∀ err, ((index.removeAll (some id) key).run db).1 = .error err →
        (∃ cause, err = .storage cause) ∧
          ∃ m, tx'.changes = (Changes.vacating (places.take m)).after tx.changes) ∧
      (db.engine.Ready index.namespaces →
        ∃ n, ((index.removeAll (some id) key).run db).1 = .ok n) ∧
      ∀ x ∉ places, ((index.removeAll (some id) key).run db).2.engine.ledger.view (some id) x =
        db.engine.ledger.view (some id) x := by
  obtain ⟨lower, upper, hspan⟩ := EntryCodec.exists_span hfits
  obtain ⟨doomed, hlisting⟩ := hopen.exists_listing index.forward.ns ⟨.included lower, upper⟩
  obtain ⟨places, hvacates⟩ := hreflects.exists_vacates (Index.lists_doomed hspan hlisting)
  have husable : db.engine.ledger.Usable (some id) := Option.isSome_iff_exists.2 ⟨_, hopen.pending⟩
  have hkeeps := (index.removeAll_confined id key db).keeps
  obtain ⟨c, hacted, hok, -⟩ := AnyIndex.removeAll_vacating id hreflects hvacates db fun _ => rfl
  have hstops := AnyIndex.removeAll_stops id hfits hreflects hvacates db husable rfl fun hready => hready
  generalize (index.removeAll (some id) key).run db = result at hkeeps hacted hok hstops ⊢
  obtain ⟨outcome, db'⟩ := result
  -- in any case the places up to some number are vacated
  have hvacated {m : Nat}
      (hledger : db'.engine.ledger = db.engine.ledger.write (.vacating (places.take m)) (some id)) :
      (∃ tx', db'.engine.HasOpen id tx' ∧
        tx'.changes = (Changes.vacating (places.take m)).after tx.changes) ∧
      ∀ x ∉ places, db'.engine.ledger.view (some id) x = db.engine.ledger.view (some id) x := by
    refine ⟨pending_eq_some_iff.1 ?_, fun x hx => ?_⟩
    · rw [hledger, Ledger.write_some_pending, if_pos rfl, hopen.pending, Option.map_some]
    · rw [hledger, Ledger.view_write _ _ husable,
        Changes.applyTo_vacating fun hmem => hx (List.mem_of_mem_take hmem)]
  cases outcome with
  | ok n =>
    obtain ⟨rfl, rfl⟩ := hok n rfl
    -- all places are the places up to their number
    rw [← List.take_length (l := places)] at hacted
    obtain ⟨⟨tx', hopen', hchanges⟩, hseen⟩ := hvacated hacted.ledger
    rw [List.take_length] at hchanges
    exact ⟨doomed, places, tx', hvacates, hopen', hkeeps, fun _ hn => ⟨(Except.ok.inj hn).symm, hchanges⟩,
      nofun, fun _ => ⟨_, rfl⟩, hseen⟩
  | error err =>
    obtain ⟨c, hledger, hnot, hcause, m, rfl⟩ := hstops err rfl
    obtain ⟨⟨tx', hopen', hchanges⟩, hseen⟩ := hvacated hledger
    refine ⟨doomed, places, tx', hvacates, hopen', hkeeps, nofun, fun _ herr => ?_,
      fun hready => absurd hready hnot, hseen⟩
    cases herr
    exact ⟨hcause, m, hchanges⟩

/-- A removal of three pairs, of which two are committed and one is added by the transaction itself, that fails in
the reverse half. -/
theorem removeAll_vacates_of_failed_delete :
    ∃ (index : AnyIndex UInt64 UInt64) (db : Database) (tx tx' : Transaction) (doomed : List Bytes)
      (places : List Place) (m : Nat),
      db.engine.HasOpen 0 tx ∧ index.forward.codec.Fits 1 ∧
      index.Reflects (db.engine.ledger.view (some 0)) ∧
      ((index.removeAll (some 0) 1).run db).1.isOk = false ∧
      AnyIndex.Vacates (db.engine.ledger.view (some 0)) 1 index doomed places ∧
      ((index.removeAll (some 0) 1).run db).2.engine.HasOpen 0 tx' ∧
      tx'.changes = (Changes.vacating (places.take m)).after tx.changes := by
  let halves : TwoWayIndex UInt64 UInt64 := .create "pairs" "forward" "reverse" .unsigned .unsigned {}
  obtain ⟨history, db, reached, hclean, htrusted, hpending, hfails⟩ : ∃ history db,
      Database.Reaches (.twoWay halves) {} history db ∧ history.Clean ∧ ¬ history.Tainted 0 ∧
        (db.engine.ledger.pending 0).isSome = true ∧
        (((AnyIndex.twoWay halves).removeAll (some 0) 1).run db).1.isOk = false := by
    have hempty : Database.Reaches (.twoWay halves) {} [] (.ofOptions {}) := .start
    have hspaces := (hempty.store (.createNamespace "forward") (by rintro _ ⟨⟩)).store
      (.createNamespace "reverse") (by rintro _ ⟨⟩)
    have hbegun := hspaces.store .begin (by rintro _ ⟨⟩)
    have hadded := ((hbegun.index none (.add 1 10)).index none (.add 1 20)).index (some 0) (.add 1 30)
    -- three deletions in the forward half go through, and one in the reverse half
    have hfaulty := hadded.faults (FaultPlan.healthy.arm .delete 4 1)
    exact ⟨_, _, hfaulty, by decide +kernel, by decide +kernel, by decide +kernel, by decide +kernel⟩
  obtain ⟨changes, hchanges⟩ := Option.isSome_iff_exists.1 hpending
  obtain ⟨tx, hopen, -⟩ := Engine.pending_eq_some_iff.1 hchanges
  have htrusts : ∀ id, some 0 = some id → ¬ history.Tainted id := by
    rintro id ⟨⟩
    exact htrusted
  have hsane : halves.Sane :=
    TwoWayIndex.sane_create Codec.unsigned_inverts Codec.unsigned_inverts (by decide)
  have hreflects : (AnyIndex.twoWay halves).Reflects (db.engine.ledger.view (some 0)) :=
    ⟨hsane.forward, TwoWayIndex.mirrored_of_views hsane ((reached.presents hsane hclean).holds.view htrusts)⟩
  have hfits : (AnyIndex.twoWay halves).forward.codec.Fits 1 := by
    unfold EntryCodec.Fits
    decide
  obtain ⟨doomed, places, tx', hvacates, hopen', -, -, herror, -⟩ :=
    hopen.removeAll_vacates hfits hreflects
  cases houtcome : (((AnyIndex.twoWay halves).removeAll (some 0) 1).run db).1 with
  | ok n =>
    rw [houtcome] at hfails
    cases hfails
  | error err =>
    obtain ⟨-, m, hleft⟩ := herror err houtcome
    refine ⟨.twoWay halves, db, tx, tx', doomed, places, m, hopen, hfits, hreflects, ?_, hvacates, hopen',
      hleft⟩
    rw [houtcome]
    rfl

end SecondaryIndex
