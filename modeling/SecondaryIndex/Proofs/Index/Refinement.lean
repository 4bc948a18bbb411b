import SecondaryIndex.Codec.Lemmas
import SecondaryIndex.Proofs.Index.History

/-!
# An index is a set of pairs

The model of an index is a ledger of pairs: the pairs that are committed, and for every open transaction
the pairs it has added and removed. `DatabaseHistory.pairs` reads it off a history. `Refines` relates a
database to it: the physical keys in the namespace of the index present the pairs, those that are
committed and those of every transaction.

The relation is kept by whatever happens without faults (`Refines.store`, `Refines.call`), also by calls
that fail. A failed call could leave half of its writes behind only where something was in the way of
them, and without faults nothing is: the keys are short enough, and an index that has written anything
has the one namespace it writes to. From the relation, every call answers as the model does
(`Refines.answered`), and `Database.Reaches.refines` puts both together for all runs.
-/

namespace SecondaryIndex

variable {K V : Type}

/-- The key that a call is given, if it is given one. -/
def IndexCall.key? : IndexCall K V → Option K
  | .add key _ => some key
  | .remove key _ => some key
  | .removeAll key => some key
  | .findFirst key => some key
  | .find key => some key
  | .countKey key => some key
  | _ => none

/-- Whether the key of a call, if it is given one, has at most 255 bytes. -/
def IndexCall.Short (keys : Codec K) (call : IndexCall K V) : Prop :=
  ∀ key, call.key? = some key → (keys.encode key).length ≤ 255

/-- Whether all went regularly: no faults were chosen, and the keys of all calls were short. -/
def DatabaseHistory.Regular (keys : Codec K) : DatabaseHistory K V → Prop
  | [] => True
  | .store _ _ :: older => Regular keys older
  | .index _ call _ _ :: older => call.Short keys ∧ Regular keys older
  | .faults :: _ => False

section Simulation

variable [DecidableEq K] [DecidableEq V] {index : Index K V} {history : DatabaseHistory K V}
  {db : Database}

/-- A database without faults presents the pairs of its history. -/
structure Refines (index : Index K V) (history : DatabaseHistory K V) (db : Database) : Prop where
  sound : db.engine.Sound
  healthy : db.engine.faults = .healthy
  holds : (AnyIndex.oneWay index).presentation.Holds (fun _ => True) db.engine.ledger history.pairs

omit [DecidableEq K] [DecidableEq V] in
theorem Engine.ready_singleton {e : Engine} {ns : Namespace} (hhealthy : e.faults = .healthy)
    (hns : e.store.hasNamespace ns = true) : e.Ready [ns] := by
  refine ⟨hhealthy, fun ns' hmem => ?_⟩
  rwa [List.mem_singleton.1 hmem]

theorem refines_start (options : StoreOptions) : Refines index [] (.ofOptions options) where
  sound := Engine.sound_ofOptions options
  healthy := rfl
  holds := (presents_start options).holds.mono fun _ _ htainted => htainted

theorem Refines.store (h : Refines index history db) (call : StoreCall)
    (helsewhere : ∀ ns, call.target? = some ns → ns ∉ (AnyIndex.oneWay index).namespaces) :
    Refines index (.store call ((Engine.perform call).run db.engine).1 :: history)
      { db with engine := ((Engine.perform call).run db.engine).2 } := by
  have hmove := Engine.moves_perform db.engine call
  refine ⟨h.sound.move hmove, hmove.persists.healthy h.healthy, ?_⟩
  refine AnyIndex.holds_move h.holds hmove ?_ (fun _ _ => trivial) fun _ _ _ => trivial
  intro id x slot hevent
  exact helsewhere x.1 (StoreCall.target?_of_writes hevent)

theorem Refines.call (h : Refines index history db) (hinv : index.codec.Inverts) (ctx : Context)
    {call : IndexCall K V} (hadmits : (AnyIndex.oneWay index).Admits call) :
    Refines index (.index ctx call (((AnyIndex.oneWay index).perform ctx call).run db).1
        (db.engine.wroteIn (((AnyIndex.oneWay index).perform ctx call).run db).2.engine ctx) :: history)
      (((AnyIndex.oneWay index).perform ctx call).run db).2 := by
  have hsane : (AnyIndex.oneWay index).Sane := hinv
  obtain ⟨hpersists, hok, herror, -⟩ :=
    AnyIndex.perform_settles hsane (h.holds.view fun _ _ => trivial) call db h.sound fun _ => rfl
  refine ⟨hpersists.sound h.sound, hpersists.healthy h.healthy, ?_⟩
  generalize ((AnyIndex.oneWay index).perform ctx call).run db = result at hok herror ⊢
  obtain ⟨outcome, db'⟩ := result
  cases outcome with
  | ok answer =>
    obtain ⟨c, hc, hledger⟩ := hok answer rfl
    show (AnyIndex.oneWay index).presentation.Holds _ db'.engine.ledger _
    rw [hledger]
    exact h.holds.write hc ctx
  | error err =>
    show (AnyIndex.oneWay index).presentation.Holds _ db'.engine.ledger history.pairs
    -- a call that failed has changed nothing, or was stopped with something written
    rcases herror err rfl with hsame | ⟨id, c, -, -, hthere, hnot, -⟩
    · rw [hsame]
      exact h.holds
    · -- had it written anything, the namespace would be there, and nothing would be in the way
      refine absurd ⟨hadmits, Engine.ready_singleton h.healthy ?_⟩ hnot
      by_contra hmissing
      refine hthere fun ns hmem => ?_
      rw [List.mem_singleton.1 hmem]
      exact Bool.eq_false_iff.2 hmissing

/-- A call answers as the model does. -/
theorem Refines.answered (h : Refines index history db) (hinv : index.codec.Inverts)
    (hns : db.engine.store.hasNamespace index.ns = true) {ctx : Context}
    (husable : history.pairs.Usable ctx) {call : IndexCall K V}
    (hadmits : (AnyIndex.oneWay index).Admits call) :
    call.Answered (.oneWay index) (history.pairs.view ctx)
      (((AnyIndex.oneWay index).perform ctx call).run db).1 := by
  have hsane : (AnyIndex.oneWay index).Sane := hinv
  have hviews : (AnyIndex.oneWay index).presentation.views (db.engine.ledger.view ctx)
      (history.pairs.view ctx) := h.holds.view fun _ _ => trivial
  have hsettled := AnyIndex.perform_settles hsane hviews call db h.sound fun _ => rfl
  exact hsettled.live hadmits (h.holds.usable_iff.2 husable) (Engine.ready_singleton h.healthy hns)

end Simulation

section Runs

variable {name : String} {ns : Namespace} {keys : Codec K} {values : Codec V}
  {indexOptions : IndexOptions} {options : StoreOptions} {history : DatabaseHistory K V}
  {db : Database}

/-- Keys of at most 255 bytes fit the compact layout. -/
theorem IndexCall.Short.admits {call : IndexCall K V} (h : call.Short keys) :
    (AnyIndex.oneWay (.create name ns keys values indexOptions)).Admits call := by
  have hreverse (value : V) :
      (AnyIndex.oneWay (.create name ns keys values indexOptions)).FitsReverse value := by
    rintro reverse ⟨⟩
  cases call with
  | add key value => exact ⟨h key rfl, hreverse value⟩
  | remove key value => exact ⟨h key rfl, hreverse value⟩
  | removeAll key | findFirst key | find key | countKey key => exact h key rfl
  | findByValue value => exact hreverse value
  | scanKeys | scanDistinctKeys | scanValues | count => exact trivial

variable [DecidableEq K] [DecidableEq V]

/-- Wherever a run leads without faults and with short keys, the namespace of an index presents the
pairs that the history leads to, and every call in a usable context answers from the pairs of that
context. -/
theorem Database.Reaches.refines (hkeys : keys.Inverts) (hvalues : values.Inverts)
    (reached : Database.Reaches (.oneWay (.create name ns keys values indexOptions)) options history db)
    (hregular : history.Regular keys) :
    (AnyIndex.oneWay (.create name ns keys values indexOptions)).presentation.Holds (fun _ => True)
        db.engine.ledger history.pairs ∧
      (db.engine.store.hasNamespace ns = true →
        ∀ (ctx : Context) (call : IndexCall K V), history.pairs.Usable ctx → call.Short keys →
        call.Answered (.oneWay (.create name ns keys values indexOptions)) (history.pairs.view ctx)
          (((AnyIndex.oneWay (.create name ns keys values indexOptions)).perform ctx call).run db).1) := by
  have hinv : (Index.create name ns keys values indexOptions).codec.Inverts := ⟨hkeys, hvalues⟩
  have hrefines : Refines (.create name ns keys values indexOptions) history db := by
    -- along the run; a call keeps the relation also where it fails
    induction reached with
    | start => exact refines_start options
    | store reached call elsewhere ih => exact (ih hregular).store call elsewhere
    | index reached ctx call ih => exact (ih hregular.2).call hinv ctx hregular.1.admits
    | @drain history db reached α cursor ih =>
      have hidles := cursor.collect_idle db
      have hbefore := ih hregular
      refine ⟨hidles.steady.sound hbefore.sound, hidles.healthy hbefore.healthy, ?_⟩
      rw [hidles.ledger_eq]
      exact hbefore.holds
    | faults reached faults ih => exact hregular.elim
  refine ⟨hrefines.holds, fun hns ctx call husable hshort => ?_⟩
  exact hrefines.answered hinv hns husable hshort.admits

end Runs

/-- A key with a committed value, looked up where another value was added and not yet committed. -/
theorem refines_in_open_transaction :
    ∃ history db, Database.Reaches (.oneWay (.create "pairs" "users" .unsigned .unsigned {})) {}
        history db ∧
      history.Regular .unsigned ∧
      history.pairs.view (some 0) (7, 20) = some () ∧ history.pairs.view (some 0) (7, 10) = some () ∧
      (IndexCall.find 7).Answered (.oneWay (.create "pairs" "users" .unsigned .unsigned {}))
        (history.pairs.view (some 0))
        (((AnyIndex.oneWay (.create "pairs" "users" .unsigned .unsigned {})).perform (some 0)
          (.find 7)).run db).1 := by
  have hshort (call : IndexCall UInt64 UInt64) : call.Short .unsigned := by
    intro key _
    have hlength : (Codec.unsigned.encode key).length = 8 := BigEndian.length_ofNat 8 _
    rw [hlength]
    decide
  obtain ⟨history, db, reached, hregular, hpending, hthere, hown, hns⟩ : ∃ history db,
      Database.Reaches (.oneWay (.create "pairs" "users" .unsigned .unsigned {})) {} history db ∧
      history.Regular .unsigned ∧ (history.pairs.pending 0).isSome = true ∧
      history.pairs.view (some 0) (7, 20) = some () ∧ history.pairs.view (some 0) (7, 10) = some () ∧
      db.engine.store.hasNamespace "users" = true := by
    have hempty : Database.Reaches
        (.oneWay (Index.create "pairs" "users" .unsigned .unsigned {})) {} [] (.ofOptions {}) := .start
    have hbegun := (hempty.store (.createNamespace "users") (by rintro _ ⟨⟩)).store .begin
      (by rintro _ ⟨⟩)
    have hadded := (hbegun.index none (.add 7 20)).index (some 0) (.add 7 10)
    exact ⟨_, _, hadded, ⟨hshort _, hshort _, trivial⟩, by decide +kernel, by decide +kernel,
      by decide +kernel, by decide +kernel⟩
  have husable : history.pairs.Usable (some 0) := hpending
  have hanswered := (reached.refines Codec.unsigned_inverts Codec.unsigned_inverts hregular).2 hns
    (some 0) (.find 7) husable (hshort _)
  exact ⟨history, db, reached, hregular, hthere, hown, hanswered⟩

end SecondaryIndex
