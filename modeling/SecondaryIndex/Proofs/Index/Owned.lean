import SecondaryIndex.Proofs.Index.Runs

/-!
# Namespaces that one index writes

Where the namespaces of an index are written through the index only, they hold nothing but its entries,
however its operations end and whatever else is done to the database. That is so of what is committed, and
of what every transaction sees.

The invariant is `Ledger.Within`: every record, committed or not, is one that the index allows itself to
write (`AnyIndex.Owns`). Every step of a run is one change of the ledger, and each of them keeps it
(`Action.Respects.within`).
-/

namespace SecondaryIndex

/-- All that is committed, and all that any transaction has written, is allowed. -/
structure Ledger.Within (allowed : Allowance) (l : Ledger Place Bytes) : Prop where
  committed : ∀ {x value}, l.committed x = some value → allowed x (some value)
  pending : ∀ {id c}, l.pending id = some c → allowed.Admits c

/-- What is seen with some writes made was there, or was written. -/
theorem Allowance.Admits.applyTo {allowed : Allowance} {c : Changes Place Bytes}
    {f : Place → Option Bytes} (hc : allowed.Admits c)
    (hf : ∀ {x value}, f x = some value → allowed x (some value)) {x : Place} {value : Bytes}
    (h : c.applyTo f x = some value) : allowed x (some value) := by
  unfold Changes.applyTo at h
  cases hslot : c x with
  | none =>
    rw [hslot] at h
    exact hf h
  | some slot =>
    rw [hslot] at h
    exact hc x _ (hslot.trans (congrArg some h))

namespace Ledger.Within

variable {allowed : Allowance} {l : Ledger Place Bytes} {c : Changes Place Bytes}

theorem empty (allowed : Allowance) : Ledger.Within allowed .empty := ⟨nofun, nofun⟩

/-- What a context sees in a ledger within an allowance is allowed. -/
theorem view (h : l.Within allowed) {ctx : Context} {x : Place} {value : Bytes}
    (hx : l.view ctx x = some value) : allowed x (some value) := by
  cases ctx with
  | none => exact h.committed hx
  | some id =>
    have hwrites : allowed.Admits ((l.pending id).getD .nothing) := by
      cases hpending : l.pending id with
      | none => exact allowed.admits_nothing
      | some c => exact h.pending hpending
    exact hwrites.applyTo h.committed hx

/-- A ledger stays within an allowance under changes it admits. -/
theorem write (h : l.Within allowed) (hc : allowed.Admits c) (ctx : Context) :
    (l.write c ctx).Within allowed := by
  cases ctx with
  | none => exact ⟨fun hx => hc.applyTo h.committed hx, h.pending⟩
  | some id =>
    refine ⟨h.committed, fun {j c'} hc' => ?_⟩
    rw [Ledger.write_some_pending] at hc'
    split at hc'
    · obtain ⟨earlier, hearlier, rfl⟩ := Option.map_eq_some_iff.1 hc'
      exact (h.pending hearlier).after hc
    · exact h.pending hc'

/-- An event keeps to what is allowed if its write does. -/
theorem after? (h : l.Within allowed) {event? : Option (LedgerEvent Place Bytes)}
    (hwrite : ∀ id x slot, event? = some (.writes id x slot) → allowed x slot) :
    (l.after? event?).Within allowed := by
  have hclosed (id : TransactionId) {j : TransactionId} {c : Changes Place Bytes}
      (hc : (l.close id).pending j = some c) : allowed.Admits c := by
    rw [Ledger.close_pending] at hc
    split at hc
    · cases hc
    · exact h.pending hc
  cases event? with
  | none => exact h
  | some event =>
    cases event with
    | opens id =>
      refine ⟨h.committed, fun {j c} hc => ?_⟩
      replace hc : (l.begin id).pending j = some c := hc
      rw [Ledger.begin_pending] at hc
      split at hc
      · cases hc
        exact allowed.admits_nothing
      · exact h.pending hc
    | writes id x slot => exact h.write (Allowance.admits_single (hwrite id x slot rfl)) (some id)
    | commits id =>
      -- what is committed is what the transaction saw
      have hseen {x : Place} {value : Bytes} (hx : l.view (some id) x = some value) :=
        h.view hx
      exact ⟨hseen, hclosed id⟩
    | ends id => exact ⟨h.committed, hclosed id⟩

end Ledger.Within

variable {K V : Type} {index : AnyIndex K V}

/-- An index has its namespaces to itself. -/
def AnyIndex.Owns (index : AnyIndex K V) : Allowance := fun x slot =>
  x.1 ∈ index.namespaces → index.Allows x slot

/-- An action leaves the namespaces of an index to the index. -/
inductive Action.Respects (index : AnyIndex K V) : Action → Prop
  | own (ctx : Context) (operation : IndexOperation K V) : Respects index (.index index ctx operation)
  | elsewhere (action : Action) (elsewhere : ∀ ns ∈ action.targets, ns ∉ index.namespaces) :
    Respects index action

/-- An index writes in its namespaces only. -/
theorem AnyIndex.mem_of_allows {x : Place} {slot : Slot} (h : index.Allows x slot) :
    x.1 ∈ index.namespaces := by
  cases index with
  | oneWay index => exact List.mem_singleton.2 h.1
  | twoWay index =>
    rcases h with h | h
    · exact List.mem_cons.2 (.inl h.1)
    · exact List.mem_cons.2 (.inr (List.mem_singleton.2 h.1))

/-- What is written through an index is its own, and what is written through another one is elsewhere. -/
theorem Action.Respects.admits {K' V' : Type} {asked : AnyIndex K' V'} {ctx : Context}
    {operation : IndexOperation K' V'} (h : Respects index (.index asked ctx operation))
    {c : Changes Place Bytes} (hc : asked.Allows.Admits c) : index.Owns.Admits c := by
  intro x slot hx
  cases h with
  | own => exact fun _ => hc x slot hx
  | elsewhere _ helsewhere =>
    intro hmem
    exact absurd hmem (helsewhere x.1 (AnyIndex.mem_of_allows (hc x slot hx)))

/-- What is allowed stays so, if calls on the store write elsewhere and every index that is asked writes what is
allowed. -/
theorem Action.within {allowed : Allowance} (action : Action) {db : Database}
    (hstore : ∀ call, action = .store call → ∀ ns, call.target? = some ns →
      ∀ key slot, allowed (ns, key) slot)
    (hindex : ∀ {A B : Type} {asked : AnyIndex A B} {ctx : Context} {operation : IndexOperation A B},
      action = .index asked ctx operation → ∀ c, asked.Allows.Admits c → allowed.Admits c)
    (hsound : db.engine.Sound) (hwithin : db.engine.ledger.Within allowed) :
    (action.run db).engine.ledger.Within allowed := by
  rcases action.idles db with ⟨call, rfl⟩ | ⟨K', V', asked, ctx, operation, rfl⟩ | ⟨plan, rfl⟩ | hidles
  · have hmove := Engine.moves_perform db.engine call
    show ((Engine.perform call).run db.engine).2.ledger.Within allowed
    rw [hmove.ledger_eq]
    exact hwithin.after? fun id x slot hevent =>
      hstore call rfl x.1 (StoreCall.target?_of_writes hevent) x.2 slot
  · obtain ⟨c, hadmits, hledger⟩ := (asked.operate_atomic ctx operation db hsound).exists_changes
    show ((asked.operate ctx operation).run db).2.engine.ledger.Within allowed
    rw [hledger]
    exact hwithin.write (hindex rfl c hadmits) ctx
  · exact hwithin
  · rw [hidles.ledger_eq]
    exact hwithin

/-- An action that respects an index keeps its namespaces to its own entries. -/
theorem Action.Respects.within {action : Action} (h : action.Respects index) {db : Database}
    (hsound : db.engine.Sound) (hwithin : db.engine.ledger.Within index.Owns) :
    (action.run db).engine.ledger.Within index.Owns := by
  refine action.within ?_ ?_ hsound hwithin
  · rintro call rfl ns htarget key slot hmem
    cases h with
    | elsewhere _ helsewhere => exact absurd hmem (helsewhere ns (Option.mem_toList.2 htarget))
  · rintro A B asked ctx operation rfl c hc
    exact h.admits hc

namespace Database.Runs

variable {options : StoreOptions} {db : Database}

/-- After a run that respects an index, its namespaces hold only its own entries. -/
theorem within (h : Runs (Action.Respects index) (.ofOptions options) db) :
    db.engine.ledger.Within index.Owns := by
  induction h with
  | refl => exact .empty index.Owns
  | step runs action permitted ih => exact permitted.within (runs.sound (Engine.sound_ofOptions options)) ih

end Database.Runs

/-- Namespaces that an index has to itself hold nothing but its entries. -/
theorem AnyIndex.Sane.onlyEntries (h : index.Sane) {f : Place → Option Bytes}
    (hf : ∀ {x value}, f x = some value → index.Owns x (some value)) :
    index.forward.OnlyEntries f ∧ ∀ reverse, index.reverse? = some reverse → reverse.OnlyEntries f := by
  cases index with
  | oneWay index =>
    refine ⟨fun p hp => ?_, nofun⟩
    obtain ⟨value, hvalue⟩ := Option.isSome_iff_exists.1 hp
    exact ((hf hvalue List.mem_cons_self).2 value rfl).2
  | twoWay index =>
    -- the halves are apart, so a record of one is not taken for one of the other
    refine ⟨fun p hp => ?_, ?_⟩
    · obtain ⟨value, hvalue⟩ := Option.isSome_iff_exists.1 hp
      rcases hf hvalue List.mem_cons_self with hallows | hallows
      · exact (hallows.2 value rfl).2
      · exact absurd hallows.1 h.apart
    · rintro reverse ⟨⟩ p hp
      obtain ⟨value, hvalue⟩ := Option.isSome_iff_exists.1 hp
      rcases hf hvalue (List.mem_cons_of_mem _ List.mem_cons_self) with hallows | hallows
      · exact absurd hallows.1.symm h.apart
      · exact (hallows.2 value rfl).2

end SecondaryIndex
