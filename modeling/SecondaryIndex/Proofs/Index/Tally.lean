import SecondaryIndex.Proofs.Debt.Basic
import SecondaryIndex.Proofs.Index.Counts
import SecondaryIndex.Proofs.Index.Upheld
import SecondaryIndex.Proofs.Index.Walks

/-!
# What counters notice of a call

An index that has counters tells them of the pairs that it has added and removed. It does so when its
transaction is settled, of what was found within it: of a pair that was added, whether or not it was there; of a
pair that was removed, if it was there; and of all pairs of a key that were removed, by their number.

`AnyIndex.perform_noted` says this for calls that auto-commit, from any database in which a set of pairs is seen.
A call has two parts, the operation in a transaction and the note that is taken of it. The first one adds nothing
to what was added and removed, whatever comes of it (`unnoticed_within`); the second one comes only if the first
one has gone through, and then what the first one gives is known (`IndexM.exists_post`). In a two-way index it is
given by the forward half alone, so that a pair counts once.
-/

namespace SecondaryIndex

variable {α β K V : Type}

/-! ### Taking notice -/

namespace Database

variable {id : MetricsId} {db db' db'' : Database} {added removed added' removed' : Nat}

/-- The additions and removals that counters have noticed. -/
def Noticed (id : MetricsId) (added removed : Nat) (db : Database) : Prop :=
  (db.counters id).added = added ∧ (db.counters id).removed = removed

/-- By how much counters have gone up. -/
def Grows (id : MetricsId) (db : Database) (added removed : Nat) (db' : Database) : Prop :=
  Noticed id ((db.counters id).added + added) ((db.counters id).removed + removed) db'

/-- What was noticed lasts until it is counted on. -/
theorem lasting_noticed (id : MetricsId) (added removed : Nat) :
    Lasting (fun _ _ => True) (Noticed id added removed) where
  perform _ h _ := h
  drawn h := h
  counted {db count} id? h hcount := by
    obtain ⟨hadded, hremoved⟩ := hcount (db.counters id)
    unfold Noticed
    rw [counters_observe]
    split
    · exact ⟨hadded.trans h.1, hremoved.trans h.2⟩
    · exact h

end Database

/-- A program that takes no notice of additions and removals, whatever comes of it. -/
def Unnoticed (id : MetricsId) (program : IndexM α) : Prop :=
  ∀ added removed, Upholds (Database.Noticed id added removed) program fun _ => True

/-- A program that takes notice of something, and does not fail. -/
def Notices (id : MetricsId) (added removed : Nat) (program : IndexM α) : Prop :=
  ∀ db, (∃ a, (program.run db).1 = .ok a) ∧ Database.Grows id db added removed (program.run db).2

namespace Notices

open Program IndexM

variable {id : MetricsId} {id? : Option MetricsId} {added removed : Nat}

theorem nothing (a : α) : Notices id 0 0 (pure a : IndexM α) :=
  fun _ => ⟨⟨a, rfl⟩, rfl, rfl⟩

theorem observe {count : Counters → Counters} (hid : id? = some id)
    (hcount : ∀ c, (count c).added = c.added + added ∧ (count c).removed = c.removed + removed) :
    Notices id added removed (IndexM.observe id? count) := by
  refine fun db => ⟨⟨(), rfl⟩, ?_⟩
  show Database.Grows id db added removed (db.observe id? count)
  unfold Database.Grows Database.Noticed
  rw [Database.counters_observe, if_pos hid]
  exact hcount _

theorem giving {program : IndexM α} (h : Notices id added removed program) (b : β) :
    Notices id added removed (do let _ ← program; pure b) := by
  intro db
  obtain ⟨⟨a, ha⟩, hgrows⟩ := h db
  rcases hrun : program.run db with ⟨outcome, db'⟩
  rw [hrun] at ha hgrows
  obtain rfl : outcome = .ok a := ha
  rw [run_bind_ok hrun]
  exact ⟨⟨b, rfl⟩, hgrows⟩

end Notices

/-- What comes of an operation of which notice is taken once it has gone through. -/
theorem Unnoticed.followed {id : MetricsId} {program : IndexM α} {rest : α → IndexM β}
    {added removed : α → Nat} (h : Unnoticed id program)
    (hrest : ∀ a, Notices id (added a) (removed a) (rest a)) {db db' : Database}
    {outcome : Except IndexError β} (hrun : (program >>= rest).run db = (outcome, db')) :
    (∃ err, outcome = .error err ∧ Database.Grows id db 0 0 db') ∨
      ∃ a db₁ b, program.run db = (.ok a, db₁) ∧ outcome = .ok b ∧
        Database.Grows id db (added a) (removed a) db' := by
  obtain ⟨⟨hadded, hremoved⟩, -⟩ := h _ _ db ⟨rfl, rfl⟩
  rcases hfirst : program.run db with ⟨err | a, db₁⟩
  · rw [hfirst] at hadded hremoved
    rw [Program.run_bind_error hfirst] at hrun
    obtain ⟨rfl, rfl⟩ := Prod.mk.inj hrun
    exact .inl ⟨err, rfl, hadded, hremoved⟩
  · rw [hfirst] at hadded hremoved
    rw [Program.run_bind_ok hfirst] at hrun
    obtain ⟨⟨b, hb⟩, hgrows⟩ := hrest a db₁
    rw [hrun] at hb hgrows
    refine .inr ⟨a, db₁, b, rfl, hb, ?_⟩
    unfold Database.Grows at hgrows ⊢
    rwa [hadded, hremoved] at hgrows

/-! ### The pairs of a call -/

/-- Some pairs if something has gone through, and none if it has failed. -/
def ifDone (outcome : Except IndexError α) (pairs : Set β) : Set β :=
  match outcome with
  | .ok _ => pairs
  | .error _ => ∅

theorem ifDone_map (outcome : Except IndexError α) (f : α → β) (pairs : Set (K × V)) :
    ifDone (outcome.map f) pairs = ifDone outcome pairs := by
  cases outcome <;> rfl

namespace IndexCall

variable {id : MetricsId} {call : IndexCall K V} {stored : Set (K × V)} {db db' : Database}

/-- The pairs that a call is to add. -/
def additions : IndexCall K V → Set (K × V)
  | add key value => {(key, value)}
  | _ => ∅

/-- The pairs that a call is to remove, as far as they are there. -/
def removals : IndexCall K V → Set (K × V)
  | remove key value => {(key, value)}
  | removeAll key => {kv | kv.1 = key}
  | _ => ∅

/-- What counters notice of a call: the pairs that it has added, and those of a set that it has removed. -/
def Noted (id : MetricsId) (call : IndexCall K V) (stored : Set (K × V)) (outcome : Except IndexError α)
    (db db' : Database) : Prop :=
  ∃ added removed : Nat, Database.Grows id db added removed db' ∧
    (ifDone outcome call.additions).encard = added ∧
    (stored ∩ ifDone outcome call.removals).encard = removed

/-- What is made of the outcome of a call does not matter to what is noticed of it. -/
theorem noted_of_map {program : IndexM α} {f : α → β}
    (h : ∀ {outcome db'}, program.run db = (outcome, db') → call.Noted id stored outcome db db')
    {outcome : Except IndexError β} (hrun : (f <$> program).run db = (outcome, db')) :
    call.Noted id stored outcome db db' := by
  rw [Program.run_map] at hrun
  obtain ⟨rfl, rfl⟩ := Prod.mk.inj hrun
  unfold Noted
  rw [ifDone_map, ifDone_map]
  exact h rfl

/-- What is noticed of an operation that is counted once it has gone through. -/
theorem noted_of_followed {program : IndexM α} {rest : α → IndexM β} {added removed : α → Nat}
    {outcome : Except IndexError β} (h : Unnoticed id program)
    (hrest : ∀ a, Notices id (added a) (removed a) (rest a))
    (hrun : (program >>= rest).run db = (outcome, db'))
    (hgiven : ∀ a db₁, program.run db = (.ok a, db₁) → call.additions.encard = added a ∧
      (stored ∩ call.removals).encard = removed a) : call.Noted id stored outcome db db' := by
  rcases h.followed hrest hrun with ⟨err, rfl, hgrows⟩ | ⟨a, db₁, b, hfirst, rfl, hgrows⟩
  · exact ⟨0, 0, hgrows, by simp [ifDone], by simp [ifDone]⟩
  · obtain ⟨hadded, hremoved⟩ := hgiven a db₁ hfirst
    exact ⟨added a, removed a, hgrows, hadded, hremoved⟩

end IndexCall

/-! ### Operations in a transaction of their own -/

theorem Index.permits_all (index : Index K V) (inv : Database → Prop) :
    index.Permits (fun _ _ => True) inv :=
  ⟨fun _ => trivial, fun _ => trivial, fun _ _ _ _ => trivial⟩

/-- What an operation does within its transaction is not noticed. -/
theorem unnoticed_within {id : MetricsId} {operation : TransactionId → IndexM α}
    (h : ∀ {inv : Database → Prop} tx, Lasting (fun _ _ => True) inv →
      Upholds inv (operation tx) fun _ => True) (ctx : Context) :
    Unnoticed id (IndexM.within ctx operation) := by
  intro added removed
  have hlasting := Database.lasting_noticed id added removed
  exact .within hlasting fun tx => h tx hlasting

/-- What is noticed of an operation in a transaction of its own, by what the operation tells of what it sees. -/
theorem IndexCall.noted_within {id : MetricsId} {call : IndexCall K V} {stored : Set (K × V)} {db db' : Database}
    {operation : TransactionId → IndexM α} {rest : α → IndexM β} {added removed : α → Nat}
    {outcome : Except IndexError β} {spaces : List Namespace} {told : α → Prop}
    (hupholds : ∀ {inv : Database → Prop} tx, Lasting (fun _ _ => True) inv →
      Upholds inv (operation tx) fun _ => True)
    (hacts : ∀ tx, Acts False spaces tx (db.engine.ledger.view none) (operation tx) fun _ a => told a)
    (hrest : ∀ a, Notices id (added a) (removed a) (rest a))
    (hrun : (IndexM.within none operation >>= rest).run db = (outcome, db'))
    (hgiven : ∀ a, told a → call.additions.encard = added a ∧
      (stored ∩ call.removals).encard = removed a) : call.Noted id stored outcome db db' := by
  refine noted_of_followed (unnoticed_within hupholds none) hrest hrun fun a db₁ hfirst => ?_
  obtain ⟨-, htold⟩ := IndexM.exists_post hacts (fun _ => IndexM.idle_pure _) hfirst
  exact hgiven a htold

/-- Whether a pair was there is told by the forward half, whatever is in the reverse half. -/
theorem TwoWayIndex.erase_tells [DecidableEq K] [DecidableEq V] {index : TwoWayIndex K V} (h : index.Sane)
    {f : Place → Option Bytes} {g : K × V → Option Unit} (hf : index.presentation.views f g)
    (id : TransactionId) (key : K) (value : V) :
    Acts False [index.forward.ns, index.reverse.ns] id f
      (do let removed ← index.forward.eraseWithin id key value
          let _ ← index.reverse.eraseWithin id value key
          pure removed) fun _ removed => removed = (g (key, value)).isSome := by
  refine .bind (Index.eraseWithin_acts h.forward hf.1 List.mem_cons_self nofun) ?_
  rintro c removed ⟨htold, hc⟩
  refine .bind (Index.eraseWithin_acts h.reverse (h.shows_reverse hc hf.2)
    (List.mem_cons_of_mem _ List.mem_cons_self) nofun) ?_
  rintro c' _ -
  exact .pure htold

namespace AnyIndex

open IndexM

variable {index : AnyIndex K V} {id : MetricsId} {key : K} {value : V} {db db' : Database}
  {g : K × V → Option Unit}

/-- What is read changes neither the pairs nor what was noticed of them. -/
theorem read_noted {stored : Set (K × V)} {call : IndexCall K V} (hreads : ¬call.Writes)
    {outcome : Except IndexError (IndexAnswer K V)} (hrun : (index.perform none call).run db = (outcome, db')) :
    call.Noted id stored outcome db db' := by
  have hlasting := Database.lasting_noticed id (db.counters id).added (db.counters id).removed
  have hkept := (index.perform_upholds_of_reads none hlasting hreads db ⟨rfl, rfl⟩).1
  rw [hrun] at hkept
  have hnone : call.additions = ∅ ∧ call.removals = ∅ := by
    cases call <;> first | exact ⟨rfl, rfl⟩ | exact absurd trivial hreads
  refine ⟨0, 0, hkept, ?_, ?_⟩
  · cases outcome <;> simp [ifDone, hnone.1]
  · cases outcome <;> simp [ifDone, hnone.2]

theorem add_noted (hmetrics : index.forward.options.metrics = some id) {stored : Set (K × V)}
    {outcome : Except IndexError Unit} (hrun : (index.add none key value).run db = (outcome, db')) :
    (IndexCall.add key value).Noted id stored outcome db db' := by
  have hgiven : (IndexCall.add key value).additions.encard = (1 : Nat) ∧
      (stored ∩ (IndexCall.add key value).removals).encard = (0 : Nat) :=
    ⟨Set.encard_singleton _, by simp [IndexCall.removals]⟩
  have hnotice : Notices id 1 0 (IndexM.observe index.forward.options.metrics Counters.countAdded) :=
    .observe hmetrics fun _ => ⟨rfl, rfl⟩
  cases index with
  | oneWay index =>
    have hunnoticed : Unnoticed id (IndexM.within none fun tx => index.insertWithin tx key value) :=
      unnoticed_within (fun tx h => index.insertWithin_upholds tx key value h (index.permits_all _)) none
    exact IndexCall.noted_of_followed hunnoticed (fun _ => hnotice) hrun fun _ _ _ => hgiven
  | twoWay index =>
    have hunnoticed : Unnoticed id (IndexM.within none fun tx => do
        index.forward.insertWithin tx key value
        index.reverse.insertWithin tx value key) :=
      unnoticed_within (fun tx h => index.insert_upholds tx key value h (index.forward.permits_all _)
        (index.reverse.permits_all _)) none
    exact IndexCall.noted_of_followed hunnoticed (fun _ => hnotice) hrun fun _ _ _ => hgiven

/-- A pair that is removed counts if it was there. -/
theorem noted_of_removed (key : K) (value : V) (g : K × V → Option Unit) :
    (IndexCall.remove key value).additions.encard = (0 : Nat) ∧
      ({kv | (g kv).isSome} ∩ (IndexCall.remove key value).removals).encard =
        (g (key, value)).isSome.toNat := by
  refine ⟨Set.encard_empty, ?_⟩
  show ({kv | (g kv).isSome} ∩ {(key, value)}).encard = _
  cases hthere : (g (key, value)).isSome with
  | true =>
    have hmem : (key, value) ∈ {kv | (g kv).isSome} := hthere
    rw [Set.inter_singleton_of_mem hmem, Set.encard_singleton, Bool.toNat_true, Nat.cast_one]
  | false =>
    have hnot : (key, value) ∉ {kv | (g kv).isSome} := by simp [hthere]
    rw [Set.inter_singleton_of_notMem hnot, Set.encard_empty, Bool.toNat_false, Nat.cast_zero]

/-- The pairs of a key that are removed count by their number. -/
theorem noted_of_removedAll {half : Index K V} {values : List V} (hvalues : half.ListsValues g key values) :
    (IndexCall.removeAll key : IndexCall K V).additions.encard = (0 : Nat) ∧
      ({kv | (g kv).isSome} ∩ (IndexCall.removeAll key : IndexCall K V).removals).encard = values.length := by
  refine ⟨Set.encard_empty, ?_⟩
  have hpairs : {kv | (g kv).isSome} ∩ (IndexCall.removeAll key : IndexCall K V).removals =
      (key, ·) '' {value | (g (key, value)).isSome} := by
    ext ⟨k, v⟩
    constructor
    · rintro ⟨hsome, rfl⟩
      exact ⟨v, hsome, rfl⟩
    · rintro ⟨v, hsome, hsame⟩
      cases hsame
      exact ⟨hsome, rfl⟩
  have hinjective : Function.Injective fun value : V => (key, value) := Prod.mk_right_injective key
  rw [hpairs, hinjective.encard_image]
  exact hvalues.encard_eq fun _ => Std.lt_irrefl

section Seen

variable (hsane : index.Sane) (hmetrics : index.forward.options.metrics = some id)
  (hviews : index.presentation.views (db.engine.ledger.view none) g)

include hsane hmetrics hviews

theorem remove_noted {outcome : Except IndexError Unit}
    (hrun : (index.remove none key value).run db = (outcome, db')) :
    (IndexCall.remove key value).Noted id {kv | (g kv).isSome} outcome db db' := by
  classical
  have hnotice (removed : Bool) : Notices id 0 removed.toNat
      (if removed then IndexM.observe index.forward.options.metrics (Counters.countRemoved 1) else pure ()) := by
    cases removed with
    | true => exact .observe hmetrics fun _ => ⟨rfl, rfl⟩
    | false => exact .nothing ()
  -- the counter is told of the one pair exactly if it was there
  have hgiven (removed : Bool) (htold : removed = (g (key, value)).isSome) :
      (IndexCall.remove key value).additions.encard = (0 : Nat) ∧
        ({kv | (g kv).isSome} ∩ (IndexCall.remove key value).removals).encard = removed.toNat :=
    htold ▸ noted_of_removed key value g
  cases index with
  | oneWay index =>
    have hacts (tx : TransactionId) :
        Acts False [index.ns] tx (db.engine.ledger.view none) (index.eraseWithin tx key value) fun _ removed =>
          removed = (g (key, value)).isSome :=
      (Index.eraseWithin_acts hsane hviews List.mem_cons_self nofun).mono fun _ _ h => h.1
    exact IndexCall.noted_within
      (fun tx h => index.eraseWithin_upholds tx key value h (index.permits_all _)) hacts hnotice hrun hgiven
  | twoWay index =>
    exact IndexCall.noted_within
      (fun tx h => index.erase_upholds tx key value h (index.forward.permits_all _)
        (index.reverse.permits_all _))
      (fun tx => TwoWayIndex.erase_tells hsane hviews tx key value) hnotice hrun hgiven

theorem removeAll_noted {outcome : Except IndexError Nat}
    (hrun : (index.removeAll none key).run db = (outcome, db')) :
    (IndexCall.removeAll key : IndexCall K V).Noted id {kv | (g kv).isSome} outcome db db' := by
  classical
  have hnotice (n : Nat) : Notices id 0 n
      (do IndexM.observe index.forward.options.metrics (Counters.countRemoved n); pure n) :=
    (Notices.observe hmetrics fun _ => ⟨rfl, rfl⟩).giving n
  have hgiven (n : Nat) (htold : ∃ values, index.forward.ListsValues g key values ∧ n = values.length) :
      (IndexCall.removeAll key : IndexCall K V).additions.encard = (0 : Nat) ∧
        ({kv | (g kv).isSome} ∩ (IndexCall.removeAll key : IndexCall K V).removals).encard = n := by
    obtain ⟨values, hvalues, rfl⟩ := htold
    exact noted_of_removedAll hvalues
  cases index with
  | oneWay index =>
    exact IndexCall.noted_within
      (fun tx h => .map (index.eraseAllWithin_upholds tx key h (index.permits_all _)))
      (fun tx => (Index.eraseAll_acts hsane hviews (List.mem_singleton_self _) nofun).mono fun _ _ h => h.2)
      hnotice hrun hgiven
  | twoWay index =>
    exact IndexCall.noted_within
      (fun tx h => index.eraseAll_upholds tx key h (index.forward.permits_all _) (index.reverse.permits_all _))
      (fun tx => (TwoWayIndex.eraseAll_acts hsane hviews List.mem_cons_self
        (List.mem_cons_of_mem _ (List.mem_singleton_self _)) nofun).mono fun _ _ h => h.2)
      hnotice hrun hgiven

/-- A call that auto-commits is noticed as it should be: nothing if it has failed, and else the pair that it has
added, or those pairs it has removed that were there. -/
theorem perform_noted (call : IndexCall K V) {outcome : Except IndexError (IndexAnswer K V)}
    (hrun : (index.perform none call).run db = (outcome, db')) :
    call.Noted id {kv | (g kv).isSome} outcome db db' := by
  by_cases hwrites : call.Writes
  · cases call with
    | add key value => exact IndexCall.noted_of_map (add_noted hmetrics) hrun
    | remove key value => exact IndexCall.noted_of_map (remove_noted hsane hmetrics hviews) hrun
    | removeAll key => exact IndexCall.noted_of_map (removeAll_noted hsane hmetrics hviews) hrun
    | _ => exact hwrites.elim
  · exact read_noted hwrites hrun

end Seen

end AnyIndex

end SecondaryIndex
