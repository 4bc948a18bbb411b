import SecondaryIndex.Proofs.Index.Untouched
import SecondaryIndex.Proofs.Parallel.FlushedRuns
import SecondaryIndex.Proofs.Parallel.Renumbered
import SecondaryIndex.Proofs.Parallel.Rewrites
import SecondaryIndex.Proofs.Session.Program

/-!
# Adding what is there and removing what is not

Neither of the two changes the pairs of an index, but only one of them is nothing for the store
(`Session.Faultless.noop_exact`). A removal looks for the pair before it writes. Where it finds none it
writes nothing, and no later reply tells that it was ever asked for. An addition does not look. It writes the
records of the pair anew, in a commit of its own: nobody sees anything else than before, but the memtable
counts and weighs the records once more, and a transaction that was open is refused from then on if it writes
one of them.
-/

namespace SecondaryIndex

/-- What every move keeps is kept by a run that sets no faults. -/
theorem Engine.Upholds.carryOut {invariant : Engine → Prop} (hup : Engine.Upholds invariant) {s : Session}
    (h : invariant s.database.engine) {steps : List Session.Step}
    (hfaults : ∀ step ∈ steps, step.isFault = false) :
    invariant (s.carryOut steps).2.database.engine := by
  induction steps generalizing s with
  | nil => exact h
  | cons step steps ih =>
    rw [Session.carryOut_cons]
    exact ih (hup.maintains.perform h (hfaults step List.mem_cons_self)) fun step hmem =>
      hfaults step (List.mem_cons_of_mem _ hmem)

namespace Session

open Program

variable {s : Session} {ix : Handle} {half? : Option Half} {held : IndexHandle} {keys values : ItemKind}
  {index : AnyIndex keys.Carrier values.Carrier} {keyText valueText : String} {key : keys.Carrier}
  {value : values.Carrier}

/-! ### Steps of an index that write one pair -/

/-- The index that a step is sent to, by a handle and perhaps a half of what it stands for. -/
def addressed (s : Session) (ix : Handle) (half? : Option Half) : Option IndexHandle :=
  (s.indexes.get? ix).bind fun held => half?.elim (some held) held.half?

/-- A step that auto-commits is sent to its index. -/
theorem run_performIndex (h : s.addressed ix half? = some held) (step : IndexStep) :
    (performIndex ix half? none step).run s = (performOnIndex held none step).run s := by
  obtain ⟨whole, hwhole, hpart⟩ := Option.bind_eq_some_iff.1 h
  unfold performIndex resolve
  rw [run_bind_ok (run_get s), hwhole]
  cases half? with
  | none =>
    obtain rfl := Option.some.inj hpart
    rfl
  | some half =>
    have hhalf : whole.half? half = some held := hpart
    show (pure whole >>= fun whole => _ : SessionM Answer).run s = _
    rw [pure_bind]
    dsimp only
    rw [hhalf]
    rfl

/-- A pair is read, and what is done with it is answered by success or failure. -/
theorem run_pair (hkey : keys.ofText? keyText = some key) (hvalue : values.ofText? valueText = some value)
    (program : keys.Carrier → values.Carrier → IndexM Unit) :
    (do let key ← readItem keys keyText
        let value ← readItem values valueText
        ofIndex (program key value)
        pure .done : SessionM Answer).run s =
      ((((program key value).run s.database).1.mapError .index).map fun _ => .done,
        { s with database := ((program key value).run s.database).2 }) := by
  have hreadKey := run_readItem keys keyText s
  have hreadValue := run_readItem values valueText s
  rw [itemOf, hkey] at hreadKey
  rw [itemOf, hvalue] at hreadValue
  rw [run_bind_ok hreadKey, run_bind_ok hreadValue]
  have hprogram : (ofIndex (program key value)).run s =
      (((program key value).run s.database).1.mapError .index,
        { s with database := ((program key value).run s.database).2 }) := rfl
  cases houtcome : ((program key value).run s.database).1 with
  | ok u =>
    rw [houtcome] at hprogram
    rw [run_bind_ok hprogram]
    rfl
  | error err =>
    rw [houtcome] at hprogram
    rw [run_bind_error hprogram]
    rfl

section Writing

variable (hindex : s.addressed ix half? = some ⟨keys, values, index⟩)
  (hkey : keys.ofText? keyText = some key) (hvalue : values.ofText? valueText = some value)

include hindex hkey hvalue

/-- An addition on its own changes the database alone, and answers that it is done. -/
theorem run_add :
    (perform (.index ix half? none (.add keyText valueText))).run s =
      ({ outcome := (((index.add none key value).run s.database).1.mapError .index).map fun _ => .done },
        { s with database := ((index.add none key value).run s.database).2 }) := by
  have hrun := (run_performIndex hindex (.add keyText valueText)).trans
    (run_pair hkey hvalue fun key value => index.add none key value)
  exact congrArg (fun r => (Reply.mk r.1 none, r.2)) hrun

/-- A removal of its own transaction answers by its outcome, and leaves its database. -/
theorem run_remove :
    (perform (.index ix half? none (.remove keyText valueText))).run s =
      ({ outcome := (((index.remove none key value).run s.database).1.mapError .index).map fun _ => .done },
        { s with database := ((index.remove none key value).run s.database).2 }) := by
  have hrun := (run_performIndex hindex (.remove keyText valueText)).trans
    (run_pair hkey hvalue fun key value => index.remove none key value)
  exact congrArg (fun r => (Reply.mk r.1 none, r.2)) hrun

/-- Removing a pair that is stored nowhere uses up a number, and that is all. -/
theorem run_remove_absent (h : s.Regular)
    (hspaces : ∀ ns ∈ index.namespaces, s.database.engine.store.hasNamespace ns = true)
    (habsent : ∀ x, index.StoredAt key value x → s.database.engine.store.read x = none) :
    ∃ outcome, (perform (.index ix half? none (.remove keyText valueText))).run s = ({ outcome }, s.numbered) ∧
      (outcome = .ok .done ↔ index.Encodes key value) := by
  obtain ⟨outcome, hremove, hok⟩ :=
    AnyIndex.remove_absent h.engine.sound ⟨h.engine.healthy, hspaces⟩ habsent
  refine ⟨(outcome.mapError .index).map fun _ => .done, ?_, ?_⟩
  · rw [run_remove hindex hkey hvalue, hremove]
    rfl
  · rw [← hok]
    cases outcome with
    | ok u => exact iff_of_true rfl rfl
    | error err => exact iff_of_false nofun nofun

/-- Adding a pair that is stored already writes its records anew. -/
theorem run_add_present (h : s.Regular) (hroomy : s.database.engine.store.Roomy)
    (hspaces : ∀ ns ∈ index.namespaces, s.database.engine.store.hasNamespace ns = true)
    (hencodes : index.Encodes key value)
    (hpresent : ∀ x, index.StoredAt key value x → s.database.engine.store.read x = some Index.emptyValue) :
    ∃ db, (perform (.index ix half? none (.add keyText valueText))).run s =
        ({ outcome := .ok .done }, { s with database := db }) ∧
      s.database.engine.Rewrites (index.StoredAt key value) db.engine ∧
      db.engine.Regular s.database.engine.nextTransaction := by
  have hsound := h.engine.sound
  obtain ⟨writes, hchanges, hadd⟩ := AnyIndex.run_add hsound ⟨h.engine.healthy, hspaces⟩ hencodes
  have hpersists := (AnyIndex.add_atomic index none key value s.database hsound).persists
  refine ⟨((index.add none key value).run s.database).2, ?_, ?_, hpersists.sound hsound,
    hpersists.healthy h.engine.healthy, ?_⟩
  · rw [run_add hindex hkey hvalue, hadd]
    rfl
  · rw [hadd, AnyIndex.engine_observe]
    exact Engine.Sound.rewrites_recorded hchanges hpresent hsound hroomy
  · rw [hadd, AnyIndex.engine_observe]
    exact Nat.le_succ _

end Writing

/-! ### No-ops in any session -/

/-- A session that steps lead to of which none sets a fault. -/
def Faultless (s : Session) : Prop :=
  ∃ options steps, (∀ step ∈ steps, step.isFault = false) ∧ s = after options steps

theorem Faultless.regular (h : s.Faultless) : s.Regular := by
  obtain ⟨options, steps, hfaults, rfl⟩ := h
  exact (regular_ofOptions options).carryOut hfaults

/-- No memtable is full. -/
theorem Faultless.roomy (h : s.Faultless) : s.database.engine.store.Roomy := by
  obtain ⟨options, steps, -, rfl⟩ := h
  exact (coincides_after options steps).stores.roomy

/-- A removal of a pair that is absent is a no-op, to the last reply; it succeeds if the pair is short enough
to be stored. An addition of a pair that is present succeeds and leaves all that is seen as it is, but it is a
commit: the records of the pair move into the memtable, and each transaction that was open is refused, now
and whenever it is committed, if it writes one of them, and otherwise only if it was refused before. -/
theorem Faultless.noop_exact (h : s.Faultless) (hindex : s.addressed ix half? = some ⟨keys, values, index⟩)
    (hspaces : ∀ ns ∈ index.namespaces, s.database.engine.store.hasNamespace ns = true)
    (hkey : keys.ofText? keyText = some key) (hvalue : values.ofText? valueText = some value) :
    ((∀ x, index.StoredAt key value x → s.database.engine.store.read x = none) →
      ∃ outcome s', (perform (.index ix half? none (.remove keyText valueText))).run s = ({ outcome }, s') ∧
        (outcome = .ok .done ↔ index.Encodes key value) ∧
        ∀ later, (s'.carryOut later).1.map Reply.told = (s.carryOut later).1.map Reply.told) ∧
    (index.Encodes key value →
      (∀ x, index.StoredAt key value x → s.database.engine.store.read x = some Index.emptyValue) →
      ∃ s', (perform (.index ix half? none (.add keyText valueText))).run s = ({ outcome := .ok .done }, s') ∧
        s.database.engine.Rewrites (index.StoredAt key value) s'.database.engine ∧
        ∀ id tx, s.database.engine.HasOpen id tx →
          (s'.database.engine.Refuses id ↔ s.database.engine.Refuses id ∨
            ∃ x, tx.changes x ≠ none ∧ index.StoredAt key value x) ∧
          (¬ s'.database.engine.Refuses id → ((Engine.commit id).run s'.database.engine).1 = .ok ()) ∧
          ∀ later, (∀ step ∈ later, step.isFault = false) →
            ∀ tx', (s'.carryOut later).2.database.engine.HasOpen id tx' →
              (∃ x, tx'.changes x ≠ none ∧ index.StoredAt key value x) →
              (s'.carryOut later).2.database.engine.Refuses id) := by
  have hregular := h.regular
  refine ⟨fun habsent => ?_, fun hencodes hpresent => ?_⟩
  · obtain ⟨outcome, hremove, hok⟩ := run_remove_absent hindex hkey hvalue hregular hspaces habsent
    exact ⟨outcome, s.numbered, hremove, hok, replies_numbered hregular⟩
  · obtain ⟨db, hadd, hrewrites, hregular'⟩ :=
      run_add_present hindex hkey hvalue hregular h.roomy hspaces hencodes hpresent
    refine ⟨{ s with database := db }, hadd, hrewrites, fun id tx hopen => ?_⟩
    have hopen' : db.engine.HasOpen id tx := by
      unfold Engine.HasOpen
      rw [hrewrites.transactions]
      exact hopen
    refine ⟨?_, hregular'.sound.commit_eq_ok hregular'.healthy hopen', fun later hlater tx' htx' hblocked => ?_⟩
    · exact hrewrites.refuses_iff hregular.engine.sound hregular'.sound hregular.engine.healthy
        hregular'.healthy hopen
    · obtain ⟨x, hx, hstored⟩ := hblocked
      -- the pair counts as written as long as the transaction is open
      have hspoils : Engine.Spoils id x db.engine := by
        refine ⟨⟨hregular'.sound, hregular'.healthy, hregular'.sound.lt_nextTransaction hopen'⟩,
          fun t ht => ?_⟩
        obtain rfl : tx = t := Option.some.inj (hopen'.1.symm.trans ht.1)
        exact (hrewrites.writtenAfter id tx hopen x).2 (.inl hstored)
      exact ((Engine.upholds_spoils id x).carryOut hspoils hlater).refuses htx' hx

/-! ### A pair that is removed and added at once -/

/-- An index of words. -/
def pairs : Index ItemKind.unsigned.Carrier ItemKind.unsigned.Carrier :=
  Index.create "pairs" "f" ItemKind.unsigned.codec ItemKind.unsigned.codec {}

def pairsSpec : IndexSpec where
  name := "pairs"
  ns := "f"
  reverseNs := none
  keys := .unsigned
  values := .unsigned
  options := {}
  counted := false

/-- A pair was added and flushed, and a transaction has removed it that is still open. -/
def standing : List Step :=
  [.store (.createNamespace "f"), .store (.index "i" pairsSpec), .index "i" none none (.add "1" "10"),
    .store (.flush "f"), .store (.begin "t"), .index "i" none (some "t") (.remove "1" "10"),
    .store (.index "j" pairsSpec)]

/-- The session, in a store that is never flushed by itself. -/
def stood : Session := after { memtableCapacity := 0 } standing

theorem addressed_stood : stood.addressed "j" none = some ⟨.unsigned, .unsigned, .oneWay pairs⟩ := by
  have hsplit : standing = standing.dropLast ++ [.store (.index "j" pairsSpec)] := rfl
  have hindexes : stood.indexes =
      (after { memtableCapacity := 0 } standing.dropLast).indexes.insert "j"
        ⟨.unsigned, .unsigned, .oneWay pairs⟩ := by
    rw [stood, hsplit, after, carryOut_append]
    rfl
  unfold addressed
  rw [hindexes, SortedMap.get?_insert, if_pos rfl]
  rfl

/-- Where a pair of small words is stored. -/
def placeOf (key value : UInt8) : Place :=
  ("f", [8, 0, 0, 0, 0, 0, 0, 0, key, 0, 0, 0, 0, 0, 0, 0, value])

theorem storedAt_one (x : Place) :
    (AnyIndex.oneWay pairs).StoredAt (1 : UInt64) (10 : UInt64) x ↔ x = placeOf 1 10 :=
  Index.storedAt_iff (by decide +kernel) x

theorem storedAt_two (x : Place) :
    (AnyIndex.oneWay pairs).StoredAt (2 : UInt64) (20 : UInt64) x ↔ x = placeOf 2 20 :=
  Index.storedAt_iff (by decide +kernel) x

/-- The pair is there, though a transaction has removed it. -/
theorem present_stood (x : Place) (hx : (AnyIndex.oneWay pairs).StoredAt (1 : UInt64) (10 : UInt64) x) :
    stood.database.engine.store.read x = some Index.emptyValue := by
  rw [(storedAt_one x).1 hx]
  decide +kernel

/-- The pair that is removed in the example was not there. -/
theorem absent_stood (x : Place) (hx : (AnyIndex.oneWay pairs).StoredAt (2 : UInt64) (20 : UInt64) x) :
    stood.database.engine.store.read x = none := by
  rw [(storedAt_two x).1 hx]
  decide +kernel

/-- In one session a pair that is absent is removed, and one that is present is added, for which the open
transaction is refused. -/
theorem noop_exact_of_standing :
    (∃ s', (perform (.index "j" none none (.remove "2" "20"))).run stood = ({ outcome := .ok .done }, s') ∧
      ∀ later, (s'.carryOut later).1.map Reply.told = (stood.carryOut later).1.map Reply.told) ∧
    ∃ s', (perform (.index "j" none none (.add "1" "10"))).run stood = ({ outcome := .ok .done }, s') ∧
      stood.database.engine.Rewrites (· = placeOf 1 10) s'.database.engine ∧ s'.database.engine.Refuses 1 := by
  have hfaultless : stood.Faultless := ⟨_, standing, by decide +kernel, rfl⟩
  have hspaces : ∀ ns ∈ (AnyIndex.oneWay pairs).namespaces,
      stood.database.engine.store.hasNamespace ns = true := by decide +kernel
  have hone : (AnyIndex.oneWay pairs).StoredAt (1 : UInt64) (10 : UInt64) = (· = placeOf 1 10) :=
    funext fun x => propext (storedAt_one x)
  -- the transaction that is open has written the place of the pair
  have hwrites : (stood.database.engine.transactions.get? 1).any (fun tx =>
      !tx.finished && (tx.changes (placeOf 1 10)).isSome) = true := by decide +kernel
  obtain ⟨tx, htx, hboth⟩ := (Option.any_eq_true _ _).1 hwrites
  obtain ⟨hunfinished, hwritten⟩ := Bool.and_eq_true_iff.1 hboth
  have hopen : stood.database.engine.HasOpen 1 tx := ⟨htx, by simpa using hunfinished⟩
  constructor
  · have hkey : ItemKind.unsigned.ofText? "2" = some (2 : UInt64) := by decide +kernel
    have hvalue : ItemKind.unsigned.ofText? "20" = some (20 : UInt64) := by decide +kernel
    obtain ⟨habsent, -⟩ := hfaultless.noop_exact addressed_stood hspaces hkey hvalue
    obtain ⟨outcome, s', hremove, hok, hlater⟩ := habsent absent_stood
    rw [hok.2 ⟨_, ((storedAt_two _).2 rfl).2⟩] at hremove
    exact ⟨s', hremove, hlater⟩
  · have hkey : ItemKind.unsigned.ofText? "1" = some (1 : UInt64) := by decide +kernel
    have hvalue : ItemKind.unsigned.ofText? "10" = some (10 : UInt64) := by decide +kernel
    obtain ⟨-, hpresent⟩ := hfaultless.noop_exact addressed_stood hspaces hkey hvalue
    obtain ⟨s', hadd, hrewrites, hcommits⟩ := hpresent ⟨_, ((storedAt_one _).2 rfl).2⟩ present_stood
    refine ⟨s', hadd, hone ▸ hrewrites, ((hcommits 1 tx hopen).1).2 (.inr ?_)⟩
    exact ⟨placeOf 1 10, Option.isSome_iff_ne_none.1 hwritten, (storedAt_one _).2 rfl⟩

/-- How many records a reply has counted. -/
def Reply.tallied (reply : Reply) : Nat :=
  match reply.outcome with
  | .ok (.memtable tally) => tally.count
  | _ => 0

/-- The addition of a pair that is present is told by the tally of the memtable, and by the commit of the
transaction that has removed the pair. -/
theorem readding_is_told :
    (∀ x, (AnyIndex.oneWay pairs).StoredAt (1 : UInt64) (10 : UInt64) x →
      stood.database.engine.store.read x = some Index.emptyValue) ∧
    ∃ reply s', (perform (.index "j" none none (.add "1" "10"))).run stood = (reply, s') ∧
      reply.outcome.isOk = true ∧
      (s'.carryOut [.store (.recentTally "f" .all)]).1.map Reply.told ≠
        (stood.carryOut [.store (.recentTally "f" .all)]).1.map Reply.told ∧
      (s'.carryOut [.store (.commit "t" false)]).1.map Reply.told ≠
        (stood.carryOut [.store (.commit "t" false)]).1.map Reply.told := by
  refine ⟨present_stood, _, _, Prod.eta _ |>.symm, by decide +kernel, fun hsame => ?_, fun hsame => ?_⟩
  · have htallied := congrArg (List.map Reply.tallied) hsame
    revert htallied
    decide +kernel
  · have hok := congrArg (List.map fun reply => reply.outcome.isOk) hsame
    revert hok
    decide +kernel

end Session

end SecondaryIndex
