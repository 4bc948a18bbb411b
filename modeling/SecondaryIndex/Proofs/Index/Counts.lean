import Mathlib.Data.Set.Card
import SecondaryIndex.Proofs.Index.Mirror
import SecondaryIndex.Proofs.Index.Walks
import SecondaryIndex.Proofs.Session.Program

/-!
# What counts tell

A question about the size of an index asks for the number of the members of a set, which is read off the pairs
that a context sees (`Question.number`). A count that is not an estimate answers it: whenever it is computed,
and whatever faults there are, a number that it gives is that number (`Database.Reaches.counts_exact`). Where
no fault is in the way, it gives one.

Three of the questions scan all of the forward half, entry by entry or group by group, and one scans the range
of a key. The keys of a value are counted in the reverse half, but are meant as those whose forward entry is
there. The two agree where the halves mirror each other, hence wherever no transaction is concerned that has
seen a call on the index fail. A transaction that goes on after a failure may hold one half of a pair, and it
is for its owner to commit it or not.

Asking for a count runs nothing. A session in which a count is asked for and not computed is left as it was
(`Session.asks_statistics`).
-/

namespace SecondaryIndex

variable {K V : Type}

/-! ### Numbers of members -/

/-- A list of the members of a set has as many of them as the set. -/
theorem Lists.encard_eq {β : Type} {before : β → β → Prop} {S : β → Prop} {l : List β}
    (h : Lists before S l) (hirrefl : ∀ x, ¬ before x x) : {x | S x}.encard = l.length := by
  classical
  have hnodup : l.Nodup := by
    refine h.sorted.imp fun {a b} hab => ?_
    rintro rfl
    exact hirrefl a hab
  have hset : {x | S x} = l.toFinset := by
    ext x
    simp [← h.mem_iff]
  calc {x | S x}.encard
      = (l.toFinset.card : ℕ∞) := by rw [hset, Set.encard_coe_eq_coe_finsetCard]
    _ = l.length := by rw [List.toFinset_card_of_nodup hnodup]

/-- The number that a question asks for, of what a view stores in the forward half. -/
noncomputable def Question.number (index : Index K V) (view : Place → Option Bytes) :
    Question K V → ℕ∞
  | entries => {kv : K × V | index.Stores view kv.1 kv.2}.encard
  | keys => {key | ∃ value, index.Stores view key value}.encard
  | valuesOfKey key => {value | index.Stores view key value}.encard
  | values => {kv : K × V | index.Stores view kv.1 kv.2}.encard
  | keysWithValue value => {key | index.Stores view key value}.encard

/-- A program that is run in a context of a database gives a number, unless something is in the way. -/
structure Tells (live : Prop) (spaces : List Namespace) (ctx : Context) (db : Database)
    (program : IndexM Nat) (number : ℕ∞) : Prop where
  exact : ∀ {n db'}, program.run db = (.ok n, db') → number = n
  total : live → db.engine.ledger.Usable ctx → db.engine.Ready spaces →
    ∃ n, (program.run db).1 = .ok n

/-! ### Counting what a cursor yields -/

namespace Index

open Program IndexM

variable {index : Index K V} {ctx : Context} {db : Database} {live : Prop} {spaces : List Namespace}
  {number : ℕ∞} {key : K}

/-- A cursor is opened on what its context sees, and counting it tells how much it yields. -/
theorem tells_openCursor {α : Type} {range : Range} {decode : Bytes → Except EncodingError α}
    {seeking : Seeking α} {stride : Stride} (hsound : db.engine.Sound) (hns : index.ns ∈ spaces)
    (hopened : ∀ cursor,
      index.Opened (db.engine.ledger.view ctx) range decode seeking stride cursor →
      ∃ items, cursor.Yields items ∧ number = items.length) :
    Tells live spaces ctx db (index.openCursor ctx range decode seeking stride >>= Cursor.count)
      number where
  exact {n db'} hrun := by
    rcases hopen : (index.openCursor ctx range decode seeking stride).run db with ⟨err | cursor, db₁⟩
    · rw [run_bind_error hopen] at hrun
      cases hrun
    · rw [run_bind_ok hopen] at hrun
      obtain ⟨items, hyields, hnumber⟩ := hopened cursor (opened_of_openCursor hopen)
      -- that the drain went through means that it gave what the cursor yields
      rw [Cursor.count_eq] at hrun
      obtain ⟨items', hcollect, rfl⟩ := of_run_map hrun
      rw [hyields.eq_of_collect hcollect]
      exact hnumber
  total hlive husable hready := by
    have hsettles : Settles live spaces ctx (db.engine.ledger.view ctx)
        (index.openCursor ctx range decode seeking stride >>= Cursor.count) (· = .nothing)
        (Gives fun _ => True) := by
      refine .asked (openCursor_settles hns range decode seeking stride) count_idle ?_
      intro cursor db' hcursor hhealthy
      obtain ⟨items, hyields, -⟩ := hopened cursor hcursor
      exact ⟨_, count_of_yields hyields hhealthy, trivial⟩
    obtain ⟨n, hn, -⟩ := (hsettles db hsound fun _ => rfl).live hlive husable hready
    exact ⟨n, hn⟩

variable (hinv : index.codec.Inverts) (honly : index.OnlyEntries (db.engine.ledger.view ctx))
  (hsound : db.engine.Sound) (hns : index.ns ∈ spaces)

include hinv honly hsound hns

theorem tells_count : Tells live spaces ctx db (index.count ctx)
    (Question.entries.number index (db.engine.ledger.view ctx)) := by
  refine tells_openCursor hsound hns fun cursor hopened => ?_
  obtain ⟨pairs, hpairs, hfollows⟩ := hopened.follows_keys honly hinv
  refine ⟨_, hfollows.yields, ?_⟩
  calc Question.entries.number index (db.engine.ledger.view ctx)
      = pairs.length := hpairs.encard_eq EntryCodec.not_before_self
    _ = (pairs.map Prod.fst).length := by rw [List.length_map]

theorem tells_scanValues : Tells live spaces ctx db (index.scanValues ctx >>= Cursor.count)
    (Question.values.number index (db.engine.ledger.view ctx)) := by
  refine tells_openCursor hsound hns fun cursor hopened => ?_
  obtain ⟨pairs, hpairs, hfollows⟩ := hopened.follows_scan honly hinv
  refine ⟨_, hfollows.yields, ?_⟩
  calc Question.values.number index (db.engine.ledger.view ctx)
      = pairs.length := hpairs.encard_eq EntryCodec.not_before_self
    _ = (pairs.map Prod.snd).length := by rw [List.length_map]

theorem tells_scanDistinctKeys :
    Tells live spaces ctx db (index.scanDistinctKeys ctx >>= Cursor.count)
      (Question.keys.number index (db.engine.ledger.view ctx)) := by
  refine tells_openCursor hsound hns fun cursor hopened => ?_
  obtain ⟨keys, number, hkeys, hfollows⟩ := hopened.follows_groups honly hinv.1
  exact ⟨_, hfollows.yields, hkeys.encard_eq fun _ => EntryCodec.not_keyBefore_self⟩

theorem tells_find : Tells (index.codec.Fits key) spaces ctx db (index.find ctx key >>= Cursor.count)
    ((Question.valuesOfKey key).number index (db.engine.ledger.view ctx)) := by
  have hrange := run_keyRange index key db
  cases hspan : index.codec.span key with
  | error err =>
    -- a key that does not fit is not looked up
    rw [hspan] at hrange
    have hrun : (index.find ctx key >>= Cursor.count).run db = (.error (.encoding err), db) := by
      have hfind : (index.find ctx key).run db = (.error (.encoding err), db) := run_bind_error hrange
      rw [run_bind_error hfind]
    refine ⟨fun hok => ?_, fun hfits => ?_⟩
    · rw [hrun] at hok
      cases hok
    · obtain ⟨lower, upper, hsome⟩ := EntryCodec.exists_span hfits
      rw [hspan] at hsome
      cases hsome
  | ok span =>
    rw [hspan] at hrange
    have hrun : (index.find ctx key >>= Cursor.count).run db =
        (index.openCursor ctx ⟨.included span.1, span.2⟩ index.codec.readValue
          (.exact (index.codec.encode key)) .entry >>= Cursor.count).run db := by
      unfold find
      rw [run_bind, run_bind_ok hrange, run_bind]
    have htells : Tells (index.codec.Fits key) spaces ctx db
        (index.openCursor ctx ⟨.included span.1, span.2⟩ index.codec.readValue
          (.exact (index.codec.encode key)) .entry >>= Cursor.count)
        ((Question.valuesOfKey key).number index (db.engine.ledger.view ctx)) := by
      refine tells_openCursor hsound hns fun cursor hopened => ?_
      obtain ⟨values, hvalues, hfollows⟩ := hopened.follows_values honly hinv hspan
      exact ⟨_, hfollows.yields, hvalues.encard_eq fun _ => Std.lt_irrefl⟩
    exact ⟨fun hok => htells.exact (hrun ▸ hok), fun hl hu hr => hrun ▸ htells.total hl hu hr⟩

end Index

/-! ### Answering exactly -/

/-- Whether what a question mentions is short enough to be looked up. -/
def AnyIndex.LooksUp (index : AnyIndex K V) : Question K V → Prop
  | .valuesOfKey key => index.forward.codec.Fits key
  | .keysWithValue value => index.FitsReverse value
  | _ => True

namespace Statistics

variable {stats : Statistics K V} {question : Question K V} {budget : Budget} {estimateOk : Bool}
  {count : Count}

/-- The program that answers a question exactly, if there is one. -/
def exactly? (stats : Statistics K V) : Question K V → Option (IndexM Nat)
  | .entries => some (stats.forward.count stats.ctx)
  | .keys => some (stats.forward.scanDistinctKeys stats.ctx >>= Cursor.count)
  | .valuesOfKey key => some (stats.forward.countKey stats.ctx key)
  | .values => some (stats.forward.scanValues stats.ctx >>= Cursor.count)
  | .keysWithValue value => stats.reverse?.map fun reverse => reverse.find stats.ctx value >>= Cursor.count

theorem scanning_eq_some {value : IndexM Nat} (h : scanning budget value = some count) :
    count = .exact value := by
  unfold scanning at h
  split at h
  · exact (Option.some.inj h).symm
  · cases h

/-- What can be estimated is counted, or it is estimated and marked as such. -/
theorem estimable_cases {value estimate : IndexM Nat}
    (h : estimable budget estimateOk value estimate = some count) :
    count = .exact value ∨ count = .estimated estimate := by
  unfold estimable at h
  split at h
  · exact .inl (Option.some.inj h).symm
  · split at h
    · exact .inr (Option.some.inj h).symm
    · cases h

/-- A question is answered exactly, or the entries of an index or of a key are estimated. -/
theorem count?_cases (h : stats.count? budget estimateOk question = some count) :
    stats.exactly? question = some count.value ∨
      (question = .entries ∧ count = .estimated stats.forward.estimateSize) ∨
      ∃ key, question = .valuesOfKey key ∧ count = .estimated (stats.forward.estimateKey key) := by
  cases question with
  | entries =>
    rcases estimable_cases h with rfl | hestimate
    · exact .inl rfl
    · exact .inr (.inl ⟨rfl, hestimate⟩)
  | keys =>
    obtain rfl := scanning_eq_some h
    exact .inl rfl
  | valuesOfKey key =>
    rcases estimable_cases h with rfl | hestimate
    · exact .inl rfl
    · exact .inr (.inr ⟨key, rfl, hestimate⟩)
  | values =>
    obtain rfl := scanning_eq_some h
    exact .inl rfl
  | keysWithValue value =>
    replace h : (if budget.allowsScan || estimateOk then
        stats.reverse?.map fun reverse => Count.exact (reverse.find stats.ctx value >>= Cursor.count)
      else none) = some count := h
    split at h
    · obtain ⟨reverse, hsome, rfl⟩ := Option.map_eq_some_iff.1 h
      left
      show stats.reverse?.map _ = _
      rw [hsome]
      rfl
    · cases h

/-- A count that is not an estimate answers exactly. -/
theorem exactly?_of_count? (h : stats.count? budget estimateOk question = some count)
    (hexact : count.isEstimate = false) : stats.exactly? question = some count.value := by
  rcases count?_cases h with hgiven | ⟨-, rfl⟩ | ⟨key, -, rfl⟩
  · exact hgiven
  · cases hexact
  · cases hexact

/-- A budget that allows no scan leaves nothing to who accepts no estimate. -/
theorem count?_eq_none (hbudget : budget.allowsScan = false) (question : Question K V) :
    stats.count? budget false question = none := by
  have hestimable (value estimate : IndexM Nat) : estimable budget false value estimate = none := by
    unfold estimable
    rw [hbudget]
    rfl
  have hscanning (value : IndexM Nat) : scanning budget value = none := by
    unfold scanning
    rw [hbudget]
    rfl
  cases question with
  | entries => exact hestimable _ _
  | keys => exact hscanning _
  | valuesOfKey key => exact hestimable _ _
  | values => exact hscanning _
  | keysWithValue value =>
    show (if budget.allowsScan || false then _ else none) = none
    rw [hbudget]
    rfl

theorem keysWithValue_eq_none_iff (value : V) :
    stats.keysWithValue value budget estimateOk = none ↔
      stats.reverse? = none ∨ budget.allowsScan = false ∧ estimateOk = false := by
  unfold keysWithValue
  cases budget.allowsScan <;> cases estimateOk <;> simp

end Statistics

namespace AnyIndex

variable {index : AnyIndex K V} {ctx : Context} {db : Database} {question : Question K V}

/-- The questions of an index are answered from the pairs that its context sees. A pair is looked for in the
reverse half only if it is asked for by its value. -/
theorem tells (hsane : index.Sane) (hsound : db.engine.Sound)
    (hforward : index.forward.OnlyEntries (db.engine.ledger.view ctx))
    (hreverse : ∀ reverse, index.reverse? = some reverse →
      reverse.OnlyEntries (db.engine.ledger.view ctx))
    (hmirror : ∀ value reverse, question = .keysWithValue value → index.reverse? = some reverse →
      ∀ key, index.forward.Stores (db.engine.ledger.view ctx) key value ↔
        reverse.Stores (db.engine.ledger.view ctx) value key)
    {program : IndexM Nat} (h : (index.statistics ctx).exactly? question = some program) :
    Tells (index.LooksUp question) index.namespaces ctx db program
      (question.number index.forward (db.engine.ledger.view ctx)) := by
  have hinv := hsane.forward
  have hns := index.forward_mem
  cases question with
  | entries =>
    cases h
    exact Index.tells_count hinv hforward hsound hns
  | keys =>
    cases h
    exact Index.tells_scanDistinctKeys hinv hforward hsound hns
  | valuesOfKey key =>
    cases h
    exact Index.tells_find hinv hforward hsound hns
  | values =>
    cases h
    exact Index.tells_scanValues hinv hforward hsound hns
  | keysWithValue value =>
    cases index with
    | oneWay index => cases h
    | twoWay index =>
      cases h
      have hinv' : index.reverse.codec.Inverts := TwoWayIndex.Sane.reverse hsane
      have hns' : index.reverse.ns ∈ (twoWay index).namespaces :=
        List.mem_cons_of_mem _ List.mem_cons_self
      -- what is counted is found in the reverse half, and is to be a number of the forward half
      have htells : Tells (index.reverse.codec.Fits value) (twoWay index).namespaces ctx db
          (index.reverse.find ctx value >>= Cursor.count)
          ((Question.valuesOfKey value).number index.reverse (db.engine.ledger.view ctx)) :=
        Index.tells_find hinv' (hreverse _ rfl) hsound hns'
      have hnumber : (Question.keysWithValue value).number index.forward (db.engine.ledger.view ctx) =
          (Question.valuesOfKey value).number index.reverse (db.engine.ledger.view ctx) :=
        congrArg Set.encard (Set.ext (hmirror value _ rfl rfl))
      show Tells _ _ _ _ _ ((Question.keysWithValue value).number index.forward _)
      rw [hnumber]
      exact ⟨htells.exact, fun hfits => htells.total (hfits _ rfl)⟩

end AnyIndex

/-! ### Along a run -/

section Runs

variable {index : AnyIndex K V} {options : StoreOptions} {history : DatabaseHistory K V}
  {db : Database} {ctx : Context}

/-- A run of a database with an index leaves the namespaces of the index to the index. -/
theorem Database.Reaches.runs (reached : Database.Reaches index options history db) :
    Database.Runs (Action.Respects index) (.ofOptions options) db := by
  induction reached with
  | start => exact .refl
  | store reached call elsewhere ih =>
    refine ih.step (.store call) (.elsewhere _ fun ns hns => ?_)
    exact elsewhere ns (Option.mem_toList.1 hns)
  | index reached ctx call ih =>
    have hcalled := ih.step (.index index ctx (.call call)) (.own ctx (.call call))
    rw [Action.run, AnyIndex.operate, Program.run_map] at hcalled
    exact hcalled
  | drain reached cursor ih => exact ih.step (.collect cursor) (.elsewhere _ fun _ hns => absurd hns List.not_mem_nil)
  | faults reached plan ih => exact ih.step (.faults plan) (.elsewhere _ fun _ hns => absurd hns List.not_mem_nil)

/-- Where no failed call has left writes in what a context sees, a pair is stored in both halves or in none. -/
theorem Database.Reaches.stores_iff (hsane : index.Sane)
    (reached : Database.Reaches index options history db) (hclean : history.Clean)
    (htrusted : ∀ id, ctx = some id → ¬ history.Tainted id) {reverse : Index V K}
    (hreverse : index.reverse? = some reverse) (key : K) (value : V) :
    index.forward.Stores (db.engine.ledger.view ctx) key value ↔
      reverse.Stores (db.engine.ledger.view ctx) value key := by
  classical
  have hviews := (reached.presents hsane hclean).holds.view htrusted
  cases index with
  | oneWay index => cases hreverse
  | twoWay index =>
    cases hreverse
    exact (TwoWayIndex.mirrored_of_views hsane hviews).stored_iff key value

/-- A count that is not an estimate is exact, and asking for it costs nothing. Asking leaves a session as it
was, and tells nothing at all where the budget allows no scan and no estimate is accepted. Wherever a run has
led, and whatever its counters have noticed, a count that is computed then gives the number of the members
of what its context sees then, or fails because something is in the way. The keys of a value are counted
right unless a transaction was committed in which a call had failed when it had written something, or the one of the
context is such a transaction. -/
theorem Database.Reaches.counts_exact (hsane : index.Sane)
    (reached : Database.Reaches index options history db) (ctx : Context) (question : Question K V)
    (budget : Budget) (estimateOk : Bool)
    (htrusted : ∀ value, question = .keysWithValue value →
      history.Clean ∧ ∀ id, ctx = some id → ¬ history.Tainted id) :
    (∀ ix half? tx? query, Session.Asks
      (Session.performIndex ix half? tx? (.statistics query budget estimateOk [] false))) ∧
    (budget.allowsScan = false → estimateOk = false →
      (index.statistics ctx).count? budget estimateOk question = none) ∧
    (∀ value, question = .keysWithValue value →
      ((index.statistics ctx).count? budget estimateOk question = none ↔
        index.reverse? = none ∨ budget.allowsScan = false ∧ estimateOk = false)) ∧
    ∀ count, (index.statistics ctx).count? budget estimateOk question = some count →
      count.isEstimate = false → ∀ metrics,
        Tells (index.LooksUp question) index.namespaces ctx { db with metrics } count.value
          (question.number index.forward (db.engine.ledger.view ctx)) := by
  refine ⟨fun ix half? tx? query => .statistics ix half? tx? query budget estimateOk, ?_, ?_, ?_⟩
  · rintro hbudget rfl
    exact Statistics.count?_eq_none hbudget question
  · rintro value rfl
    exact Statistics.keysWithValue_eq_none_iff value
  · intro count hcount hexact metrics
    obtain ⟨hforward, hreverse⟩ :=
      hsane.onlyEntries (f := db.engine.ledger.view ctx) fun hx => reached.runs.within.view hx
    have hsound : db.engine.Sound := reached.runs.sound (Engine.sound_ofOptions options)
    have hmirror (value : V) (reverse : Index V K) (hasked : question = .keysWithValue value)
        (hsome : index.reverse? = some reverse) (key : K) :
        index.forward.Stores (db.engine.ledger.view ctx) key value ↔
          reverse.Stores (db.engine.ledger.view ctx) value key := by
      obtain ⟨hclean, hcontext⟩ := htrusted value hasked
      exact reached.stores_iff hsane hclean hcontext hsome key value
    -- only the engine decides what a count gives
    have hsound' : ({ db with metrics } : Database).engine.Sound := hsound
    exact AnyIndex.tells hsane hsound' hforward hreverse hmirror
      (Statistics.exactly?_of_count? hcount hexact)

end Runs

/-- A call on the index has failed. -/
def DatabaseEvent.hasFailed : DatabaseEvent K V → Bool
  | .index _ _ (.error _) _ => true
  | _ => false

/-- The keys of a value are counted in an open transaction that has added one of them, while another one has
been committed. In both transactions a look-up has failed, which has left nothing. -/
theorem counts_exact_in_open_transaction :
    ∃ history db count n,
      Database.Reaches (.twoWay (.create "pairs" "forward" "reverse" .unsigned .unsigned {})) {}
        history db ∧
      history.Clean ∧ ¬ history.Tainted 1 ∧
      history.countP DatabaseEvent.hasFailed = 2 ∧
      ((AnyIndex.twoWay
        (.create "pairs" "forward" "reverse" .unsigned .unsigned {})).statistics (some 1)).count?
          (.limited 5) true (.keysWithValue 10) = some count ∧
      count.isEstimate = false ∧ (count.value.run db).1 = .ok n ∧
      (Question.keysWithValue (10 : UInt64)).number
        (Index.create "pairs" "forward" .unsigned .unsigned {} : Index UInt64 UInt64)
        (db.engine.ledger.view (some 1)) = n := by
  let index : AnyIndex UInt64 UInt64 :=
    .twoWay (.create "pairs" "forward" "reverse" .unsigned .unsigned {})
  obtain ⟨history, db, reached, hclean, htrusted, hfailed, hpending, hready⟩ : ∃ history db,
      Database.Reaches index {} history db ∧ history.Clean ∧ ¬ history.Tainted 1 ∧
      history.countP DatabaseEvent.hasFailed = 2 ∧
      (db.engine.ledger.pending 1).isSome = true ∧ db.engine.Ready ["forward", "reverse"] := by
    have hempty : Database.Reaches index {} [] (.ofOptions {}) := .start
    have hspaces := (hempty.store (.createNamespace "forward") (by rintro _ ⟨⟩)).store
      (.createNamespace "reverse") (by rintro _ ⟨⟩)
    have hbegun := (hspaces.store .begin (by rintro _ ⟨⟩)).store .begin (by rintro _ ⟨⟩)
    have hadded := (hbegun.index (some 0) (.findFirst 7)).index (some 0) (.add 1 10)
    have hcommitted := hadded.store (.commit 0) (by rintro _ ⟨⟩)
    have hmissed := (hcommitted.index (some 1) (.add 2 10)).index (some 1) (.findFirst 7)
    refine ⟨_, _, hmissed, by decide +kernel, by decide +kernel, by decide +kernel, by decide +kernel, ?_⟩
    exact ⟨FaultPlan.eq_healthy fun call => by cases call <;> decide +kernel, by decide +kernel⟩
  have hsane : index.Sane :=
    TwoWayIndex.sane_create Codec.unsigned_inverts Codec.unsigned_inverts (by decide)
  have hcontext : ∀ id, some 1 = some id → ¬ history.Tainted id := by
    rintro id ⟨⟩
    exact htrusted
  obtain ⟨-, -, -, hexact⟩ := reached.counts_exact hsane (some 1) (.keysWithValue 10) (.limited 5) true
    fun _ _ => ⟨hclean, hcontext⟩
  have htells := hexact _ rfl rfl db.metrics
  have hfits : index.LooksUp (.keysWithValue 10) := by
    rintro reverse ⟨⟩
    show (Codec.unsigned.encode 10).length ≤ Layout.wide.keyLimit
    decide +kernel
  obtain ⟨n, hn⟩ := htells.total hfits hpending hready
  exact ⟨history, db, _, n, reached, hclean, htrusted, hfailed, rfl, rfl, hn, htells.exact (Prod.ext hn rfl)⟩

/-- A transaction was committed although a call in it had failed, since the second half of the index had no
namespace yet. The keys of the value are then counted in a half that has none of them. -/
theorem counts_none_of_half_added_pair :
    ∃ history db count,
      Database.Reaches (.twoWay (.create "pairs" "forward" "reverse" .unsigned .unsigned {})) {}
        history db ∧
      db.engine.Ready ["forward", "reverse"] ∧
      ((AnyIndex.twoWay
        (.create "pairs" "forward" "reverse" .unsigned .unsigned {})).statistics none).count?
          .unlimited false (.keysWithValue 10) = some count ∧
      count.isEstimate = false ∧ (count.value.run db).1.toOption = some 0 ∧
      (Question.keysWithValue (10 : UInt64)).number
        (Index.create "pairs" "forward" .unsigned .unsigned {} : Index UInt64 UInt64)
        (db.engine.ledger.view none) ≠ 0 := by
  let index : TwoWayIndex UInt64 UInt64 := .create "pairs" "forward" "reverse" .unsigned .unsigned {}
  obtain ⟨history, db, reached, hready, hzero, hstores⟩ : ∃ history db,
      Database.Reaches (.twoWay index) {} history db ∧ db.engine.Ready ["forward", "reverse"] ∧
      ((index.reverse.find none 10 >>= Cursor.count).run db).1.toOption = some 0 ∧
      index.forward.Stores (db.engine.ledger.view none) 1 10 := by
    have hempty : Database.Reaches (.twoWay index) {} [] (.ofOptions {}) := .start
    have hbegun := (hempty.store (.createNamespace "forward") (by rintro _ ⟨⟩)).store .begin
      (by rintro _ ⟨⟩)
    have hcommitted := (hbegun.index (some 0) (.add 1 10)).store (.commit 0) (by rintro _ ⟨⟩)
    have hspace := hcommitted.store (.createNamespace "reverse") (by rintro _ ⟨⟩)
    refine ⟨_, _, hspace, ?_, by decide +kernel, by decide +kernel⟩
    exact ⟨by with_unfolding_all rfl, by decide +kernel⟩
  refine ⟨history, db, .exact (index.reverse.find none 10 >>= Cursor.count), reached, hready, rfl, rfl,
    hzero, ?_⟩
  rw [Question.number, Set.encard_ne_zero]
  exact ⟨1, hstores⟩

end SecondaryIndex
