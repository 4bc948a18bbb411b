import SecondaryIndex.Proofs.Index.Runs

/-!
# The registry of open transactions

A store registers how many open transactions started from each of its commits, and forgets a last write
as soon as nobody is left who could conflict with it. A transaction that is struck off too seldom keeps
all later writes remembered, and one that is struck off twice makes a conflict go unnoticed; neither can
be seen in an answer.

A `Roll` keeps the same account from the outside. It lists who has begun and has neither ended nor been
given up, as the answers tell (`StoreCall.event?`), and calls on indexes and cursors leave it as it is.
Along every run the registry is the roll, counted by starts (`Action.registry_exact`): whichever calls
fail, each transaction is struck off once, and the transactions of operations that auto-commit are gone
when the operations are over.

What connects the two is the set of transactions that started from a commit, `Engine.starters`. The
moves of an engine change it as they change the roll (`Roll.Lists.move`), and an operation of an index
leaves every frame as it was, if not every transaction (`AnyIndex.operate_frames`).
-/

namespace SecondaryIndex

/-- The transactions that have begun and have neither ended nor been given up, newest first, with the
commits that they started from. -/
abbrev Roll := List (TransactionId × Nat)

namespace Roll

/-- The roll without a transaction. -/
def strike (roll : Roll) (id : TransactionId) : Roll := roll.filter fun entry => entry.1 ≠ id

/-- The roll after an event in a store whose last commit was `last`. -/
def after (roll : Roll) (last : Nat) : Option (LedgerEvent Place Bytes) → Roll
  | some (.opens id) => (id, last) :: roll
  | some (.commits id) => roll.strike id
  | some (.ends id) => roll.strike id
  | some (.writes _ _ _) => roll
  | none => roll

/-- How many transactions of a roll started from a commit. -/
def startedAt (roll : Roll) (start : Nat) : Nat := roll.countP fun entry => entry.2 = start

end Roll

/-- What a tidy registry has of a start. -/
theorem Store.Tidy.get?_active {store : Store} (h : store.Tidy) (start : Nat) :
    store.active.get? start =
      if store.registered start = 0 then none else some (store.registered start) := by
  have hpos := h start
  unfold Store.registered SortedMap.getD
  cases hn : store.active.get? start with
  | none => rfl
  | some n =>
    rw [hn] at hpos
    have hne : n ≠ 0 := fun heq => hpos (congrArg some heq)
    exact (if_neg hne).symm

/-! ### Who started where -/

namespace Engine

variable {e e' : Engine} {id j : TransactionId} {tx : Transaction} {start : Nat}

/-- Whoever started from a commit is known by what a transaction keeps. -/
theorem mem_starters_iff :
    id ∈ e.starters start ↔
      (e.transactions.get? id).map Transaction.frame = some (start, false) := by
  simp only [starters, HasOpen, Set.mem_ofPred_eq, Option.map_eq_some_iff, Transaction.frame,
    Prod.mk.injEq]
  constructor
  · rintro ⟨tx, ⟨hget, hopen⟩, hs⟩
    exact ⟨tx, hget, hs, hopen⟩
  · rintro ⟨tx, hget, hs, hopen⟩
    exact ⟨tx, ⟨hget, hopen⟩, hs⟩

/-- A transaction begun starts at the last commit, and the others where they did. -/
theorem starters_begun :
    j ∈ e.begun.starters start ↔
      (j = e.nextTransaction ∧ start = e.store.lastCommit) ∨
        (j ≠ e.nextTransaction ∧ j ∈ e.starters start) := by
  simp only [starters, hasOpen_begun, Set.mem_ofPred_eq]
  constructor
  · rintro ⟨tx, ⟨hj, rfl⟩ | ⟨hj, hopen⟩, rfl⟩
    · exact .inl ⟨hj, rfl⟩
    · exact .inr ⟨hj, tx, hopen, rfl⟩
  · rintro (⟨hj, rfl⟩ | ⟨hj, tx, hopen, hs⟩)
    · exact ⟨_, .inl ⟨hj, rfl⟩, rfl⟩
    · exact ⟨tx, .inr ⟨hj, hopen⟩, hs⟩

/-- Where all but one go on, so do the starters. -/
theorem mem_starters_iff_of_hasOpen (h : ∀ {tx}, e'.HasOpen j tx ↔ j ≠ id ∧ e.HasOpen j tx) :
    j ∈ e'.starters start ↔ j ≠ id ∧ j ∈ e.starters start := by
  simp only [starters, h, Set.mem_ofPred_eq]
  constructor
  · rintro ⟨t, ⟨hj, hopen⟩, hs⟩
    exact ⟨hj, t, hopen, hs⟩
  · rintro ⟨hj, t, hopen, hs⟩
    exact ⟨t, ⟨hj, hopen⟩, hs⟩

/-- A transaction closed starts nowhere any more. -/
theorem starters_closed : j ∈ (e.closed id tx).starters start ↔ j ≠ id ∧ j ∈ e.starters start :=
  mem_starters_iff_of_hasOpen hasOpen_closed

theorem starters_discard : j ∈ (e.discard id).starters start ↔ j ≠ id ∧ j ∈ e.starters start :=
  mem_starters_iff_of_hasOpen hasOpen_discard

/-- The frames of all transactions were kept. -/
def KeepsFrames (e e' : Engine) : Prop :=
  ∀ id, (e'.transactions.get? id).map Transaction.frame =
    (e.transactions.get? id).map Transaction.frame

/-- What keeps the transactions but for writes keeps their frames. -/
theorem Keeps.frames (h : e.Keeps id e') : e.KeepsFrames e' := by
  intro j
  by_cases hj : j = id
  · rw [hj, h.own]
  · rw [h.others j hj]

theorem keepsFrames_of_transactions_eq (h : e'.transactions = e.transactions) : e.KeepsFrames e' :=
  fun id => by rw [h]

/-- Transactions with the same frames start in the same places. -/
theorem KeepsFrames.starters_eq (h : e.KeepsFrames e') (start : Nat) :
    e'.starters start = e.starters start := by
  ext id
  rw [mem_starters_iff, mem_starters_iff, h id]

end Engine

/-! ### The roll and the engine -/

namespace Roll

variable {roll : Roll} {e e' : Engine} {id j : TransactionId} {start : Nat}

/-- A number struck off a roll is all that is missing from it. -/
theorem mem_strike_iff : (id, start) ∈ roll.strike j ↔ id ≠ j ∧ (id, start) ∈ roll := by
  simp [strike, and_comm]

/-- A roll lists who is open in an engine that keeps its books. -/
structure Lists (roll : Roll) (e : Engine) : Prop where
  sound : e.Sound
  nodup : (roll.map Prod.fst).Nodup
  mem_iff : ∀ id start, (id, start) ∈ roll ↔ id ∈ e.starters start

namespace Lists

theorem empty (options : StoreOptions) : Lists [] (.ofOptions options) where
  sound := Engine.sound_ofOptions options
  nodup := List.nodup_nil
  mem_iff id start := by
    refine ⟨fun h => absurd h List.not_mem_nil, ?_⟩
    rintro ⟨tx, hopen, -⟩
    cases hopen.1

/-- What leaves the frames as they were leaves the roll right. -/
theorem of_frames (h : roll.Lists e) (hsound : e'.Sound) (hframes : e.KeepsFrames e') : roll.Lists e' :=
  ⟨hsound, h.nodup, fun id start => by rw [hframes.starters_eq, h.mem_iff]⟩

/-- Whoever ends is struck off. -/
theorem strike (h : roll.Lists e) (hsound : e'.Sound)
    (hrest : ∀ j start, j ∈ e'.starters start ↔ j ≠ id ∧ j ∈ e.starters start) :
    (roll.strike id).Lists e' := by
  refine ⟨hsound, ?_, fun j start => ?_⟩
  · exact h.nodup.sublist (List.filter_sublist.map Prod.fst)
  · rw [mem_strike_iff, h.mem_iff, hrest]

/-- A transaction begun is put on the roll with the last commit. -/
theorem begun (h : roll.Lists e) {faults : FaultPlan} (hsound : Engine.Sound { e.begun with faults }) :
    Lists ((e.nextTransaction, e.store.lastCommit) :: roll) { e.begun with faults } := by
  -- the number is new, so nobody on the roll has it
  have hnew : e.nextTransaction ∉ roll.map Prod.fst := by
    intro hmem
    obtain ⟨⟨id, start⟩, hentry, rfl⟩ := List.mem_map.1 hmem
    obtain ⟨tx, hopen, -⟩ := (h.mem_iff _ _).1 hentry
    exact Nat.lt_irrefl _ (h.sound.lt_nextTransaction hopen)
  refine ⟨hsound, List.nodup_cons.2 ⟨hnew, h.nodup⟩, fun j start => ?_⟩
  have hbegun : j ∈ Engine.starters { e.begun with faults } start ↔ j ∈ e.begun.starters start := Iff.rfl
  rw [List.mem_cons, Prod.mk.injEq, h.mem_iff, hbegun, Engine.starters_begun]
  refine or_congr_right ⟨fun hold => ⟨?_, hold⟩, And.right⟩
  rintro rfl
  exact hnew (List.mem_map.2 ⟨_, (h.mem_iff _ _).2 hold, rfl⟩)

/-- The roll follows the moves of an engine. -/
theorem move {event? : Option (LedgerEvent Place Bytes)} (h : roll.Lists e)
    (hmove : Engine.Moves e event? e') : (roll.after e.store.lastCommit event?).Lists e' := by
  have hsound := h.sound.move hmove
  cases hmove with
  | rearranges healthy alike => exact h.of_frames hsound fun _ => rfl
  | begins healthy => exact h.begun hsound
  | writes healthy written => exact h.of_frames hsound (Engine.keeps_keeping written).frames
  | commitsNothing healthy hopen nothing => exact h.strike hsound fun _ _ => Engine.starters_closed
  | commits healthy hopen something applied =>
    exact h.strike hsound fun _ _ => Engine.starters_closed (e := { e with store := _ })
  | closes healthy hopen => exact h.strike hsound fun _ _ => Engine.starters_closed
  | drops id => exact h.strike hsound fun _ _ => Engine.starters_discard

/-- Counted by starts, the roll is the registry. -/
theorem startedAt_eq (h : roll.Lists e) (start : Nat) :
    roll.startedAt start = e.store.registered start := by
  -- who started there is on the roll with that start, and nobody is on it twice
  have hset : e.starters start =
      ((roll.filter fun entry => entry.2 = start).map Prod.fst).toFinset := by
    ext id
    simp [← h.mem_iff]
  have hnodup : ((roll.filter fun entry => entry.2 = start).map Prod.fst).Nodup :=
    h.nodup.sublist (List.filter_sublist.map Prod.fst)
  calc roll.startedAt start
      = ((roll.filter fun entry => entry.2 = start).map Prod.fst).length := by
        rw [startedAt, List.countP_eq_length_filter, List.length_map]
    _ = (e.starters start).ncard := by
        rw [hset, Set.ncard_coe_finset, List.toFinset_card_of_nodup hnodup]
    _ = e.store.registered start := (h.sound.registry start).symm

end Lists

end Roll

/-! ### Runs -/

/-- An operation on an index begins nothing and ends nothing that was there before. -/
theorem AnyIndex.operate_frames {K V : Type} (index : AnyIndex K V) (ctx : Context)
    (operation : IndexOperation K V) {db : Database} (hsound : db.engine.Sound) :
    db.engine.KeepsFrames ((index.operate ctx operation).run db).2.engine := by
  have hatomic := index.operate_atomic ctx operation db hsound
  cases ctx with
  | some id => exact (hatomic.ambient id rfl).keeps.frames
  | none => exact Engine.keepsFrames_of_transactions_eq hatomic.transactions_eq

namespace Action

/-- The roll after an action. Only calls on the store begin and end transactions that stay. -/
def enrol (db : Database) (roll : Roll) : Action → Roll
  | store call =>
    roll.after db.engine.store.lastCommit (call.event? ((Engine.perform call).run db.engine).1)
  | _ => roll

/-- Where actions lead from an empty store, newest action first, and who is open there. -/
def enrolled (options : StoreOptions) : List Action → Database × Roll
  | [] => (.ofOptions options, [])
  | action :: older =>
    let (db, roll) := enrolled options older
    (action.run db, action.enrol db roll)

/-- An action whose answer is enrolled leaves the roll a list of the open transactions. -/
theorem lists_enrol {db : Database} {roll : Roll} (h : roll.Lists db.engine) (action : Action) :
    (action.enrol db roll).Lists (action.run db).engine := by
  have hidle {e' : Engine} (hidles : db.engine.Idles e') : roll.Lists e' :=
    h.of_frames (hidles.steady.sound h.sound)
      (Engine.keepsFrames_of_transactions_eq hidles.transactions)
  cases action with
  | store call => exact h.move (Engine.moves_perform db.engine call)
  | index asked ctx operation =>
    exact h.of_frames ((asked.operate_atomic ctx operation db h.sound).persists.sound h.sound)
      (asked.operate_frames ctx operation h.sound)
  | faults plan => exact h.of_frames (h.sound.withFaults plan) fun _ => rfl
  | cursor walked call => exact hidle (walked.perform_idles db call)
  | collect walked => exact hidle (walked.collect_idle db)
  | items walked => exact hidle (walked.items_idles db)
  | release walked => exact hidle (walked.release_idles db)
  | installMetrics => exact hidle (.refl _)

/-- The roll read off the answers of a run lists the open transactions. -/
theorem lists_enrolled (options : StoreOptions) (actions : List Action) :
    (enrolled options actions).2.Lists (enrolled options actions).1.engine := by
  induction actions with
  | nil => exact .empty options
  | cons action older ih => exact lists_enrol ih action

/-- Wherever actions lead, and whichever calls failed on the way, the registry has registered each start
with the number of transactions that began there and are still open, and no start besides; nobody started
after the last commit; and an operation that auto-commits, however it ends, leaves the registry as it
was. -/
theorem registry_exact (options : StoreOptions) (actions : List Action) :
    let (db, roll) := enrolled options actions
    (roll.map Prod.fst).Nodup ∧
    (∀ start, db.engine.store.active.get? start =
      if roll.startedAt start = 0 then none else some (roll.startedAt start)) ∧
    (∀ id start, (id, start) ∈ roll → start ≤ db.engine.store.lastCommit) ∧
    ∀ {K V : Type} (index : AnyIndex K V) (operation : IndexOperation K V),
      ((index.operate none operation).run db).2.engine.store.active = db.engine.store.active := by
  have h := lists_enrolled options actions
  generalize enrolled options actions = reached at h ⊢
  obtain ⟨db, roll⟩ := reached
  refine ⟨h.nodup, fun start => ?_, fun id start hentry => ?_, fun index operation => ?_⟩
  · rw [h.sound.tidy.get?_active, h.startedAt_eq]
  · obtain ⟨tx, hopen, rfl⟩ := (h.mem_iff id start).1 hentry
    exact h.sound.start_le hopen
  · have hatomic := index.operate_atomic none operation db h.sound
    exact h.sound.active_eq (hatomic.persists.sound h.sound) hatomic.transactions_eq

/-- Two transactions begin together. The commit of the first one fails before it reaches the store and is
made once more; whoever begins now starts from it. -/
example :
    let (db, roll) := enrolled {} [.store .begin, .store (.commit 0), .store (.commit 0),
      .faults (FaultPlan.healthy.arm .commit 0 1), .store (.put 0 "n" [1] [2]), .store .begin,
      .store .begin, .store (.createNamespace "n")]
    roll = [(2, 1), (1, 0)] ∧ db.engine.store.active.entries = [(0, 1), (1, 1)] := by
  decide +kernel

end Action

end SecondaryIndex
