import SecondaryIndex.Codec.Lemmas
import SecondaryIndex.Proofs.Index.Owned

/-!
# What the cursors of an index walk

A cursor of an index is opened on what its context sees in a range, and walks that list from then on,
whatever becomes of the context and of the database (`Cursor.Walks`). Where nothing but entries is seen, the
list is known: the values of a key, the keys or the values of all pairs, or the keys each of them once.

Nothing is asked of the engine here but the cursor. That it was opened means that no call failed, and an
operation that succeeds in a context has seen what the context sees (`IndexM.exists_post`).
-/

namespace SecondaryIndex

variable {α K V : Type}

namespace IndexM

open Program

variable {operation : TransactionId → IndexM α} {undo : α → IndexM Unit} {live : Prop}
  {spaces : List Namespace} {ctx : Context} {db db' : Database} {a : α}
  {post : Changes Place Bytes → α → Prop}

/-- An operation that succeeds in a context has done what it does where it sees what the context sees. -/
theorem exists_post
    (hacts : ∀ id, Acts live spaces id (db.engine.ledger.view ctx) (operation id) post)
    (hundo : ∀ a, Idle (undo a))
    (hrun : (transactionally ctx operation undo).run db = (.ok a, db')) : ∃ c, post c a := by
  cases ctx with
  | some id =>
    obtain ⟨c, -, hok, -⟩ := hacts id db fun _ => rfl
    exact ⟨c, hok a (congrArg Prod.fst hrun)⟩
  | none =>
    have hbegin := Engine.run_begin db.engine
    cases hfails : db.engine.fails .begin with
    | true =>
      rw [run_transactionally_fails operation undo hfails] at hrun
      cases hrun
    | false =>
      rw [hfails, if_neg Bool.false_ne_true] at hbegin
      rw [run_transactionally_none operation undo (run_ofEngine_ok hbegin)] at hrun
      obtain ⟨c, -, hok, -⟩ := hacts db.engine.nextTransaction
        { db with engine := (db.engine.drawn .begin).begun } fun _ => Engine.view_begun
      -- a result that is told is that of the operation
      rcases (settle_ends db.engine.nextTransaction hundo _ _).2 with ⟨a', ha', hsettled, -⟩ |
        ⟨⟨err, herr⟩, -⟩
      · obtain rfl : a' = a := Except.ok.inj (hsettled.symm.trans (Prod.mk.inj hrun).1)
        exact ⟨c, hok a' ha'⟩
      · have hnot := herr.symm.trans (Prod.mk.inj hrun).1
        cases hnot

end IndexM

namespace Index

open Program IndexM

variable {index : Index K V} {ctx : Context} {db db' : Database} {key : K}

/-- A cursor is opened on what its context sees in its range. -/
theorem opened_of_openCursor {range : Range} {decode : Bytes → Except EncodingError α}
    {seeking : Seeking α} {stride : Stride} {cursor : Cursor α}
    (hrun : (index.openCursor ctx range decode seeking stride).run db = (.ok cursor, db')) :
    index.Opened (db.engine.ledger.view ctx) range decode seeking stride cursor := by
  unfold openCursor at hrun
  cases hopen : (index.openIterator ctx range).run db with
  | mk outcome db₁ =>
    cases outcome with
    | error err =>
      rw [run_bind_error hopen] at hrun
      cases hrun
    | ok it =>
      rw [run_bind_ok hopen] at hrun
      have hacts (id : TransactionId) :
          Acts False [index.ns] id (db.engine.ledger.view ctx)
            (ofEngine (Engine.openIterator id index.ns range)) fun _ it =>
            Listing (db.engine.ledger.view ctx) index.ns range it.keys :=
        .openIterator List.mem_cons_self fun keys hkeys => hkeys
      obtain ⟨-, hkeys⟩ := exists_post hacts (fun _ => idle_releaseIterator) hopen
      obtain rfl := Except.ok.inj (Prod.mk.inj hrun).1
      exact ⟨hkeys, rfl, rfl, rfl, rfl⟩

/-! ### Entry by entry -/

variable (hinv : index.codec.Inverts) (honly : index.OnlyEntries (db.engine.ledger.view ctx))

include hinv honly

/-- A cursor over the values of a key follows what its context stores under the key. -/
theorem find_follows {cursor : Cursor V} (hrun : (index.find ctx key).run db = (.ok cursor, db')) :
    ∃ values,
      Lists (index.codec.values.encode · < index.codec.values.encode ·)
        (index.Stores (db.engine.ledger.view ctx) key) values ∧
      cursor.Follows (index.codec.valueCourse values) id := by
  unfold find at hrun
  have hrange := run_keyRange index key db
  cases hspan : index.codec.span key with
  | error err =>
    rw [hspan] at hrange
    rw [run_bind_error hrange] at hrun
    cases hrun
  | ok span =>
    rw [hspan] at hrange
    rw [run_bind_ok hrange] at hrun
    exact (opened_of_openCursor hrun).follows_values honly hinv hspan

theorem find_walks {cursor : Cursor V} (hrun : (index.find ctx key).run db = (.ok cursor, db')) :
    ∃ values,
      Lists (index.codec.values.encode · < index.codec.values.encode ·)
        (index.Stores (db.engine.ledger.view ctx) key) values ∧
      cursor.Walks db' (index.codec.valueCourse values) := by
  obtain ⟨values, hvalues, hfollows⟩ := find_follows hinv honly hrun
  exact ⟨values, hvalues, hfollows.walks⟩

theorem scanKeys_walks {cursor : Cursor K} (hrun : (index.scanKeys ctx).run db = (.ok cursor, db')) :
    ∃ pairs,
      Lists index.codec.Before (fun kv => index.Stores (db.engine.ledger.view ctx) kv.1 kv.2) pairs ∧
      cursor.Walks db' (index.codec.keyCourse (pairs.map Prod.fst)) := by
  obtain ⟨pairs, hpairs, hfollows⟩ := (opened_of_openCursor hrun).follows_keys honly hinv
  exact ⟨pairs, hpairs, hfollows.walks⟩

theorem scanValues_walks {cursor : Cursor V}
    (hrun : (index.scanValues ctx).run db = (.ok cursor, db')) :
    ∃ pairs,
      Lists index.codec.Before (fun kv => index.Stores (db.engine.ledger.view ctx) kv.1 kv.2) pairs ∧
      cursor.Walks db' (.unseekable (pairs.map Prod.snd)) := by
  obtain ⟨pairs, hpairs, hfollows⟩ := (opened_of_openCursor hrun).follows_scan honly hinv
  exact ⟨pairs, hpairs, hfollows.walks⟩

end Index

/-! ### Group by group -/

/-- A cursor over the distinct keys is a cursor over the list of the keys that are seen to have values, in
their order and each of them once. -/
theorem Index.scanDistinctKeys_walks {index : Index K V} {ctx : Context} {db db' : Database}
    {cursor : Cursor K} (hinv : index.codec.keys.Inverts)
    (honly : index.OnlyEntries (db.engine.ledger.view ctx))
    (hrun : (index.scanDistinctKeys ctx).run db = (.ok cursor, db')) :
    ∃ keys,
      Lists index.codec.KeyBefore
        (fun key => ∃ value, index.Stores (db.engine.ledger.view ctx) key value) keys ∧
      cursor.Walks db' (index.codec.keyCourse keys) := by
  obtain ⟨keys, number, hkeys, hfollows⟩ := (opened_of_openCursor hrun).follows_groups honly hinv
  exact ⟨keys, hkeys, hfollows.walks⟩

/-- The keys of an index of which the last has no upper bound for its entries. -/
theorem Index.scanDistinctKeys_walks_of_unbounded :
    ∃ (index : Index Bytes Bytes) (db db' : Database) (cursor : Cursor Bytes) (keys : List Bytes),
      (index.scanDistinctKeys none).run db = (.ok cursor, db') ∧
      (index.codec.ceiling (List.replicate 255 0xff)).toOption = some .unbounded ∧
      List.replicate 255 0xff ∈ keys ∧ [7] ∈ keys ∧
      cursor.Walks db' (index.codec.keyCourse keys) := by
  let index : Index Bytes Bytes := .create "pairs" "users" .verbatim .verbatim {}
  obtain ⟨db, runs, hunbounded, hopens, hlast, hfirst⟩ : ∃ db,
      Database.Runs (Action.Respects (.oneWay index)) (.ofOptions {}) db ∧
        (index.codec.ceiling (List.replicate 255 0xff)).toOption = some .unbounded ∧
        ((index.scanDistinctKeys none).run db).1.isOk = true ∧
        index.Stores (db.engine.ledger.view none) (List.replicate 255 0xff) [] ∧
        index.Stores (db.engine.ledger.view none) [7] [1] := by
    have hempty : Database.Runs (Action.Respects (.oneWay index)) (.ofOptions {}) (.ofOptions {}) :=
      .refl
    have hspace := hempty.step (.store (.createNamespace "users")) (.elsewhere _ nofun)
    have hadded := ((hspace.step _ (.own none (.call (.add [7] [1])))).step _
      (.own none (.call (.add [7] [2])))).step _
      (.own none (.call (.add (List.replicate 255 0xff) [])))
    exact ⟨_, hadded, by decide +kernel, by decide +kernel, by decide +kernel, by decide +kernel⟩
  have hsane : (AnyIndex.oneWay index).Sane := ⟨Codec.verbatim_inverts, Codec.verbatim_inverts⟩
  have honly : index.OnlyEntries (db.engine.ledger.view none) :=
    (hsane.onlyEntries fun hx => runs.within.view hx).1
  rcases hrun : (index.scanDistinctKeys none).run db with ⟨_ | cursor, db'⟩
  · rw [hrun] at hopens
    cases hopens
  · obtain ⟨keys, hkeys, hwalks⟩ := scanDistinctKeys_walks Codec.verbatim_inverts honly hrun
    exact ⟨index, db, db', cursor, keys, hrun, hunbounded, (hkeys.mem_iff _).2 ⟨[], hlast⟩,
      (hkeys.mem_iff _).2 ⟨[1], hfirst⟩, hwalks⟩

/-! ### Along a run -/

/-- What a call answers that opens a cursor over entries: a cursor over the list of what a view stores. -/
def IndexCall.Walked (index : AnyIndex K V) (view : Place → Option Bytes) (db : Database)
    (call : IndexCall K V) (answer : IndexAnswer K V) : Prop :=
  match call with
  | find key => ∃ cursor values, answer = .values cursor ∧
    Lists (index.forward.codec.values.encode · < index.forward.codec.values.encode ·)
      (index.forward.Stores view key) values ∧
    cursor.Walks db (index.forward.codec.valueCourse values)
  | scanKeys => ∃ cursor pairs, answer = .keys cursor ∧
    Lists index.forward.codec.Before (fun kv => index.forward.Stores view kv.1 kv.2) pairs ∧
    cursor.Walks db (index.forward.codec.keyCourse (pairs.map Prod.fst))
  | scanValues => ∃ cursor pairs, answer = .values cursor ∧
    Lists index.forward.codec.Before (fun kv => index.forward.Stores view kv.1 kv.2) pairs ∧
    cursor.Walks db (.unseekable (pairs.map Prod.snd))
  | findByValue value => ∀ reverse, index.reverse? = some reverse → ∃ cursor keys,
    answer = .keys cursor ∧
    Lists (reverse.codec.values.encode · < reverse.codec.values.encode ·)
      (reverse.Stores view value) keys ∧
    cursor.Walks db (reverse.codec.valueCourse keys)
  | _ => True

/-- Wherever a run leads in which the namespaces of an index were left to the index, a cursor over entries
that is opened in any context is a cursor over the list of the entries that the context sees at that moment.
It stays one, whatever is done to the database between the calls on it. -/
theorem Database.Runs.walked {index : AnyIndex K V} {options : StoreOptions} {db db' : Database}
    {ctx : Context} {call : IndexCall K V} {answer : IndexAnswer K V} (hsane : index.Sane)
    (runs : Database.Runs (Action.Respects index) (.ofOptions options) db)
    (hrun : (index.perform ctx call).run db = (.ok answer, db')) :
    call.Walked index (db.engine.ledger.view ctx) db' answer := by
  have hinv := hsane.forward
  -- after the run both namespaces hold nothing but entries, in every view
  obtain ⟨hforward, hreverse⟩ :=
    hsane.onlyEntries (f := db.engine.ledger.view ctx) fun hx => runs.within.view hx
  cases call with
  | find key =>
    obtain ⟨cursor, hopened, rfl⟩ := Program.of_run_map hrun
    obtain ⟨values, hvalues, hwalks⟩ := Index.find_walks hinv hforward hopened
    exact ⟨cursor, values, rfl, hvalues, hwalks⟩
  | scanKeys =>
    obtain ⟨cursor, hopened, rfl⟩ := Program.of_run_map hrun
    obtain ⟨pairs, hpairs, hwalks⟩ := Index.scanKeys_walks hinv hforward hopened
    exact ⟨cursor, pairs, rfl, hpairs, hwalks⟩
  | scanValues =>
    obtain ⟨cursor, hopened, rfl⟩ := Program.of_run_map hrun
    obtain ⟨pairs, hpairs, hwalks⟩ := Index.scanValues_walks hinv hforward hopened
    exact ⟨cursor, pairs, rfl, hpairs, hwalks⟩
  | findByValue value =>
    intro reverse hsome
    cases index with
    | oneWay index => cases hsome
    | twoWay index =>
      cases hsome
      obtain ⟨cursor, hopened, rfl⟩ := Program.of_run_map hrun
      have hinv' : index.reverse.codec.Inverts := TwoWayIndex.Sane.reverse hsane
      obtain ⟨keys, hkeys, hwalks⟩ := Index.find_walks hinv' (hreverse _ rfl) hopened
      exact ⟨cursor, keys, rfl, hkeys, hwalks⟩
  | _ => exact trivial

/-- A cursor over the values of a key, one of which was added by the open transaction that it was opened in,
while another one was removed there. -/
theorem Database.Runs.walked_in_open_transaction :
    ∃ (index : AnyIndex UInt64 UInt64) (db db' : Database) (cursor : Cursor UInt64)
      (values : List UInt64),
      (index.perform (some 2) (.find 1)).run db = (.ok (.values cursor), db') ∧
      10 ∈ values ∧ 15 ∈ values ∧ 20 ∉ values ∧
      cursor.Walks db' (index.forward.codec.valueCourse values) := by
  let index : AnyIndex UInt64 UInt64 :=
    .twoWay (.create "pairs" "forward" "reverse" .unsigned .unsigned {})
  obtain ⟨db, runs, hopens, hcommitted, hadded, hremoved⟩ : ∃ db,
      Database.Runs (Action.Respects index) (.ofOptions {}) db ∧
        ((index.perform (some 2) (.find 1)).run db).1.isOk = true ∧
        index.forward.Stores (db.engine.ledger.view (some 2)) 1 10 ∧
        index.forward.Stores (db.engine.ledger.view (some 2)) 1 15 ∧
        ¬ index.forward.Stores (db.engine.ledger.view (some 2)) 1 20 := by
    have hempty : Database.Runs (Action.Respects index) (.ofOptions {}) (.ofOptions {}) := .refl
    have hspaces := (hempty.step (.store (.createNamespace "forward")) (.elsewhere _ nofun)).step
      (.store (.createNamespace "reverse")) (.elsewhere _ nofun)
    have hcommitted := (hspaces.step _ (.own none (.call (.add 1 10)))).step _
      (.own none (.call (.add 1 20)))
    have hbegun := hcommitted.step (.store .begin) (.elsewhere _ nofun)
    have hwritten := (hbegun.step _ (.own (some 2) (.call (.add 1 15)))).step _
      (.own (some 2) (.call (.remove 1 20)))
    -- the auto-committed transactions have had the numbers 0 and 1
    exact ⟨_, hwritten, by decide +kernel, by decide +kernel, by decide +kernel, by decide +kernel⟩
  have hsane : index.Sane :=
    TwoWayIndex.sane_create Codec.unsigned_inverts Codec.unsigned_inverts (by decide)
  rcases hrun : (index.perform (some 2) (.find 1)).run db with ⟨_ | answer, db'⟩
  · rw [hrun] at hopens
    cases hopens
  · obtain ⟨cursor, values, rfl, hvalues, hwalks⟩ := runs.walked hsane hrun
    exact ⟨index, db, db', cursor, values, hrun, (hvalues.mem_iff _).2 hcommitted,
      (hvalues.mem_iff _).2 hadded, fun hmem => hremoved ((hvalues.mem_iff _).1 hmem), hwalks⟩

end SecondaryIndex
