import SecondaryIndex.Index.Query
import SecondaryIndex.Proofs.Cursor.Drain
import SecondaryIndex.Proofs.Index.Context
import SecondaryIndex.Proofs.Index.Opened

/-!
# What queries answer

Every query is answered from the set of pairs that its context sees. A cursor is described by what it
yields when it is drained, which does not depend on when that is done: it walks the physical keys that
were listed when it was opened. The values of a key come in the order of their bytes, the keys and the
values of all entries in the order of pairs, and the distinct keys in the order of keys.

Queries write nothing, so their contexts are left as they were.
-/

namespace SecondaryIndex

namespace Index

open Program IndexM

variable {K V : Type} {index : Index K V} {f : Place → Option Bytes} {g : K × V → Option Unit}
  {live : Prop} {spaces : List Namespace} {ctx : Context} {key : K}

/-- The values of a key in a set of pairs, in the order of their bytes. -/
def ListsValues (index : Index K V) (g : K × V → Option Unit) (key : K) (values : List V) : Prop :=
  Lists (index.codec.values.encode · < index.codec.values.encode ·)
    (fun value => (g (key, value)).isSome) values

/-- The pairs of a set in their order. -/
def ListsPairs (index : Index K V) (g : K × V → Option Unit) (pairs : List (K × V)) : Prop :=
  Lists index.codec.Before (fun kv => (g kv).isSome) pairs

/-- The keys of the pairs of a set in their order. -/
def ListsKeys (index : Index K V) (g : K × V → Option Unit) (keys : List K) : Prop :=
  Lists index.codec.KeyBefore (fun key => ∃ value, (g (key, value)).isSome) keys

/-- The range of a key is its span, or the refusal of its encoding. -/
theorem run_keyRange (index : Index K V) (key : K) (db : Database) :
    (index.keyRange key).run db =
      (((index.codec.span key).mapError .encoding).map fun span => ⟨.included span.1, span.2⟩, db) := by
  unfold keyRange span
  rw [run_bind, run_ofEncoding]
  cases index.codec.span key <;> rfl

/-- The range of a key that fits is known. -/
theorem exists_range (h : index.codec.Fits key) :
    ∃ range, (((index.codec.span key).mapError .encoding).map fun span => ⟨.included span.1, span.2⟩ :
      Except IndexError Range) = .ok range := by
  obtain ⟨lower, upper, hspan⟩ := EntryCodec.exists_span h
  rw [hspan]
  exact ⟨_, rfl⟩

theorem span_of_range {range : Range}
    (h : (((index.codec.span key).mapError .encoding).map fun span => ⟨.included span.1, span.2⟩ :
      Except IndexError Range) = .ok range) :
    ∃ lower upper, index.codec.span key = .ok (lower, upper) ∧ range = ⟨.included lower, upper⟩ := by
  cases hspan : index.codec.span key with
  | error err =>
    rw [hspan] at h
    cases h
  | ok span =>
    rw [hspan] at h
    exact ⟨span.1, span.2, rfl, (Except.ok.inj h).symm⟩

/-! ### Cursors -/

/-- An iterator of an index runs over the keys its context sees. -/
theorem openIterator_settles (hns : index.ns ∈ spaces) (range : Range) :
    Settles live spaces ctx f (index.openIterator ctx range) (· = .nothing)
      (Gives fun it => ∃ keys, it = { keys } ∧ Listing f index.ns range keys) := by
  refine .transactionally (fun id => .openIterator hns fun keys hkeys => ⟨rfl, keys, rfl, hkeys⟩) ?_
  exact fun _ => idle_releaseIterator

/-- A cursor is opened on what its context sees in its range. -/
theorem openCursor_settles {α : Type} (hns : index.ns ∈ spaces) (range : Range)
    (decode : Bytes → Except EncodingError α) (seeking : Seeking α) (stride : Stride) :
    Settles live spaces ctx f (index.openCursor ctx range decode seeking stride) (· = .nothing)
      (Gives (index.Opened f range decode seeking stride)) := by
  -- that a cursor was opened is counted once its transaction is settled
  refine .counted (openIterator_settles hns range) fun it db => ⟨_, rfl, ?_, ?_⟩
  · show (db.observe index.options.metrics Counters.countOpened).engine = db.engine
    rw [Cursor.observe_eq]
  · rintro ⟨keys, rfl, hkeys⟩
    exact ⟨hkeys, rfl, rfl, rfl, rfl⟩

/-- The cursor of a key yields the values stored under it, in order. -/
theorem find_settles (hinv : index.codec.Inverts) (hf : index.Shows f g) (hns : index.ns ∈ spaces) :
    Settles (index.codec.Fits key) spaces ctx f (index.find ctx key) (· = .nothing)
      (Gives fun cursor => ∃ values, index.ListsValues g key values ∧ cursor.Yields values) := by
  refine .preceded (run_keyRange index key) exists_range fun range hrange => ?_
  obtain ⟨lower, upper, hspan, rfl⟩ := span_of_range hrange
  refine .gives (openCursor_settles hns _ _ _ _) fun cursor hopened => ?_
  obtain ⟨values, hvalues, hfollows⟩ := hopened.follows_values (hf.onlyEntries hinv) hinv hspan
  exact ⟨values, hvalues.congr fun value => hf.stores_iff hinv, hfollows.yields⟩

/-- A scan of the keys yields one for each pair, in order. -/
theorem scanKeys_settles (hinv : index.codec.Inverts) (hf : index.Shows f g)
    (hns : index.ns ∈ spaces) :
    Settles live spaces ctx f (index.scanKeys ctx) (· = .nothing)
      (Gives fun cursor => ∃ pairs, index.ListsPairs g pairs ∧
        cursor.Yields (pairs.map Prod.fst)) := by
  refine .gives (openCursor_settles hns _ _ _ _) fun cursor hopened => ?_
  obtain ⟨pairs, hpairs, hfollows⟩ := hopened.follows_keys (hf.onlyEntries hinv) hinv
  exact ⟨pairs, hpairs.congr fun kv => hf.stores_iff hinv, hfollows.yields⟩

/-- A scan of the values yields one for each pair, in the order of the pairs. -/
theorem scanValues_settles (hinv : index.codec.Inverts) (hf : index.Shows f g)
    (hns : index.ns ∈ spaces) :
    Settles live spaces ctx f (index.scanValues ctx) (· = .nothing)
      (Gives fun cursor => ∃ pairs, index.ListsPairs g pairs ∧
        cursor.Yields (pairs.map Prod.snd)) := by
  refine .gives (openCursor_settles hns _ _ _ _) fun cursor hopened => ?_
  obtain ⟨pairs, hpairs, hfollows⟩ := hopened.follows_scan (hf.onlyEntries hinv) hinv
  exact ⟨pairs, hpairs.congr fun kv => hf.stores_iff hinv, hfollows.yields⟩

/-- A scan of the distinct keys yields each key that has a value once. -/
theorem scanDistinctKeys_settles (hinv : index.codec.Inverts) (hf : index.Shows f g)
    (hns : index.ns ∈ spaces) :
    Settles live spaces ctx f (index.scanDistinctKeys ctx) (· = .nothing)
      (Gives fun cursor => ∃ keys, index.ListsKeys g keys ∧ cursor.Yields keys) := by
  refine .gives (openCursor_settles hns _ _ _ _) fun cursor hopened => ?_
  obtain ⟨keys, number, hkeys, hfollows⟩ := hopened.follows_groups (hf.onlyEntries hinv) hinv.1
  refine ⟨keys, hkeys.congr fun key => ?_, hfollows.yields⟩
  exact exists_congr fun value => hf.stores_iff hinv

/-! ### Numbers and first values -/

/-- Counting is draining. -/
theorem count_of_yields {α : Type} {cursor : Cursor α} {items : List α} (h : cursor.Yields items)
    {db : Database} (hdb : db.engine.faults = .healthy) :
    (cursor.count.run db).1 = .ok items.length := by
  rw [Cursor.count_eq, run_map, h db hdb]
  rfl

theorem count_idle {α : Type} (cursor : Cursor α) : Idle cursor.count := by
  intro db
  rw [Cursor.count_eq, run_map]
  exact cursor.collect_idle db

/-- The number of pairs is counted in a scan of the keys. -/
theorem count_settles (hinv : index.codec.Inverts) (hf : index.Shows f g) (hns : index.ns ∈ spaces) :
    Settles live spaces ctx f (index.count ctx) (· = .nothing)
      (Gives fun n => ∃ pairs, index.ListsPairs g pairs ∧ n = pairs.length) := by
  refine .asked (scanKeys_settles hinv hf hns) count_idle fun cursor db hcursor hdb => ?_
  obtain ⟨pairs, hpairs, hyields⟩ := hcursor
  exact ⟨_, count_of_yields hyields hdb, pairs, hpairs, List.length_map _⟩

/-- The number of values of a key is counted on its cursor. -/
theorem countKey_settles (hinv : index.codec.Inverts) (hf : index.Shows f g)
    (hns : index.ns ∈ spaces) :
    Settles (index.codec.Fits key) spaces ctx f (index.countKey ctx key) (· = .nothing)
      (Gives fun n => ∃ values, index.ListsValues g key values ∧ n = values.length) := by
  refine .asked (find_settles hinv hf hns) count_idle fun cursor db hcursor hdb => ?_
  obtain ⟨values, hvalues, hyields⟩ := hcursor
  exact ⟨_, count_of_yields hyields hdb, values, hvalues, rfl⟩

/-- The first of some values, or the error that there is none. -/
def firstOf : List V → Except IndexError V
  | [] => .error .notFound
  | value :: _ => .ok value

/-- What is found first in the range of a key is the physical key of its first value, wherever nothing but entries
is seen. -/
theorem findFirst_finds (hinv : index.codec.Inverts) (honly : index.OnlyEntries f)
    (hns : index.ns ∈ spaces) :
    Settles (index.codec.Fits key) spaces ctx f (index.findFirst ctx key) (· = .nothing)
      fun outcome => ∃ values, Lists (index.codec.values.encode · < index.codec.values.encode ·)
        (index.Stores f key) values ∧ outcome = firstOf values := by
  refine .preceded (run_keyRange index key) exists_range fun range hrange => ?_
  obtain ⟨lower, upper, hspan, rfl⟩ := span_of_range hrange
  have hfound : Settles (index.codec.Fits key) spaces ctx f
      (IndexM.within ctx fun id =>
        IndexM.withIterator id index.ns ⟨.included lower, upper⟩ fun iterator => do
          IndexM.ofEngine Engine.status
          pure iterator.seekFirst.key?) (· = .nothing)
      (Gives fun physical? => ∃ keys, Listing f index.ns ⟨.included lower, upper⟩ keys ∧
        physical? = keys.head?) := by
    refine .within fun id => .look hns fun keys hkeys => ⟨rfl, keys, hkeys, ?_⟩
    cases keys <;> rfl
  refine .asked hfound (fun physical? db => ?_) fun physical? db hphysical _ => ?_
  · cases physical? with
    | none => exact .refl _
    | some physical => exact .refl _
  -- the first key of the range encodes the first value, and is read back as it
  · obtain ⟨keys, hkeys, rfl⟩ := hphysical
    obtain ⟨values, hencoded, hvalues⟩ := honly.exists_values hinv hspan hkeys
    refine ⟨values, hvalues, ?_⟩
    cases values with
    | nil =>
      cases hencoded
      rfl
    | cons value values =>
      cases hencoded with
      | cons henc hrest =>
        show ((IndexM.ofEncoding (index.codec.readValue _)).run db).1 = _
        rw [run_ofEncoding, EntryCodec.readValue_of_encode hinv.2 henc]
        rfl

/-- The first value of a key is the least one, or there is none. -/
theorem findFirst_settles (hinv : index.codec.Inverts) (hf : index.Shows f g)
    (hns : index.ns ∈ spaces) :
    Settles (index.codec.Fits key) spaces ctx f (index.findFirst ctx key) (· = .nothing)
      fun outcome => ∃ values, index.ListsValues g key values ∧ outcome = firstOf values := by
  refine (findFirst_finds hinv (hf.onlyEntries hinv) hns).mono (fun hl => hl) (fun _ hc => hc) ?_
  rintro outcome ⟨values, hvalues, houtcome⟩
  exact ⟨values, hvalues.congr fun value => hf.stores_iff hinv, houtcome⟩

end Index

end SecondaryIndex
