import SecondaryIndex.Index.AnyIndex
import SecondaryIndex.Proofs.Index.Queries
import SecondaryIndex.Proofs.Index.TwoWay

/-!
# The calls of an index

An `IndexCall` is one call on an index of either form, and `AnyIndex.perform` makes it in a context.
What a call should do is said on sets of pairs. `IndexCall.changes` is what it writes, given the set
that its context sees, and `IndexCall.Answered` is what it answers.

`AnyIndex.perform_settles` shows that this is what comes of it. In a context that sees physical keys
which present a set of pairs, the call writes physical keys that present its changes, and it answers
from the set.
-/

namespace SecondaryIndex

/-- A call on an index. -/
inductive IndexCall (K V : Type)
  | add (key : K) (value : V)
  | remove (key : K) (value : V)
  | removeAll (key : K)
  | findFirst (key : K)
  | find (key : K)
  | scanKeys
  | scanDistinctKeys
  | scanValues
  | count
  | countKey (key : K)
  | findByValue (value : V)

/-- What a call on an index answers; `unavailable` is for values looked up in an index that keeps
pairs by key only. -/
inductive IndexAnswer (K V : Type)
  | done
  | number (n : Nat)
  | value (value : V)
  | keys (cursor : Cursor K)
  | values (cursor : Cursor V)
  | unavailable

namespace AnyIndex

variable {K V : Type}

/-- Makes a call in a context. -/
def perform (index : AnyIndex K V) (ctx : Context) : IndexCall K V → IndexM (IndexAnswer K V)
  | .add key value => (fun _ => .done) <$> index.add ctx key value
  | .remove key value => (fun _ => .done) <$> index.remove ctx key value
  | .removeAll key => .number <$> index.removeAll ctx key
  | .findFirst key => .value <$> index.forward.findFirst ctx key
  | .find key => .values <$> index.forward.find ctx key
  | .scanKeys => .keys <$> index.forward.scanKeys ctx
  | .scanDistinctKeys => .keys <$> index.forward.scanDistinctKeys ctx
  | .scanValues => .values <$> index.forward.scanValues ctx
  | .count => .number <$> index.forward.count ctx
  | .countKey key => .number <$> index.forward.countKey ctx key
  | .findByValue value =>
    match index.reverse? with
    | some reverse => .keys <$> reverse.find ctx value
    | none => pure .unavailable

/-- The namespaces of an index. -/
def namespaces : AnyIndex K V → List Namespace
  | oneWay index => [index.ns]
  | twoWay index => [index.forward.ns, index.reverse.ns]

/-- How the physical keys of an index present its pairs. -/
def presentation : AnyIndex K V → Presentation Place Bytes (K × V) Unit
  | oneWay index => index.presentation
  | twoWay index => index.presentation

/-- The codecs of an index invert, and its halves are apart. -/
def Sane : AnyIndex K V → Prop
  | oneWay index => index.codec.Inverts
  | twoWay index => index.Sane

/-- Values are short enough to be looked up, where that can be done. -/
def FitsReverse (index : AnyIndex K V) (value : V) : Prop :=
  ∀ reverse, index.reverse? = some reverse → reverse.codec.Fits value

/-- The key and the value of a call are short enough for the index. -/
def Admits (index : AnyIndex K V) : IndexCall K V → Prop
  | .add key value => index.forward.codec.Fits key ∧ index.FitsReverse value
  | .remove key value => index.forward.codec.Fits key ∧ index.FitsReverse value
  | .removeAll key => index.forward.codec.Fits key
  | .findFirst key => index.forward.codec.Fits key
  | .find key => index.forward.codec.Fits key
  | .countKey key => index.forward.codec.Fits key
  | .findByValue value => index.FitsReverse value
  | _ => True

variable {index : AnyIndex K V} {f : Place → Option Bytes} {g : K × V → Option Unit}

theorem Sane.forward (h : index.Sane) : index.forward.codec.Inverts := by
  cases index with
  | oneWay index => exact h
  | twoWay index => exact TwoWayIndex.Sane.forward h

/-- The forward half shows the pairs of the index. -/
theorem forward_shows (hf : index.presentation.views f g) : index.forward.Shows f g := by
  cases index with
  | oneWay index => exact hf
  | twoWay index => exact hf.1

theorem forward_mem (index : AnyIndex K V) : index.forward.ns ∈ index.namespaces := by
  cases index <;> exact List.mem_cons_self

end AnyIndex

namespace IndexCall

variable {K V : Type}

/-- What a call writes where a set of pairs is seen. Pairs that are absent are not removed. -/
def changes [DecidableEq K] [DecidableEq V] (g : K × V → Option Unit) :
    IndexCall K V → Changes (K × V) Unit
  | add key value => .single (key, value) (some ())
  | remove key value => .erasing g (key, value)
  | removeAll key => .erasingAll g key
  | _ => .nothing

/-- What a call answers where a set of pairs is seen. -/
def Answered (index : AnyIndex K V) (g : K × V → Option Unit) (call : IndexCall K V)
    (outcome : Except IndexError (IndexAnswer K V)) : Prop :=
  match call with
  | add _ _ => outcome = .ok .done
  | remove _ _ => outcome = .ok .done
  | removeAll key => ∃ values, index.forward.ListsValues g key values ∧
    outcome = .ok (.number values.length)
  | findFirst key => ∃ values, index.forward.ListsValues g key values ∧
    outcome = (Index.firstOf values).map .value
  | find key => ∃ cursor values, outcome = .ok (.values cursor) ∧
    index.forward.ListsValues g key values ∧ cursor.Yields values
  | scanKeys => ∃ cursor pairs, outcome = .ok (.keys cursor) ∧
    index.forward.ListsPairs g pairs ∧ cursor.Yields (pairs.map Prod.fst)
  | scanDistinctKeys => ∃ cursor keys, outcome = .ok (.keys cursor) ∧
    index.forward.ListsKeys g keys ∧ cursor.Yields keys
  | scanValues => ∃ cursor pairs, outcome = .ok (.values cursor) ∧
    index.forward.ListsPairs g pairs ∧ cursor.Yields (pairs.map Prod.snd)
  | count => ∃ pairs, index.forward.ListsPairs g pairs ∧ outcome = .ok (.number pairs.length)
  | countKey key => ∃ values, index.forward.ListsValues g key values ∧
    outcome = .ok (.number values.length)
  | findByValue value =>
    match index.reverse? with
    | some reverse => ∃ cursor keys, outcome = .ok (.keys cursor) ∧
      reverse.ListsValues (g ∘ Prod.swap) value keys ∧ cursor.Yields keys
    | none => outcome = .ok .unavailable

end IndexCall

/-! ### Operations that write -/

section Writing

variable {K V : Type} [DecidableEq K] [DecidableEq V] {spaces : List Namespace} {ctx : Context}
  {f : Place → Option Bytes} {g : K × V → Option Unit} {key : K} {value : V} {live : Prop}

namespace Index

variable {index : Index K V}

omit [DecidableEq V] in
/-- The removal of a key from one half counts the values that were listed under it. -/
theorem eraseAll_acts {id : TransactionId} (hinv : index.codec.Inverts) (hf : index.Shows f g)
    (hns : index.ns ∈ spaces) (hfits : live → index.codec.Fits key) :
    Acts live spaces id f (List.length <$> index.eraseAllWithin id key) fun c n =>
      index.Writes c (.erasingAll g key) ∧
        ∃ values, index.ListsValues g key values ∧ n = values.length := by
  refine .map (eraseAllWithin_acts hinv hf hns hfits) ?_
  rintro c keys ⟨hc, lower, upper, hspan, hkeys⟩
  obtain ⟨values, hencoded, hvalues⟩ := exists_values hinv hf hspan hkeys
  refine ⟨hc.1, values, hvalues, ?_⟩
  rw [hencoded.length_eq, List.length_map]

end Index

namespace AnyIndex

variable {index : AnyIndex K V}

theorem engine_observe (id? : Option MetricsId) (count : Counters → Counters) (db : Database) :
    (db.observe id? count).engine = db.engine := by
  rw [Cursor.observe_eq]

/-- An addition comes to the pair being there. -/
theorem add_settles (h : index.Sane) :
    Settles (index.Admits (.add key value)) index.namespaces ctx f (index.add ctx key value)
      (fun c => index.presentation.changes c (.single (key, value) (some ()))) (Gives fun _ => True) := by
  cases index with
  | oneWay index =>
    have hacts (id : TransactionId) :
        Acts ((oneWay index).Admits (.add key value)) [index.ns] id f
          (index.insertWithin id key value) fun c _ =>
          index.Writes c (.single (key, value) (some ())) ∧ True :=
      (Index.insertWithin_acts h List.mem_cons_self And.left).mono fun c _ hc => ⟨hc.1, trivial⟩
    exact .counted (.within hacts) fun _ db => ⟨(), rfl, engine_observe _ _ db, id⟩
  | twoWay index =>
    have hvalue : (twoWay index).Admits (.add key value) → index.reverse.codec.Fits value :=
      fun hl => hl.2 index.reverse rfl
    have hacts (id : TransactionId) :
        Acts ((twoWay index).Admits (.add key value)) [index.forward.ns, index.reverse.ns] id f
          (do index.forward.insertWithin id key value
              index.reverse.insertWithin id value key) fun c _ =>
          index.presentation.changes c (.single (key, value) (some ())) ∧ True :=
      (TwoWayIndex.insert_acts h List.mem_cons_self (List.mem_cons_of_mem _ List.mem_cons_self)
        And.left hvalue).mono fun c _ hc => ⟨hc, trivial⟩
    exact .counted (.within hacts) fun _ db => ⟨(), rfl, engine_observe _ _ db, id⟩

/-- A removal comes to the pair not being there. -/
theorem remove_settles (h : index.Sane) (hf : index.presentation.views f g) :
    Settles (index.Admits (.remove key value)) index.namespaces ctx f (index.remove ctx key value)
      (fun c => index.presentation.changes c (.erasing g (key, value))) (Gives fun _ => True) := by
  -- whether a removal is counted or not, the engine stays as it is
  have hcounting (id? : Option MetricsId) (removed : Bool) (db : Database) :
      ∃ u, ((if removed then IndexM.observe id? (Counters.countRemoved 1) else pure () :
          IndexM Unit).run db).1 = .ok u ∧
        ((if removed then IndexM.observe id? (Counters.countRemoved 1) else pure () :
          IndexM Unit).run db).2.engine = db.engine ∧ (True → True) := by
    cases removed with
    | true => exact ⟨(), rfl, engine_observe _ _ db, id⟩
    | false => exact ⟨(), rfl, rfl, id⟩
  cases index with
  | oneWay index =>
    have hacts (id : TransactionId) :
        Acts ((oneWay index).Admits (.remove key value)) [index.ns] id f
          (index.eraseWithin id key value) fun c _ => index.Writes c (.erasing g (key, value)) ∧ True :=
      (Index.eraseWithin_acts h hf List.mem_cons_self And.left).mono fun c _ hc => ⟨hc.2.1, trivial⟩
    exact .counted (.within hacts) (hcounting _)
  | twoWay index =>
    have hvalue : (twoWay index).Admits (.remove key value) → index.reverse.codec.Fits value :=
      fun hl => hl.2 index.reverse rfl
    have hacts (id : TransactionId) :
        Acts ((twoWay index).Admits (.remove key value)) [index.forward.ns, index.reverse.ns] id f
          (do let removed ← index.forward.eraseWithin id key value
              let _ ← index.reverse.eraseWithin id value key
              pure removed) fun c _ =>
          index.presentation.changes c (.erasing g (key, value)) ∧ True :=
      (TwoWayIndex.erase_acts h hf List.mem_cons_self (List.mem_cons_of_mem _ List.mem_cons_self)
        And.left hvalue).mono fun c _ hc => ⟨hc, trivial⟩
    exact .counted (.within hacts) (hcounting _)

/-- The removal of a key comes to none of its pairs being there, and counts them. -/
theorem removeAll_settles (h : index.Sane) (hf : index.presentation.views f g) :
    Settles (index.Admits (.removeAll key)) index.namespaces ctx f (index.removeAll ctx key)
      (fun c => index.presentation.changes c (.erasingAll g key))
      (Gives fun n => ∃ values, index.forward.ListsValues g key values ∧ n = values.length) := by
  cases index with
  | oneWay index =>
    exact .counted (.within fun id => Index.eraseAll_acts h hf List.mem_cons_self fun hl => hl)
      fun n db => ⟨n, rfl, engine_observe _ _ db, fun hn => hn⟩
  | twoWay index =>
    exact .counted
      (.within fun id => TwoWayIndex.eraseAll_acts h hf List.mem_cons_self
        (List.mem_cons_of_mem _ List.mem_cons_self) fun hl => hl)
      fun n db => ⟨n, rfl, engine_observe _ _ db, fun hn => hn⟩

/-! ### All calls -/

/-- A query writes nothing, and its answer is packed up. -/
theorem query_settles {α : Type} {program : IndexM α} {pack : α → IndexAnswer K V} {live' : Prop}
    {call : IndexCall K V} {answer : Except IndexError α → Prop}
    (h : Settles live' index.namespaces ctx f program (· = .nothing) answer)
    (hquery : call.changes g = .nothing) (hlive : live → live')
    (hanswer : ∀ outcome, answer outcome → call.Answered index g (outcome.map pack)) :
    Settles live index.namespaces ctx f (pack <$> program)
      (fun c => index.presentation.changes c (call.changes g)) (call.Answered index g) := by
  refine (h.map hanswer).mono hlive ?_ fun _ ho => ho
  rintro c rfl
  rw [hquery]
  exact index.presentation.nothing

/-- What comes of a call is what should. -/
theorem perform_settles (h : index.Sane) (hf : index.presentation.views f g) (call : IndexCall K V) :
    Settles (index.Admits call) index.namespaces ctx f (index.perform ctx call)
      (fun c => index.presentation.changes c (call.changes g)) (call.Answered index g) := by
  have hinv := h.forward
  have hshows := forward_shows hf
  have hns := index.forward_mem
  cases call with
  | add key value =>
    refine .map (add_settles h) ?_
    rintro _ ⟨_, rfl, -⟩
    rfl
  | remove key value =>
    refine .map (remove_settles h hf) ?_
    rintro _ ⟨_, rfl, -⟩
    rfl
  | removeAll key =>
    refine .map (removeAll_settles h hf) ?_
    rintro _ ⟨_, rfl, values, hvalues, rfl⟩
    exact ⟨values, hvalues, rfl⟩
  | findFirst key =>
    refine query_settles (Index.findFirst_settles hinv hshows hns) rfl (fun hl => hl) ?_
    rintro _ ⟨values, hvalues, rfl⟩
    exact ⟨values, hvalues, rfl⟩
  | find key =>
    refine query_settles (Index.find_settles hinv hshows hns) rfl (fun hl => hl) ?_
    rintro _ ⟨cursor, rfl, values, hvalues, hyields⟩
    exact ⟨cursor, values, rfl, hvalues, hyields⟩
  | scanKeys =>
    refine query_settles (Index.scanKeys_settles hinv hshows hns) rfl (fun hl => hl) ?_
    rintro _ ⟨cursor, rfl, pairs, hpairs, hyields⟩
    exact ⟨cursor, pairs, rfl, hpairs, hyields⟩
  | scanDistinctKeys =>
    refine query_settles (Index.scanDistinctKeys_settles hinv hshows hns) rfl (fun hl => hl) ?_
    rintro _ ⟨cursor, rfl, keys, hkeys, hyields⟩
    exact ⟨cursor, keys, rfl, hkeys, hyields⟩
  | scanValues =>
    refine query_settles (Index.scanValues_settles hinv hshows hns) rfl (fun hl => hl) ?_
    rintro _ ⟨cursor, rfl, pairs, hpairs, hyields⟩
    exact ⟨cursor, pairs, rfl, hpairs, hyields⟩
  | count =>
    refine query_settles (Index.count_settles hinv hshows hns) rfl (fun hl => hl) ?_
    rintro _ ⟨_, rfl, pairs, hpairs, rfl⟩
    exact ⟨pairs, hpairs, rfl⟩
  | countKey key =>
    refine query_settles (Index.countKey_settles hinv hshows hns) rfl (fun hl => hl) ?_
    rintro _ ⟨_, rfl, values, hvalues, rfl⟩
    exact ⟨values, hvalues, rfl⟩
  | findByValue value =>
    cases index with
    | oneWay index =>
      -- no half keeps the values, and the engine is not even asked
      intro db hsound hv
      refine ⟨.refl _, fun _ _ => ⟨.nothing, index.presentation.nothing, ?_⟩, fun err herr => ?_,
        fun _ _ _ => rfl⟩
      · rw [Ledger.write_nothing]
        rfl
      · cases herr
    | twoWay index =>
      have hmem : index.reverse.ns ∈ (twoWay index).namespaces :=
        List.mem_cons_of_mem _ List.mem_cons_self
      have hfind : Settles (index.reverse.codec.Fits value) (twoWay index).namespaces ctx f
          (index.reverse.find ctx value) (· = .nothing) (Gives fun cursor => ∃ keys,
            index.reverse.ListsValues (g ∘ Prod.swap) value keys ∧ cursor.Yields keys) :=
        Index.find_settles h.reverse hf.2 hmem
      refine query_settles hfind rfl (fun hl => hl index.reverse rfl) ?_
      rintro _ ⟨cursor, rfl, keys, hkeys, hyields⟩
      exact ⟨cursor, keys, rfl, hkeys, hyields⟩

end AnyIndex

end Writing

end SecondaryIndex
