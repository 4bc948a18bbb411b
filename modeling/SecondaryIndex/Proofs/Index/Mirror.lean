import SecondaryIndex.Codec.Lemmas
import SecondaryIndex.Proofs.Index.History

/-!
# The halves of a two-way index mirror each other

A two-way index stores every pair twice, in two namespaces and in two layouts. `TwoWayIndex.Mirrored`
says of a view that its two halves hold the same pairs, and nothing but pairs. `Database.Reaches.mirrored`
is the main result: along every run whose writes to the two namespaces are calls on the index, in which no
transaction was committed that had seen a call fail, the halves mirror each other in what is committed
and in what every open transaction sees that has seen none fail. So a value leads to exactly those keys
that lead to it. Only calls matter here that have failed after they had written something.

Both halves are read off one set of pairs, the one that the history leads to. What an open transaction
sees is that set with the writes of the transaction applied, so that it does not matter what others
have committed since the transaction was begun.
-/

namespace SecondaryIndex

variable {K V : Type}

namespace Index

variable {index : Index K V} {f : Place → Option Bytes} {g : K × V → Option Unit} {key : K}
  {value : V} {db : Database} {ctx : Context}

/-- A value is found under a key if the cursor over the values of the key yields it. -/
def Finds (index : Index K V) (db : Database) (ctx : Context) (key : K) (value : V) : Prop :=
  ∃ cursor values, ((index.find ctx key).run db).1 = .ok cursor ∧ cursor.Yields values ∧
    value ∈ values

/-- Only keys that fit are looked up. -/
theorem fits_of_find {cursor : Cursor V} (h : ((index.find ctx key).run db).1 = .ok cursor) :
    index.codec.Fits key := by
  have hrun := run_keyRange index key db
  cases hspan : index.codec.span key with
  | ok span => exact EntryCodec.fits_of_span hspan
  | error err =>
    rw [hspan] at hrun
    unfold find at h
    rw [Program.run_bind_error hrun] at h
    cases h

/-- What is found is what the context sees. -/
theorem finds_iff (hinv : index.codec.Inverts) (hsound : db.engine.Sound)
    (hf : index.Shows (db.engine.ledger.view ctx) g) (husable : db.engine.ledger.Usable ctx)
    {spaces : List Namespace} (hns : index.ns ∈ spaces) (hready : db.engine.Ready spaces) :
    index.Finds db ctx key value ↔ (g (key, value)).isSome := by
  have hanswer (hfits : index.codec.Fits key) := (find_settles hinv hf hns db hsound fun _ => rfl).live
    hfits husable hready
  constructor
  · rintro ⟨cursor, values, hrun, hyields, hmem⟩
    -- the cursor that was found is the one that is described, and it yields one list
    obtain ⟨cursor', hrun', values', hvalues, hyields'⟩ := hanswer (fits_of_find hrun)
    obtain rfl : cursor = cursor' := Except.ok.inj (hrun.symm.trans hrun')
    have hsame : values = values' :=
      Except.ok.inj ((hyields db hready.healthy).symm.trans (hyields' db hready.healthy))
    exact (hvalues.mem_iff value).1 (hsame ▸ hmem)
  · intro hsome
    obtain ⟨cursor, hrun, values, hvalues, hyields⟩ := hanswer (hf.fits _ hsome)
    exact ⟨cursor, values, hrun, hyields, (hvalues.mem_iff value).2 hsome⟩

end Index

namespace TwoWayIndex

variable {index : TwoWayIndex K V} {f : Place → Option Bytes} {g : K × V → Option Unit}

/-- Both halves of an index hold the same pairs in a view, and nothing but pairs. -/
structure Mirrored (index : TwoWayIndex K V) (view : Place → Option Bytes) : Prop where
  stored_iff : ∀ key value,
    index.forward.Stores view key value ↔ index.reverse.Stores view value key
  forward_only : ∀ physical, (view (index.forward.ns, physical)).isSome →
    ∃ key value, index.forward.codec.encode key value = .ok physical
  reverse_only : ∀ physical, (view (index.reverse.ns, physical)).isSome →
    ∃ key value, index.reverse.codec.encode value key = .ok physical

/-- Halves that present one set of pairs mirror each other. -/
theorem mirrored_of_views (h : index.Sane) (hf : index.presentation.views f g) :
    index.Mirrored f where
  stored_iff key value := by
    rw [hf.1.stores_iff h.forward, hf.2.stores_iff h.reverse]
    rfl
  forward_only p hp := by
    obtain ⟨kv, henc, -⟩ := hf.1.exists_pair h.forward hp
    exact ⟨kv.1, kv.2, henc⟩
  reverse_only p hp := by
    obtain ⟨vk, henc, -⟩ := hf.2.exists_pair h.reverse hp
    exact ⟨vk.2, vk.1, henc⟩

/-- The keys of a value are those under which it is found. -/
theorem exists_findByValue {db : Database} {ctx : Context} (h : index.Sane) (hsound : db.engine.Sound)
    (hf : index.presentation.views (db.engine.ledger.view ctx) g)
    (husable : db.engine.ledger.Usable ctx)
    (hready : db.engine.Ready [index.forward.ns, index.reverse.ns]) {value : V}
    (hfits : index.reverse.codec.Fits value) :
    ∃ cursor keys, ((index.findByValue ctx value).run db).1 = .ok cursor ∧ cursor.Yields keys ∧
      keys.Pairwise (index.reverse.codec.values.encode · < index.reverse.codec.values.encode ·) ∧
      ∀ key, key ∈ keys ↔ index.forward.Finds db ctx key value := by
  have hforward : index.forward.ns ∈ [index.forward.ns, index.reverse.ns] := List.mem_cons_self
  have hreverse : index.reverse.ns ∈ [index.forward.ns, index.reverse.ns] :=
    List.mem_cons_of_mem _ List.mem_cons_self
  -- the keys of a value are its values in the reverse half, which holds the same pairs
  obtain ⟨cursor, hrun, keys, hkeys, hyields⟩ :=
    (Index.find_settles h.reverse hf.2 hreverse db hsound fun _ => rfl).live hfits husable hready
  refine ⟨cursor, keys, hrun, hyields, hkeys.sorted, fun key => ?_⟩
  rw [hkeys.mem_iff, Index.finds_iff h.forward hsound hf.1 husable hforward hready]
  rfl

end TwoWayIndex

section Runs

variable {name : String} {forwardNs reverseNs : Namespace} {keys : Codec K} {values : Codec V}
  {indexOptions : IndexOptions} {options : StoreOptions} {history : DatabaseHistory K V}
  {db : Database}

/-- Wherever a run leads in which no transaction was committed that had seen a call on the index fail,
the halves of a two-way index mirror each other, in what is committed and in what every open
transaction sees that has seen none fail. A call that has failed and left no writes may be disregarded.
A value then leads to the keys that lead to it, each of them once and in the order of their bytes. -/
theorem Database.Reaches.mirrored (hkeys : keys.Inverts) (hvalues : values.Inverts)
    (hapart : forwardNs ≠ reverseNs)
    (reached : Database.Reaches
      (.twoWay (.create name forwardNs reverseNs keys values indexOptions)) options history db)
    (hclean : history.Clean) (ctx : Context) (husable : db.engine.ledger.Usable ctx)
    (htrusted : ∀ id, ctx = some id → ¬ history.Tainted id) :
    (TwoWayIndex.create name forwardNs reverseNs keys values indexOptions).Mirrored
        (db.engine.ledger.view ctx) ∧
      (db.engine.Ready [forwardNs, reverseNs] → ∀ value, (values.encode value).length < 2 ^ 32 →
        ∃ cursor listed,
          (((TwoWayIndex.create name forwardNs reverseNs keys values indexOptions).findByValue
            ctx value).run db).1 = .ok cursor ∧
          cursor.Yields listed ∧
          listed.Pairwise (keys.encode · < keys.encode ·) ∧
          ∀ key, key ∈ listed ↔
            (TwoWayIndex.create name forwardNs reverseNs keys values indexOptions).forward.Finds
              db ctx key value) := by
  classical
  have hsane : (TwoWayIndex.create name forwardNs reverseNs keys values indexOptions).Sane :=
    TwoWayIndex.sane_create hkeys hvalues hapart
  have hpresents := reached.presents hsane hclean
  -- both halves are read off the pairs that the history leads to, as the context sees them
  have hviews := hpresents.holds.view htrusted
  refine ⟨TwoWayIndex.mirrored_of_views hsane hviews, fun hready value hlength => ?_⟩
  have hfits : (values.encode value).length ≤ Layout.wide.keyLimit := Nat.le_pred_of_lt hlength
  exact TwoWayIndex.exists_findByValue hsane hpresents.sound hviews husable hready hfits

end Runs

/-- An open transaction that has moved a value from the key that another one had committed it under. -/
theorem mirrored_in_open_transaction :
    ∃ history db,
      Database.Reaches (.twoWay (.create "pairs" "forward" "reverse" .unsigned .unsigned {})) {}
        history db ∧
      history.Clean ∧ db.engine.ledger.Usable (some 1) ∧ ¬ history.Tainted 1 ∧
      (TwoWayIndex.create "pairs" "forward" "reverse" .unsigned .unsigned {}).Mirrored
        (db.engine.ledger.view (some 1)) ∧
      ∃ cursor listed,
        (((TwoWayIndex.create "pairs" "forward" "reverse" .unsigned .unsigned {}).findByValue
          (some 1) 10).run db).1 = .ok cursor ∧
        cursor.Yields listed ∧ ∀ key, key ∈ listed ↔
          (TwoWayIndex.create "pairs" "forward" "reverse" .unsigned .unsigned {}).forward.Finds
            db (some 1) key 10 := by
  obtain ⟨history, db, reached, hclean, htrusted, hpending, hready⟩ : ∃ history db,
      Database.Reaches (.twoWay (.create "pairs" "forward" "reverse" .unsigned .unsigned {})) {}
        history db ∧
      history.Clean ∧ ¬ history.Tainted 1 ∧ (db.engine.ledger.pending 1).isSome = true ∧
      db.engine.Ready ["forward", "reverse"] := by
    have hempty : Database.Reaches
        (.twoWay (TwoWayIndex.create "pairs" "forward" "reverse" .unsigned .unsigned {})) {} []
        (.ofOptions {}) := .start
    have hspaces := (hempty.store (.createNamespace "forward") (by rintro _ ⟨⟩)).store
      (.createNamespace "reverse") (by rintro _ ⟨⟩)
    have hbegun := (hspaces.store .begin (by rintro _ ⟨⟩)).store .begin (by rintro _ ⟨⟩)
    have hcommitted := (hbegun.index (some 0) (.add 1 10)).store (.commit 0) (by rintro _ ⟨⟩)
    have hmoved := (hcommitted.index (some 1) (.add 2 10)).index (some 1) (.remove 1 10)
    refine ⟨_, _, hmoved, by decide +kernel, by decide +kernel, by decide +kernel, ?_⟩
    exact ⟨by with_unfolding_all rfl, by decide +kernel⟩
  have husable : db.engine.ledger.Usable (some 1) := hpending
  have hcontext : ∀ id, some 1 = some id → ¬ history.Tainted id := by
    rintro id ⟨⟩
    exact htrusted
  obtain ⟨hmirrored, hlookup⟩ := reached.mirrored Codec.unsigned_inverts Codec.unsigned_inverts
    (by decide) hclean (some 1) husable hcontext
  obtain ⟨cursor, listed, hrun, hyields, -, hlisted⟩ := hlookup hready 10 (by decide)
  exact ⟨history, db, reached, hclean, husable, htrusted, hmirrored, cursor, listed, hrun, hyields,
    hlisted⟩

end SecondaryIndex
