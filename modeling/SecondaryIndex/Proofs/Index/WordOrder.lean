import SecondaryIndex.Proofs.Codec.Words
import SecondaryIndex.Proofs.Index.Unhindered

/-!
# Words in numeric order

An index lists the values of a key by their bytes, and its distinct keys by the length of their bytes
first. Words are all stored in eight bytes that compare as the words do, so an index of words lists
them in ascending order: values that are words come so from every key (`Index.find_ascends`), and keys
that are words come so from the cursor over distinct keys (`Index.scanDistinctKeys_ascends`).
-/

namespace SecondaryIndex

variable {α K V : Type}

/-- A program opens a cursor over some items in ascending order. It does open one if nothing is in its
way, and every cursor that it opens yields the items and answers as a cursor over their list. -/
def IndexM.Ascends [LT α] (live : Prop) (program : IndexM (Cursor α)) (db : Database)
    (items : α → Prop) (course : List α → Course α) : Prop :=
  (live → ∃ cursor, (program.run db).1 = .ok cursor) ∧
    ∀ cursor db', program.run db = (.ok cursor, db') →
      ∃ list, Lists (· < ·) items list ∧ cursor.Yields list ∧ cursor.Walks db' (course list)

namespace Index

open Program IndexM

variable {index : Index K V} {ctx : Context} {db : Database}

/-- Keys that are words stand in the order of their numbers. -/
theorem keyBefore_iff [LT K] (hwords : index.codec.keys.StoresWords) (a b : K) :
    index.codec.KeyBefore a b ↔ a < b := by
  unfold EntryCodec.KeyBefore
  rw [hwords.length_encode, hwords.length_encode, hwords.lt_iff]
  simp

/-- A cursor is opened where nothing is in the way. -/
theorem exists_openCursor (hsound : db.engine.Sound) (husable : db.engine.ledger.Usable ctx)
    (hready : db.engine.Ready [index.ns]) (range : Range) (decode : Bytes → Except EncodingError α)
    (seeking : Seeking α) (stride : Stride) :
    ∃ cursor, ((index.openCursor ctx range decode seeking stride).run db).1 = .ok cursor := by
  have hsettles : Settles True [index.ns] ctx (db.engine.ledger.view ctx)
      (index.openCursor ctx range decode seeking stride) (· = .nothing)
      (Gives (index.Opened (db.engine.ledger.view ctx) range decode seeking stride)) :=
    openCursor_settles List.mem_cons_self range decode seeking stride
  obtain ⟨cursor, hcursor, -⟩ := (hsettles db hsound fun _ => rfl).live trivial husable hready
  exact ⟨cursor, hcursor⟩

section

variable (hsound : db.engine.Sound) (honly : index.OnlyEntries (db.engine.ledger.view ctx))

include hsound honly

/-- The values of a key are listed in ascending order, if they are words. -/
theorem find_ascends [LT V] (hinv : index.codec.Inverts)
    (hwords : index.codec.values.StoresWords) (key : K) :
    Ascends (index.codec.Fits key ∧ db.engine.ledger.Usable ctx ∧ db.engine.Ready [index.ns])
      (index.find ctx key) db (index.Stores (db.engine.ledger.view ctx) key)
      index.codec.valueCourse := by
  constructor
  · rintro ⟨hfits, husable, hready⟩
    obtain ⟨lower, upper, hspan⟩ := EntryCodec.exists_span hfits
    unfold find
    rw [run_bind_ok (run_keyRange_ok hspan)]
    exact exists_openCursor hsound husable hready _ _ _ _
  · intro cursor db' hrun
    obtain ⟨values, ⟨hsorted, hmem⟩, hfollows⟩ := find_follows hinv honly hrun
    have hascending : values.Pairwise (· < ·) := hsorted.imp (hwords.lt_iff _ _).1
    exact ⟨values, ⟨hascending, hmem⟩, hfollows.yields, hfollows.walks⟩

/-- The distinct keys are listed in ascending order, if they are words. -/
theorem scanDistinctKeys_ascends [LT K] (hinv : index.codec.keys.Inverts)
    (hwords : index.codec.keys.StoresWords) :
    Ascends (db.engine.ledger.Usable ctx ∧ db.engine.Ready [index.ns])
      (index.scanDistinctKeys ctx) db
      (fun key => ∃ value, index.Stores (db.engine.ledger.view ctx) key value)
      index.codec.keyCourse := by
  constructor
  · rintro ⟨husable, hready⟩
    exact exists_openCursor hsound husable hready _ _ _ _
  · intro cursor db' hrun
    obtain ⟨keys, number, ⟨hsorted, hmem⟩, hfollows⟩ :=
      (opened_of_openCursor hrun).follows_groups honly hinv
    have hascending : keys.Pairwise (· < ·) := hsorted.imp (keyBefore_iff hwords _ _).1
    exact ⟨keys, ⟨hascending, hmem⟩, hfollows.yields, hfollows.walks⟩

end

end Index

/-! ### Along a run -/

/-- The codecs of words are order isomorphisms onto the eight-byte strings, and the order carries over
to what an index lists. Wherever a run leads in which the namespaces of an index were written through
the index or its halves, in every context the values of a key are listed in ascending order if they
are words, and so are the distinct keys. -/
theorem Database.Runs.words_exact :
    Codec.unsigned.StoresWords ∧ Codec.signed.StoresWords ∧
    ∀ {K V A B : Type} {index : AnyIndex K V} {half : Index A B} {options : StoreOptions}
      {db : Database} (ctx : Context),
      index.Sane → Database.Runs (Action.Heeds index) (.ofOptions options) db →
      index.Half A B half →
      (∀ [LT B] (key : A), half.codec.values.StoresWords →
        IndexM.Ascends
          (half.codec.Fits key ∧ db.engine.ledger.Usable ctx ∧ db.engine.Ready [half.ns])
          (half.find ctx key) db (half.Stores (db.engine.ledger.view ctx) key)
          half.codec.valueCourse) ∧
      (∀ [LT A], half.codec.keys.StoresWords →
        IndexM.Ascends (db.engine.ledger.Usable ctx ∧ db.engine.Ready [half.ns])
          (half.scanDistinctKeys ctx) db
          (fun key => ∃ value, half.Stores (db.engine.ledger.view ctx) key value)
          half.codec.keyCourse) := by
  refine ⟨Codec.unsigned_storesWords, Codec.signed_storesWords, ?_⟩
  intro K V A B index half options db ctx hsane runs isHalf
  have hsound : db.engine.Sound := runs.sound (Engine.sound_ofOptions options)
  have part : index.Part A B (.oneWay half) := .half isHalf
  have hinv : half.codec.Inverts := part.sane hsane
  have honly : half.OnlyEntries (db.engine.ledger.view ctx) :=
    (part.onlyEntries (hsane.onlyEntries fun hx => runs.within_of_heeds.view hx)).1
  constructor
  · intro _ key hwords
    exact Index.find_ascends hsound honly hinv hwords key
  · intro _ hwords
    exact Index.scanDistinctKeys_ascends hsound honly hinv.1 hwords

/-- The values of a key on both sides of zero. -/
theorem Database.Runs.words_exact_across_zero :
    ∃ (index : AnyIndex UInt64 Int64) (db db' : Database) (cursor : Cursor Int64)
      (values : List Int64),
      (index.forward.find none 1).run db = (.ok cursor, db') ∧ cursor.Yields values ∧
      values.Pairwise (· < ·) ∧ -5 ∈ values ∧ 3 ∈ values := by
  let index : AnyIndex UInt64 Int64 :=
    .twoWay (.create "pairs" "forward" "reverse" .unsigned .signed {})
  obtain ⟨db, runs, hready, hpositive, hnegative⟩ : ∃ db,
      Database.Runs (Action.Heeds index) (.ofOptions {}) db ∧
        db.engine.Ready [index.forward.ns] ∧
        index.forward.Stores (db.engine.ledger.view none) 1 3 ∧
        index.forward.Stores (db.engine.ledger.view none) 1 (-5) := by
    have hempty : Database.Runs (Action.Heeds index) (.ofOptions {}) (.ofOptions {}) := .refl
    have hspaces := (hempty.step (.store (.createNamespace "forward")) (.elsewhere _ nofun)).step
      (.store (.createNamespace "reverse")) (.elsewhere _ nofun)
    have hadded := (hspaces.step _ (.own .whole none (.call (.add 1 3)))).step _
      (.own .whole none (.call (.add 1 (-5))))
    exact ⟨_, hadded,
      ⟨FaultPlan.eq_healthy fun call => by cases call <;> decide +kernel, by decide +kernel⟩,
      by decide +kernel, by decide +kernel⟩
  have hsane : index.Sane :=
    TwoWayIndex.sane_create Codec.unsigned_inverts Codec.signed_inverts (by decide)
  obtain ⟨-, hsigned, hlisted⟩ := words_exact
  obtain ⟨hopens, hall⟩ := (hlisted none hsane runs .forward).1 1 hsigned
  have hfits : index.forward.codec.Fits 1 :=
    show (Codec.unsigned.encode 1).length ≤ index.forward.codec.layout.keyLimit by decide +kernel
  obtain ⟨cursor, hcursor⟩ := hopens ⟨hfits, trivial, hready⟩
  rcases hrun : (index.forward.find none 1).run db with ⟨outcome, db'⟩
  rw [hrun] at hcursor
  cases hcursor
  obtain ⟨values, hvalues, hyields, -⟩ := hall cursor db' hrun
  exact ⟨index, db, db', cursor, values, hrun, hyields, hvalues.sorted,
    (hvalues.mem_iff _).2 hnegative, (hvalues.mem_iff _).2 hpositive⟩

end SecondaryIndex
