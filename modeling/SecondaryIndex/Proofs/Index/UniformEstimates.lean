import SecondaryIndex.Proofs.Engine.Mentions
import SecondaryIndex.Proofs.Index.Estimates
import SecondaryIndex.Proofs.Index.Upheld

/-!
# Estimates of records of one size

If all records of a range are of one size, the average of the recent ones is that size, so the older ones are
counted as well, and an estimate is the number of the physical records (`estimateEntries_of_uniform`). It could
only be cut off by the greatest word, and it never is: records of size two or more are too few, and of size one
there are few because there are few keys that are so short (`SortedMap.size_le_of_short`).

A live entry is a physical record, but not the other way round. What is counted beyond the live ones are the
tombstones, and the older records that have a recent one over them (`Table.encard_records`).

That all records of a range are of one size is so of every index with keys and values of fixed length. Its
namespace holds nothing but its entries and removals of its entries, in every layer and whether or not they are
seen (`Database.Runs.covered`).
-/

namespace SecondaryIndex

variable {K V : Type}

/-! ### Counting the older records -/

/-- Keys of one byte at most are few. -/
theorem SortedMap.size_le_of_short {α : Type} {m : SortedMap Bytes α}
    (h : ∀ key, (m.get? key).isSome → key.length ≤ 1) : m.size ≤ 257 := by
  -- such a key is told by its first byte, if it has one
  let first (key : Bytes) : Option (Fin UInt8.size) := key.head?.map UInt8.toFin
  have hinjective : ∀ a ∈ m.keys, ∀ b ∈ m.keys, first a = first b → a = b := by
    intro a ha b hb hfirst
    have hshort (key : Bytes) (hkey : key ∈ m.keys) : key = key.head?.toList := by
      have hlength := h key (m.mem_keys_iff.1 hkey)
      match key, hlength with
      | [], _ => rfl
      | [byte], _ => rfl
    have hhead : a.head? = b.head? :=
      Option.map_injective (fun x y hxy => UInt8.toFin_inj.1 hxy) hfirst
    rw [hshort a ha, hshort b hb, hhead]
  have hnodup : (m.keys.map first).Nodup := m.nodup_keys.map_on hinjective
  have hcard := hnodup.length_le_card
  rw [List.length_map, Fintype.card_option, Fintype.card_fin, keys, List.length_map] at hcard
  exact hcard

/-- Records of one size weigh together as much as their number tells. -/
theorem Store.weight_of_uniform {store : Store} {records : SortedMap Bytes Bytes} {size : Nat}
    (h : ∀ key value, records.get? key = some value → store.sizeOfRecord key value = size) :
    store.weight records = records.size * size := by
  have hsizes : records.entries.map (fun e => store.sizeOfRecord e.1 e.2) = records.entries.map fun _ => size :=
    List.map_congr_left fun e he => h e.1 e.2 (SortedMap.get?_eq_some_iff.2 he)
  unfold weight
  rw [hsizes, List.map_const', List.sum_replicate, smul_eq_mul, SortedMap.size]

/-- What is weighed of one size is counted. -/
theorem estimateEntries_of_uniform {fallbackSize older : UInt64} {recent : Tally} {size number : Nat}
    (hsize : 1 ≤ size) (hcount : 1 ≤ recent.count) (hrecent : recent.size.toNat = recent.count * size)
    (holder : older.toNat = number * size) (hmax : recent.count + number < 2 ^ 64) :
    estimateEntries fallbackSize recent older = recent.count + number := by
  have haverage : max 1 (recent.size.toNat / recent.count) = size := by
    rw [hrecent, Nat.mul_div_cancel_left _ hcount]
    exact Nat.max_eq_right hsize
  have hnumber : older.toNat / size = number := by
    rw [holder, Nat.mul_div_cancel _ hsize]
  have hleast : min maxEstimate (recent.count + number) = recent.count + number :=
    Nat.min_eq_right (Nat.le_of_lt_succ hmax)
  have hsome : 0 < recent.count := hcount
  unfold estimateEntries
  rw [if_pos hsome]
  simp only [haverage, hnumber, hleast]

/-! ### Physical records and live ones -/

namespace Table

variable (table : Table) (range : Range)

/-- The keys of a range with a recent record. -/
def recentKeys : Set Bytes := {key | range.contains key = true ∧ (table.memtable.get? key).isSome}

/-- The keys of a range with a flushed record. -/
def olderKeys : Set Bytes := {key | range.contains key = true ∧ (table.flushed.get? key).isSome}

/-- The keys of a range with a live record. -/
def liveKeys : Set Bytes := {key | range.contains key = true ∧ (table.get? key).isSome}

/-- The keys of a range with a tombstone. -/
def tombstones : Set Bytes := {key | range.contains key = true ∧ table.memtable.get? key = some none}

/-- Physical records are live records, tombstones, and records that are shadowed. -/
theorem encard_records : (table.recentKeys range).encard + (table.olderKeys range).encard =
    (table.liveKeys range).encard +
      ((table.tombstones range).encard + (table.recentKeys range ∩ table.olderKeys range).encard) := by
  -- a key with some record shows it, or has a tombstone
  have hunion : table.recentKeys range ∪ table.olderKeys range =
      table.liveKeys range ∪ table.tombstones range := by
    ext key
    simp only [recentKeys, olderKeys, liveKeys, tombstones, Set.mem_union, Set.mem_ofPred_eq, get?,
      ← and_or_left]
    refine and_congr_right fun _ => ?_
    cases table.memtable.get? key with
    | none => simp
    | some slot => cases slot <;> simp
  have hapart : Disjoint (table.liveKeys range) (table.tombstones range) := by
    refine Set.disjoint_left.2 fun key hlive hdead => ?_
    have hsome : (table.get? key).isSome := hlive.2
    rw [get?, hdead.2] at hsome
    cases hsome
  calc (table.recentKeys range).encard + (table.olderKeys range).encard
      = (table.recentKeys range ∪ table.olderKeys range).encard +
          (table.recentKeys range ∩ table.olderKeys range).encard :=
        (Set.encard_union_add_encard_inter _ _).symm
    _ = (table.liveKeys range).encard + (table.tombstones range).encard +
          (table.recentKeys range ∩ table.olderKeys range).encard := by
        rw [hunion, Set.encard_union_eq hapart]
    _ = _ := add_assoc _ _ _

end Table

/-- The keys of a range under which a store shows a record. -/
def Store.liveKeys (store : Store) (ns : Namespace) (range : Range) : Set Bytes :=
  {key | range.contains key = true ∧ (store.read (ns, key)).isSome}

theorem Store.liveKeys_eq {store : Store} {ns : Namespace} {table : Table}
    (h : store.tables.get? ns = some table) (range : Range) : store.liveKeys ns range = table.liveKeys range := by
  ext key
  simp only [liveKeys, Table.liveKeys, Set.mem_ofPred_eq, read_of_table (x := (ns, key)) h]

/-- All records of a range are of one size, be they recent, tombstones among them, or flushed. -/
structure Store.Uniform (store : Store) (table : Table) (range : Range) (size : Nat) : Prop where
  recent : ∀ key slot, range.contains key = true → table.memtable.get? key = some slot →
    store.sizeOfRecord key (slot.getD []) = size
  older : ∀ key value, range.contains key = true → table.flushed.get? key = some value →
    store.sizeOfRecord key value = size

namespace Store.Uniform

variable {store : Store} {table : Table} {range : Range} {size : Nat}

/-- The layers of a range weigh as much as the numbers of their records tell. -/
theorem weights (h : store.Uniform table range size) :
    store.weight ((table.memtable.within range).mapValues fun slot => slot.getD []) =
        (table.memtable.within range).size * size ∧
      store.weight (table.flushed.within range) = (table.flushed.within range).size * size := by
  constructor
  · rw [← SortedMap.size_mapValues (table.memtable.within range) fun slot => slot.getD []]
    refine weight_of_uniform fun key value hvalue => ?_
    rw [SortedMap.get?_mapValues, SortedMap.get?_within] at hvalue
    obtain ⟨slot, hslot, rfl⟩ := Option.map_eq_some_iff.1 hvalue
    split at hslot
    · next hcontains => exact h.recent key slot hcontains hslot
    · cases hslot
  · refine weight_of_uniform fun key value hvalue => ?_
    rw [SortedMap.get?_within] at hvalue
    split at hvalue
    · next hcontains => exact h.older key value hcontains hvalue
    · cases hvalue

/-- Where the sums are words, no estimate is cut off. -/
theorem lt_of_fits (h : store.Uniform table range size) (hsize : 1 ≤ size) (hfits : store.Fits table range) :
    (table.memtable.within range).size + (table.flushed.within range).size < 2 ^ 64 := by
  obtain ⟨hrecent, holder⟩ := Store.fits_iff.1 hfits
  rw [h.weights.1] at hrecent
  rw [h.weights.2] at holder
  by_cases hone : size = 1
  · -- a record of size one has a key of at most one byte
    subst hone
    have hshort (key : Bytes) (value : Bytes) (hvalue : store.sizeOfRecord key value = 1) : key.length ≤ 1 := by
      unfold sizeOfRecord at hvalue
      omega
    have hfew : (table.memtable.within range).size ≤ 257 := by
      refine SortedMap.size_le_of_short fun key hkey => ?_
      obtain ⟨slot, hslot⟩ := Option.isSome_iff_exists.1 hkey
      rw [SortedMap.get?_within] at hslot
      split at hslot
      · next hcontains => exact hshort key _ (h.recent key slot hcontains hslot)
      · cases hslot
    have hfew' : (table.flushed.within range).size ≤ 257 := by
      refine SortedMap.size_le_of_short fun key hkey => ?_
      obtain ⟨value, hvalue⟩ := Option.isSome_iff_exists.1 hkey
      rw [SortedMap.get?_within] at hvalue
      split at hvalue
      · next hcontains => exact hshort key _ (h.older key value hcontains hvalue)
      · cases hvalue
    omega
  · -- of size two or more there are at most half as many as there are words
    have htwo : 2 ≤ size := by omega
    have hhalf (n : Nat) (hn : n * size < 2 ^ 64) : n * 2 < 2 ^ 64 :=
      Nat.lt_of_le_of_lt (Nat.mul_le_mul_left n htwo) hn
    have hrecent' := hhalf _ hrecent
    have holder' := hhalf _ holder
    omega

end Store.Uniform

theorem SortedMap.encard_within {α : Type} (m : SortedMap Bytes α) (range : Range) :
    {key | range.contains key = true ∧ (m.get? key).isSome}.encard = (m.within range).size := by
  rw [← encard_isSome]
  congr 1
  ext key
  simp only [Set.mem_ofPred_eq, get?_within]
  split <;> simp [*]

/-- An estimate is the number of the recent records of a range and the flushed ones, taken together. -/
theorem Index.estimateRange_of_uniform {index : Index K V} {db : Database} {table : Table} {range : Range}
    {size n : Nat} (htable : db.engine.store.tables.get? index.ns = some table) (hsize : 1 ≤ size)
    (huniform : db.engine.store.Uniform table range size) (hfits : db.engine.store.Fits table range)
    (hrecent : (table.recentKeys range).Nonempty)
    (h : ((index.estimateRange range).run db).1 = .ok n) :
    n = (table.recentKeys range).encard + (table.olderKeys range).encard := by
  obtain ⟨recent, older, htally, hweighed, rfl⟩ := of_estimateRange h
  obtain ⟨-, hcount, hsum⟩ := (Store.recentTally_eq_ok_iff htable).1 htally
  obtain ⟨-, hsum'⟩ := (Store.olderSize_eq_ok_iff htable).1 hweighed
  rw [huniform.weights.1, ← hcount] at hsum
  rw [huniform.weights.2] at hsum'
  have hsome : 1 ≤ recent.count := by
    refine Nat.one_le_iff_ne_zero.2 fun hzero => ?_
    obtain ⟨key, hcontains, hkey⟩ := hrecent
    have hnone := SortedMap.size_eq_zero_iff.1 (hcount.symm.trans hzero) key
    rw [SortedMap.get?_within, if_pos hcontains] at hnone
    rw [hnone] at hkey
    cases hkey
  have hfew := huniform.lt_of_fits hsize hfits
  rw [← hcount] at hfew
  rw [estimateEntries_of_uniform hsize hsome hsum hsum' hfew, hcount, Table.recentKeys, Table.olderKeys,
    SortedMap.encard_within, SortedMap.encard_within]
  exact Nat.cast_add _ _

/-! ### What an index mentions -/

/-- A place has an entry of a half of an index. -/
def AnyIndex.HasEntry (index : AnyIndex K V) (x : Place) : Prop :=
  (x.1 = index.forward.ns ∧ index.forward.Entry x.2) ∨
    ∃ reverse, index.reverse? = some reverse ∧ x.1 = reverse.ns ∧ reverse.Entry x.2

/-- What an index has to itself are its entries, with nothing under them, and removals of its entries. -/
def AnyIndex.Covers (index : AnyIndex K V) : Allowance := fun x slot =>
  x.1 ∈ index.namespaces → index.HasEntry x ∧ slot.getD [] = []

/-- All that a database mentions is allowed. -/
def Database.Mentioning (allowed : Allowance) (db : Database) : Prop :=
  ∀ x slot, db.engine.Mentions x slot → allowed x slot

theorem lasting_mentioning (allowed : Allowance) : Lasting allowed (Database.Mentioning allowed) where
  perform {db} call hdb hwrite x slot hmentions := by
    rcases Engine.mentions_perform db.engine call hmentions with hbefore | hwritten
    · exact hdb x slot hbefore
    · exact hwrite x slot hwritten
  drawn {db} hdb x slot hmentions :=
    hdb x slot (Engine.Mentions.of_idles (Engine.idles_drawn db.engine .status) hmentions)
  counted {db count} id? hdb _ x slot hmentions := by
    rw [AnyIndex.engine_observe] at hmentions
    exact hdb x slot hmentions

/-- An index may write its entries, and remove what is listed in its namespaces. -/
theorem AnyIndex.permits_own (index : AnyIndex K V) :
    index.Permits index.Covers (Database.Mentioning index.Covers) := by
  have hlisted {ns : Namespace} {db : Database} {id : TransactionId} {range : Range} {keys : List Bytes}
      (hdb : db.Mentioning index.Covers) (hkeys : db.engine.keysOf id ns range = .ok keys) (key : Bytes)
      (hkey : key ∈ keys) : index.Covers (ns, key) none := by
    obtain ⟨value, hmentions⟩ := Engine.mentions_of_keysOf hkeys hkey
    exact fun hmem => ⟨(hdb _ _ hmentions hmem).1, rfl⟩
  refine ⟨⟨fun hentry _ => ⟨.inl ⟨rfl, hentry⟩, rfl⟩, fun hentry _ => ⟨.inl ⟨rfl, hentry⟩, rfl⟩, hlisted⟩,
    fun reverse hreverse => ⟨fun hentry _ => ⟨.inr ⟨reverse, hreverse, rfl, hentry⟩, rfl⟩,
      fun hentry _ => ⟨.inr ⟨reverse, hreverse, rfl, hentry⟩, rfl⟩, hlisted⟩⟩

/-- What another index writes elsewhere does not matter. -/
theorem AnyIndex.permits_elsewhere {A B : Type} (index : AnyIndex K V) {asked : AnyIndex A B}
    (h : ∀ ns ∈ asked.namespaces, ns ∉ index.namespaces) :
    asked.Permits index.Covers (Database.Mentioning index.Covers) := by
  have haway {A B : Type} {half : Index A B} (hns : half.ns ∈ asked.namespaces) :
      half.Permits index.Covers (Database.Mentioning index.Covers) :=
    ⟨fun _ hmem => absurd hmem (h _ hns), fun _ hmem => absurd hmem (h _ hns),
      fun _ _ _ _ hmem => absurd hmem (h _ hns)⟩
  exact ⟨haway (Half.forward.mem), fun reverse hreverse => haway (Half.reverse reverse hreverse).mem⟩

theorem Action.Respects.covered {index : AnyIndex K V} {action : Action} (h : action.Respects index)
    {db : Database} (hdb : db.Mentioning index.Covers) : (action.run db).Mentioning index.Covers := by
  have hlasting := lasting_mentioning index.Covers
  have hpermits {A B : Type} {asked : AnyIndex A B} {ctx : Context} {operation : IndexOperation A B}
      (h : Action.Respects index (.index asked ctx operation)) :
      asked.Permits index.Covers (Database.Mentioning index.Covers) := by
    cases h with
    | own => exact index.permits_own
    | elsewhere _ helsewhere => exact index.permits_elsewhere helsewhere
  rcases action.idles db with ⟨call, rfl⟩ | ⟨A, B, asked, ctx, operation, rfl⟩ | ⟨plan, rfl⟩ | hidles
  · refine hlasting.perform call hdb fun x slot hwrite hmem => ?_
    cases h with
    | elsewhere _ helsewhere =>
      refine absurd hmem (helsewhere x.1 (Option.mem_toList.2 ?_))
      cases call <;> cases hwrite <;> rfl
  · refine (asked.operate_upholds ctx hlasting (hpermits h) ?_ operation db hdb).1
    intro db id? count hdb x slot hmentions
    rw [AnyIndex.engine_observe] at hmentions
    exact hdb x slot hmentions
  · intro x slot hmentions
    refine hdb x slot (hmentions.before (fun hstored => .stored hstored) fun _ _ => .inr)
  · exact fun x slot hmentions => hdb x slot (hmentions.of_idles hidles)

/-- In the namespaces of an index nothing is mentioned but its entries and removals of its entries, in whatever
layer, wherever a run leads in which they are written through the index only. -/
theorem Database.Runs.covered {index : AnyIndex K V} {options : StoreOptions} {db : Database}
    (runs : Database.Runs (Action.Respects index) (.ofOptions options) db) : db.Mentioning index.Covers := by
  induction runs with
  | refl =>
    intro x slot hmentions
    cases hmentions with
    | stored hstored =>
      obtain ⟨table, htable, -⟩ := hstored
      cases htable
    | pending hheld => cases hheld
  | step runs action permitted ih => exact permitted.covered ih

/-! ### Estimates of an index -/

/-- With keys and values of fixed length, entries have a fixed length. -/
theorem Index.Entry.length_eq {index : Index K V} {keyLength valueLength : Nat}
    (hkeys : ∀ key, (index.codec.keys.encode key).length = keyLength)
    (hvalues : ∀ value, (index.codec.values.encode value).length = valueLength) {physical : Bytes}
    (h : index.Entry physical) : physical.length = index.codec.layout.width + keyLength + valueLength := by
  obtain ⟨key, value, hencode⟩ := h
  obtain ⟨-, rfl⟩ := Layout.join_eq_ok_iff.1 hencode
  rw [List.length_append, List.length_append, BigEndian.length_ofNat, hkeys, hvalues]

/-- The entries of a half are where no other half has its own. -/
theorem AnyIndex.HasEntry.of_half {A B : Type} {index : AnyIndex K V} {half : Index A B}
    (hhalf : index.Half A B half)
    (hapart : ∀ reverse, index.reverse? = some reverse → reverse.ns ≠ index.forward.ns) {key : Bytes}
    (h : index.HasEntry (half.ns, key)) : half.Entry key := by
  rcases h with ⟨hns, hentry⟩ | ⟨reverse, hreverse, hns, hentry⟩
  · cases hhalf with
    | forward => exact hentry
    | reverse _ hkept => exact absurd hns (hapart _ hkept)
  · cases hhalf with
    | forward => exact absurd hns.symm (hapart _ hreverse)
    | reverse _ hkept =>
      rw [hreverse] at hkept
      cases hkept
      exact hentry

theorem Database.Runs.uniform {index : AnyIndex K V} {options : StoreOptions} {db : Database} {A B : Type}
    {half : Index A B} {table : Table} {keyLength valueLength : Nat}
    (runs : Database.Runs (Action.Respects index) (.ofOptions options) db) (hhalf : index.Half A B half)
    (hapart : ∀ reverse, index.reverse? = some reverse → reverse.ns ≠ index.forward.ns)
    (hkeys : ∀ key, (half.codec.keys.encode key).length = keyLength)
    (hvalues : ∀ value, (half.codec.values.encode value).length = valueLength)
    (htable : db.engine.store.tables.get? half.ns = some table) (range : Range) :
    db.engine.store.Uniform table range (half.codec.layout.width + keyLength + valueLength +
      db.engine.store.options.recordOverhead.toNat) := by
  -- every record is one of an entry of the half, with nothing under it
  have hsize {key : Bytes} {slot : Slot} (hmentions : table.Mentions key slot) :
      db.engine.store.sizeOfRecord key (slot.getD []) = half.codec.layout.width + keyLength + valueLength +
        db.engine.store.options.recordOverhead.toNat := by
    obtain ⟨hentry, hempty⟩ :=
      runs.covered (half.ns, key) slot (.stored ⟨table, htable, hmentions⟩) hhalf.mem
    unfold Store.sizeOfRecord
    rw [hempty, (hentry.of_half hhalf hapart).length_eq hkeys hvalues, List.length_nil, Nat.add_zero]
  exact ⟨fun key slot _ hrecent => hsize (.recent hrecent), fun key value _ holder => hsize (.older holder)⟩

/-- If all records in a range are of one size, some of them are recent and the sums are words, an estimate of the
range is the number of the recent records, tombstones among them, and of the flushed ones. So it is never below the
number of live entries, and beyond them it counts the tombstones and the flushed records whose keys are also among
the recent ones. That the records are of one size is so in every namespace that an index with keys and values of
fixed length has to itself, wherever a run leads. -/
theorem Index.estimate_of_uniform_sizes {A B : Type} {half : Index A B} {db : Database} {table : Table}
    (htable : db.engine.store.tables.get? half.ns = some table) :
    (∀ range size, 1 ≤ size → db.engine.store.Uniform table range size → db.engine.store.Fits table range →
      (table.recentKeys range).Nonempty →
      (db.engine.faults = .healthy → ∃ n, ((half.estimateRange range).run db).1 = .ok n) ∧
      ∀ n : Nat, ((half.estimateRange range).run db).1 = .ok n →
        n = (table.recentKeys range).encard + (table.olderKeys range).encard ∧
        (db.engine.store.liveKeys half.ns range).encard ≤ n ∧
        n = (db.engine.store.liveKeys half.ns range).encard + ((table.tombstones range).encard +
          (table.recentKeys range ∩ table.olderKeys range).encard)) ∧
    ∀ {K V : Type} (index : AnyIndex K V) (options : StoreOptions) (keyLength valueLength : Nat),
      Database.Runs (Action.Respects index) (.ofOptions options) db → index.Half A B half →
      (∀ reverse, index.reverse? = some reverse → reverse.ns ≠ index.forward.ns) →
      (∀ key, (half.codec.keys.encode key).length = keyLength) →
      (∀ value, (half.codec.values.encode value).length = valueLength) →
      ∃ size, size = half.codec.layout.width + keyLength + valueLength +
          db.engine.store.options.recordOverhead.toNat ∧
        1 ≤ size ∧ ∀ range, db.engine.store.Uniform table range size := by
  constructor
  · intro range size hsize huniform hfits hrecent
    refine ⟨fun hhealthy => exists_estimate hhealthy htable hfits, fun n hn => ?_⟩
    have hnumber := estimateRange_of_uniform htable hsize huniform hfits hrecent hn
    -- the records are the live ones, the tombstones, and those that are in both layers
    have hexcess := hnumber.trans (table.encard_records range)
    rw [← Store.liveKeys_eq htable] at hexcess
    refine ⟨hnumber, ?_, hexcess⟩
    rw [hexcess]
    exact le_self_add
  · intro K V index options keyLength valueLength runs hhalf hapart hkeys hvalues
    have hwidth : 0 < half.codec.layout.width := by
      cases half.codec.layout <;> decide
    exact ⟨_, rfl, by omega, runs.uniform hhalf hapart hkeys hvalues htable⟩

/-- An index of words, with two entries flushed, of which one was removed since and the other written again, and an
entry that is new. -/
theorem Index.estimate_of_uniform_sizes_of_words :
    ∃ (index : Index UInt64 UInt64) (db : Database) (table : Table) (n : Nat),
      Database.Runs (Action.Respects (.oneWay index)) (.ofOptions {}) db ∧
      db.engine.store.tables.get? index.ns = some table ∧
      ((index.estimateRange Index.fullRange).run db).1 = .ok n ∧ n = 5 ∧
      n = (table.recentKeys Index.fullRange).encard + (table.olderKeys Index.fullRange).encard ∧
      (db.engine.store.liveKeys index.ns Index.fullRange).encard ≤ n ∧
      n = (db.engine.store.liveKeys index.ns Index.fullRange).encard +
        ((table.tombstones Index.fullRange).encard +
          (table.recentKeys Index.fullRange ∩ table.olderKeys Index.fullRange).encard) := by
  let index : Index UInt64 UInt64 := .create "entries" "entries" .unsigned .unsigned {}
  obtain ⟨db, runs, hfive, hsums⟩ : ∃ db,
      Database.Runs (Action.Respects (.oneWay index)) (.ofOptions {}) db ∧
        ((index.estimateRange fullRange).run db).1.toOption = some 5 ∧
        (db.engine.store.tables.get? "entries").map (fun table =>
          decide (0 < (table.memtable.within fullRange).size ∧
            db.engine.store.weight ((table.memtable.within fullRange).mapValues fun slot =>
              slot.getD []) < 2 ^ 64 ∧
            db.engine.store.weight (table.flushed.within fullRange) < 2 ^ 64)) = some true := by
    -- two entries are flushed; one of them is removed, the other written again, and one is new
    have hspace : Database.Runs (Action.Respects (.oneWay index)) (.ofOptions {}) _ :=
      Database.Runs.refl.step (.store (.createNamespace "entries")) (.elsewhere _ nofun)
    have hadded := (hspace.step _ (.own none (.call (.add 1 10)))).step _ (.own none (.call (.add 1 20)))
    have hflushed := hadded.step (.store (.flush "entries")) (.elsewhere _ nofun)
    have hchanged := ((hflushed.step _ (.own none (.call (.remove 1 10)))).step _
      (.own none (.call (.add 1 20)))).step _ (.own none (.call (.add 2 30)))
    exact ⟨_, hchanged, by decide +kernel, by decide +kernel⟩
  obtain ⟨table, htable, hchecked⟩ := Option.map_eq_some_iff.1 hsums
  obtain ⟨hsome, hfits⟩ := of_decide_eq_true hchecked
  have hrecent : (table.recentKeys fullRange).Nonempty := by
    refine Set.encard_pos.1 ?_
    rw [Table.recentKeys, SortedMap.encard_within]
    exact_mod_cast hsome
  have hfive : ((index.estimateRange fullRange).run db).1 = .ok 5 := by
    cases hrun : ((index.estimateRange fullRange).run db).1 <;> rw [hrun] at hfive <;> cases hfive
    rfl
  have hspace : db.engine.store.tables.get? index.ns = some table := htable
  -- entries of two words all have one size
  obtain ⟨hestimates, huniform⟩ := estimate_of_uniform_sizes hspace
  obtain ⟨size, -, hsize, hsizes⟩ := huniform (.oneWay index) {} 8 8 runs .forward nofun
    (fun key => BigEndian.length_ofNat _ _) fun value => BigEndian.length_ofNat _ _
  have hexact := (hestimates fullRange size hsize (hsizes fullRange) (Store.fits_iff.2 hfits) hrecent).2 5 hfive
  exact ⟨index, db, table, 5, runs, htable, hfive, rfl, hexact⟩

end SecondaryIndex
