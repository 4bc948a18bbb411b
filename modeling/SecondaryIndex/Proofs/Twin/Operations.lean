import SecondaryIndex.Proofs.Index.Owned
import SecondaryIndex.Proofs.Twin.Index

/-!
# Operations on twin databases

Of twin databases the second one holds a two-way index, and the first one holds the forward half of it as an
index of its own. Whatever both can be asked they answer alike, and they stay twins
(`TwoWayIndex.tracks_operate`). Other indexes, too, are as they would be without the reverse half
(`AnyIndex.tracks_elsewhere`), as long as they leave it alone and write to namespaces of their own.

An operation that only reads does not have to keep away from the forward half. That is what queries of the
index itself are: queries of the forward half, in both databases (`AnyIndex.tracks_reading`).
-/

namespace SecondaryIndex

open Program IndexM

variable {K V K' V' α : Type} {index : TwoWayIndex K V} {spaces : List Namespace}

/-- An operation that writes. -/
inductive IndexOperation.Writes : IndexOperation K V → Prop
  | add (key : K) (value : V) : Writes (.call (.add key value))
  | remove (key : K) (value : V) : Writes (.call (.remove key value))
  | removeAll (key : K) : Writes (.call (.removeAll key))

/-- An operation that an index without a reverse half has as well, with values that are short enough to be
kept in the reverse half. -/
def IndexOperation.Shared (index : TwoWayIndex K V) : IndexOperation K V → Prop
  | .call (.add _ value) => index.reverse.codec.Fits value
  | .call (.remove _ value) => index.reverse.codec.Fits value
  | .call (.findByValue _) => False
  | .count (.keysWithValue _) _ _ => False
  | _ => True

/-! ### Queries -/

namespace Database.Twins

variable (hsane : index.Sane) {half : Index K' V'} (hns : half.ns ≠ index.reverse.ns) (ctx : Context)
  (key : K') (range : Range)

/-- Counting is opening a cursor and draining it. -/
theorem tracks_counting {x : IndexM (Cursor α)} (h : Tracks (Database.Twins index spaces) Eq x x) :
    Tracks (Database.Twins index spaces) Eq (x >>= Cursor.count) (x >>= Cursor.count) := by
  refine .bind h ?_
  rintro cursor _ rfl
  rw [Cursor.count_eq]
  refine .map (tracks_of_reading 0 ((Cursor.inStep_alikeBut _).collect rfl) (.of_idle cursor.collect_idle)) ?_
  rintro items _ rfl
  rfl

include hns

/-- An estimate is made of the forward half, in both databases. -/
theorem tracks_estimateRange :
    Tracks (Database.Twins index spaces) Eq (half.estimateRange range) (half.estimateRange range) :=
  tracks_of_reading 0 (half.tracks_estimateRange hns range) (.of_idle (half.estimateRange_idle range))

theorem tracks_estimateKey :
    Tracks (Database.Twins index spaces) Eq (half.estimateKey key) (half.estimateKey key) := by
  refine .bind (half.tracks_keyRange key) ?_
  rintro range _ rfl
  exact tracks_estimateRange hns range

include hsane

/-- The cursors that are opened in the two databases walk the same keys. -/
theorem tracks_openCursor (decode : Bytes → Except EncodingError α) (seeking : Seeking α)
    (stride : Stride) :
    Tracks (Database.Twins index spaces) Eq (half.openCursor ctx range decode seeking stride)
      (half.openCursor ctx range decode seeking stride) := by
  have hopen : Tracks (Database.Twins index spaces) Eq (half.openIterator ctx range)
      (half.openIterator ctx range) := by
    refine tracks_transactionally hsane ctx (fun id => ?_) (fun id => ?_) fun id => ?_
    · exact tracks_of_reading id (Database.Alike.tracks_ofEngine
        (Engine.AlikeBut.tracks_openIterator hns id range)) (.openIterator _ _)
    · exact ⟨fun _ _ => False, .openIterator _ _⟩
    · exact ⟨fun _ _ => False, .openIterator _ _⟩
  refine .bind hopen ?_
  rintro iterator _ rfl
  exact .bind (Database.Alike.tracks_observe _ _) fun _ _ _ => .pure rfl

/-- The cursors over the values of a key are the same in both databases. -/
theorem tracks_find :
    Tracks (Database.Twins index spaces) Eq (half.find ctx key) (half.find ctx key) := by
  refine .bind (half.tracks_keyRange key) ?_
  rintro range _ rfl
  exact tracks_openCursor hsane hns ctx range _ _ _

/-- The first value of a key is the same in both databases. -/
theorem tracks_findFirst :
    Tracks (Database.Twins index spaces) Eq (half.findFirst ctx key) (half.findFirst ctx key) := by
  refine .bind (half.tracks_keyRange key) ?_
  rintro range _ rfl
  refine .bind (tracks_transactionally hsane ctx (fun id => ?_) (fun id => ?_) fun id => ?_) ?_
  · exact tracks_of_reading id (Database.Alike.tracks_look hns id range _) (.look _ _ _)
  · exact ⟨fun _ _ => False, .look _ _ _⟩
  · exact ⟨fun _ _ => False, .look _ _ _⟩
  · -- the value is read once the transaction is settled
    rintro (_ | physical) _ rfl
    · exact .throw _
    · exact Database.Alike.tracks_ofEncoding _

end Database.Twins

/-! ### Operations on any index -/

namespace AnyIndex

open Database.Twins

variable (hsane : index.Sane) {asked : AnyIndex K' V'} (ctx : Context)

include hsane

/-- A question is answered by the halves, whichever of them it takes. -/
theorem tracks_value (hspares : ∀ ns ∈ asked.namespaces, ns ≠ index.reverse.ns)
    {question : Question K' V'} {budget : Budget} {estimateOk : Bool} {count : Count}
    (h : (asked.statistics ctx).count? budget estimateOk question = some count) :
    Tracks (Database.Twins index spaces) Eq count.value count.value := by
  have hforward : asked.forward.ns ≠ index.reverse.ns := hspares _ asked.forward_mem
  refine Statistics.value_of_count? h
    (P := fun value => Tracks (Database.Twins index spaces) Eq value value)
    (fun range => tracks_estimateRange hforward range) (fun key => tracks_estimateKey hforward key)
    (fun _ _ _ _ => tracks_counting (tracks_openCursor hsane hforward ctx _ _ _ _))
    (fun key => tracks_counting (tracks_find hsane hforward ctx key)) fun reverse value hreverse => ?_
  cases asked with
  | oneWay other => cases hreverse
  | twoWay other =>
    cases hreverse
    exact tracks_counting (tracks_find hsane (hspares _ other.reverse_mem) ctx value)

/-- What only reads, and not from the reverse half, is answered alike. -/
theorem tracks_reading (hspares : ∀ ns ∈ asked.namespaces, ns ≠ index.reverse.ns)
    {operation : IndexOperation K' V'} (hreads : ¬ operation.Writes) :
    Tracks (Database.Twins index spaces) Eq (asked.operate ctx operation)
      (asked.operate ctx operation) := by
  have hforward : asked.forward.ns ≠ index.reverse.ns := hspares _ asked.forward_mem
  cases operation with
  | call call =>
    refine .congr _ ?_
    cases call with
    | add key value => exact absurd (.add key value) hreads
    | remove key value => exact absurd (.remove key value) hreads
    | removeAll key => exact absurd (.removeAll key) hreads
    | findFirst key => exact .congr _ (tracks_findFirst hsane hforward ctx key)
    | find key => exact .congr _ (tracks_find hsane hforward ctx key)
    | scanKeys => exact .congr _ (tracks_openCursor hsane hforward ctx _ _ _ _)
    | scanDistinctKeys => exact .congr _ (tracks_openCursor hsane hforward ctx _ _ _ _)
    | scanValues => exact .congr _ (tracks_openCursor hsane hforward ctx _ _ _ _)
    | count => exact .congr _ (tracks_counting (tracks_openCursor hsane hforward ctx _ _ _ _))
    | countKey key => exact .congr _ (tracks_counting (tracks_find hsane hforward ctx key))
    -- here it is the reverse half that is asked, so it must not be that of the index
    | findByValue value =>
      cases asked with
      | oneWay other => exact .pure rfl
      | twoWay other => exact .congr _ (tracks_find hsane (hspares _ other.reverse_mem) ctx value)
  | span key => exact .congr _ (Database.Alike.tracks_ofEncoding _)
  | estimateRange range => exact .congr _ (tracks_estimateRange hforward range)
  | estimateKey key => exact .congr _ (tracks_estimateKey hforward key)
  | estimateSize => exact .congr _ (tracks_estimateRange hforward Index.fullRange)
  | count question budget estimateOk =>
    simp only [operate]
    cases hcount : (asked.statistics ctx).count? budget estimateOk question with
    | some count => exact .congr _ (tracks_value hsane ctx hspares hcount)
    | none => exact .pure rfl

section Elsewhere

variable (helsewhere : ∀ ns ∈ asked.namespaces, ns ∉ (twoWay index).namespaces)

include helsewhere

omit hsane in
/-- An index that keeps away from the reverse half has none of its namespaces there. -/
theorem ne_reverse_of_elsewhere : ∀ ns ∈ asked.namespaces, ns ≠ index.reverse.ns :=
  fun ns hns heq => helsewhere ns hns (heq ▸ index.reverse_mem)

/-- A write in a context that is in step but for the reverse namespace, and is made elsewhere. -/
theorem tracks_within {operation : TransactionId → IndexM α}
    (h : ∀ id, Tracks (Database.AlikeBut index.reverse.ns) Eq (operation id) (operation id))
    (hconfined : ∀ id, Confined asked.Allows id (operation id)) :
    Tracks (Database.Twins index spaces) Eq (within ctx operation) (within ctx operation) :=
  tracks_transactionally hsane ctx
    (fun id => tracks_of_elsewhere id (h id) (hconfined id) fun _ _ hallows =>
      helsewhere _ (mem_of_allows hallows))
    (fun id => ⟨_, hconfined id⟩) fun id => ⟨_, hconfined id⟩

/-- Another index adds a pair in both databases, in one namespace or in two. -/
theorem tracks_add (key : K') (value : V') :
    Tracks (Database.Twins index spaces) Eq (asked.add ctx key value) (asked.add ctx key value) := by
  have hspares := ne_reverse_of_elsewhere helsewhere
  cases asked with
  | oneWay other =>
    refine .bind (tracks_within hsane ctx helsewhere (fun id => ?_) fun id => ?_)
      fun _ _ _ => Database.Alike.tracks_observe _ _
    · exact other.tracks_insertWithin id key value (hspares _ (forward_mem _))
    · exact other.insertWithin_confined id key value
  | twoWay other =>
    refine .bind (tracks_within hsane ctx helsewhere (fun id => ?_) fun id => ?_)
      fun _ _ _ => Database.Alike.tracks_observe _ _
    · exact .bind (other.forward.tracks_insertWithin id key value (hspares _ (forward_mem _)))
        fun _ _ _ => other.reverse.tracks_insertWithin id value key (hspares _ other.reverse_mem)
    · exact other.insert_confined id key value

/-- Another index removes a pair in both databases. -/
theorem tracks_remove (key : K') (value : V') :
    Tracks (Database.Twins index spaces) Eq (asked.remove ctx key value)
      (asked.remove ctx key value) := by
  have hspares := ne_reverse_of_elsewhere helsewhere
  have hcounting (id? : Option MetricsId) (removed removed' : Bool) (heq : removed = removed') :
      Tracks (Database.Twins index spaces) Eq
        (if removed then IndexM.observe id? (Counters.countRemoved 1) else pure () : IndexM Unit)
        (if removed' then IndexM.observe id? (Counters.countRemoved 1) else pure ()) := by
    subst heq
    cases removed with
    | true => exact Database.Alike.tracks_observe _ _
    | false => exact .pure rfl
  cases asked with
  | oneWay other =>
    refine .bind (tracks_within hsane ctx helsewhere (fun id => ?_) fun id => ?_) (hcounting _)
    · exact other.tracks_eraseWithin id key value (hspares _ (forward_mem _))
    · exact other.eraseWithin_confined id key value
  | twoWay other =>
    refine .bind (tracks_within hsane ctx helsewhere (fun id => ?_) fun id => ?_) (hcounting _)
    · refine .bind (other.forward.tracks_eraseWithin id key value (hspares _ (forward_mem _))) ?_
      rintro removed _ rfl
      exact .bind (other.reverse.tracks_eraseWithin id value key (hspares _ other.reverse_mem))
        fun _ _ _ => .pure rfl
    · exact other.erase_confined id key value

/-- Another index removes a key in both databases. -/
theorem tracks_removeAll (key : K') :
    Tracks (Database.Twins index spaces) Eq (asked.removeAll ctx key) (asked.removeAll ctx key) := by
  have hspares := ne_reverse_of_elsewhere helsewhere
  have hcounting (id? : Option MetricsId) (n n' : Nat) (heq : n = n') :
      Tracks (Database.Twins index spaces) Eq
        (do IndexM.observe id? (Counters.countRemoved n); pure n : IndexM Nat)
        (do IndexM.observe id? (Counters.countRemoved n'); pure n') := by
    subst heq
    exact .bind (Database.Alike.tracks_observe _ _) fun _ _ _ => .pure rfl
  cases asked with
  | oneWay other =>
    refine .bind (tracks_within hsane ctx helsewhere (fun id => ?_) fun id => ?_) (hcounting _)
    · refine .map (other.tracks_eraseAllWithin id key (hspares _ (forward_mem _))) ?_
      exact fun _ _ heq => congrArg List.length heq
    · exact .map (other.eraseAllWithin_confined id key)
  | twoWay other =>
    refine .bind (tracks_within hsane ctx helsewhere (fun id => ?_) fun id => ?_) (hcounting _)
    · refine .bind (other.forward.tracks_eraseAllWithin id key (hspares _ (forward_mem _))) ?_
      rintro doomed _ rfl
      -- the values of what was listed are read back, and may be anything
      refine .bind (.forM fun physical => ?_) fun _ _ _ => .pure rfl
      refine .bind (Database.Alike.tracks_ofEncoding _) ?_
      rintro value _ rfl
      exact .bind (other.reverse.tracks_eraseWithin id value key (hspares _ other.reverse_mem))
        fun _ _ _ => .pure trivial
    · exact other.eraseAll_confined id key

/-- Other indexes are not touched by what the second database has beyond the first. -/
theorem tracks_elsewhere (operation : IndexOperation K' V') :
    Tracks (Database.Twins index spaces) Eq (asked.operate ctx operation)
      (asked.operate ctx operation) := by
  by_cases hwrites : operation.Writes
  · cases hwrites with
    | add key value => exact .congr _ (.congr _ (tracks_add hsane ctx helsewhere key value))
    | remove key value => exact .congr _ (.congr _ (tracks_remove hsane ctx helsewhere key value))
    | removeAll key => exact .congr _ (.congr _ (tracks_removeAll hsane ctx helsewhere key))
  · exact tracks_reading hsane ctx (ne_reverse_of_elsewhere helsewhere) hwrites

end Elsewhere

end AnyIndex

/-! ### Operations on the index itself -/

namespace TwoWayIndex

variable [DecidableEq K] [DecidableEq V] (hsane : index.Sane) (ctx : Context) (key : K) (value : V)

omit [DecidableEq K] [DecidableEq V] in
/-- A query that an index without a reverse half has as well is one of the forward half. -/
theorem operate_eq_of_reads {operation : IndexOperation K V} (hshared : operation.Shared index)
    (hreads : ¬ operation.Writes) : (AnyIndex.twoWay index).operate ctx operation =
      (AnyIndex.oneWay index.forward).operate ctx operation := by
  cases operation with
  | call call =>
    cases call with
    | add key value => exact absurd (.add key value) hreads
    | remove key value => exact absurd (.remove key value) hreads
    | removeAll key => exact absurd (.removeAll key) hreads
    | findByValue value => exact hshared.elim
    | _ => rfl
  | count question budget estimateOk =>
    cases question with
    | keysWithValue value => exact hshared.elim
    | _ => rfl
  | _ => rfl

include hsane

/-- An addition to the forward half alone is answered as one to both halves. -/
theorem tracks_add (hvalue : index.reverse.codec.Fits value) :
    Tracks (Database.Twins index (AnyIndex.twoWay index).namespaces) Eq
      (index.forward.add ctx key value) (index.add ctx key value) := by
  have hcoupled := coupled_insert key hsane hvalue
  refine .bind (tracks_transactionally hsane ctx (fun id => ?_) (fun id => (hcoupled id).confined)
    fun id => (hcoupled id).confined') fun _ _ _ => Database.Alike.tracks_observe _ _
  have htracks := (hcoupled id).tracks
  rwa [id_map'] at htracks

/-- A removal from the forward half alone is answered as one from both halves. -/
theorem tracks_remove (hvalue : index.reverse.codec.Fits value) :
    Tracks (Database.Twins index (AnyIndex.twoWay index).namespaces) Eq
      (index.forward.remove ctx key value) (index.remove ctx key value) := by
  have hcoupled := coupled_erase key hsane hvalue
  refine .bind (tracks_transactionally hsane ctx (fun id => ?_) (fun id => (hcoupled id).confined)
    fun id => (hcoupled id).confined') ?_
  · have htracks := (hcoupled id).tracks
    rwa [id_map'] at htracks
  · rintro removed _ rfl
    cases removed with
    | true => exact Database.Alike.tracks_observe _ _
    | false => exact .pure rfl

/-- The removal of a key from the forward half alone is answered as one from both halves. -/
theorem tracks_removeAll :
    Tracks (Database.Twins index (AnyIndex.twoWay index).namespaces) Eq
      (index.forward.removeAll ctx key) (index.removeAll ctx key) := by
  have hcoupled := coupled_eraseAll key hsane
  refine .bind (tracks_transactionally hsane ctx (fun id => (hcoupled id).tracks)
    (fun id => (hcoupled id).confined.imp fun _ h => .map h) fun id => (hcoupled id).confined') ?_
  rintro removed _ rfl
  exact .bind (Database.Alike.tracks_observe _ _) fun _ _ _ => .pure rfl

/-- Whatever an index and its two-way counterpart can both be asked, they answer alike. -/
theorem tracks_operate {operation : IndexOperation K V} (hshared : operation.Shared index) :
    Tracks (Database.Twins index (AnyIndex.twoWay index).namespaces) Eq
      ((AnyIndex.oneWay index.forward).operate ctx operation)
      ((AnyIndex.twoWay index).operate ctx operation) := by
  by_cases hwrites : operation.Writes
  · cases hwrites with
    | add key value => exact .congr _ (.congr _ (tracks_add hsane ctx key value hshared))
    | remove key value => exact .congr _ (.congr _ (tracks_remove hsane ctx key value hshared))
    | removeAll key => exact .congr _ (.congr _ (tracks_removeAll hsane ctx key))
  · -- what only reads is asked of the forward half in both databases
    rw [operate_eq_of_reads ctx hshared hwrites]
    refine AnyIndex.tracks_reading hsane ctx (fun ns hns => ?_) hwrites
    rw [List.mem_singleton.1 hns]
    exact hsane.apart

end TwoWayIndex

end SecondaryIndex
