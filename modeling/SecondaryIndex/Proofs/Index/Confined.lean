import SecondaryIndex.Proofs.Index.Calls

/-!
# Calls of which nothing is known

Once an operation has failed within a transaction, its writes need not present anything, and nothing
can be said of what later operations in the same transaction answer. What can be said is that they
stay within it, and that what they write are entries. `Confined allowed id program` is that a program
works in the transaction `id` and does nothing else, wherever it is run and whatever comes of it;
`AnyIndex.perform_confined` shows it of every call on an index, with the writes that the index allows
itself (`AnyIndex.Allows`).
-/

namespace SecondaryIndex

/-- A program does nothing but work in a transaction. -/
def Confined {α : Type} (allowed : Allowance) (id : TransactionId) (program : IndexM α) : Prop :=
  ∀ db : Database, Engine.Works allowed id db.engine (program.run db).2.engine

namespace Confined

open Program IndexM

variable {α β : Type} {allowed allowed' : Allowance} {id : TransactionId} {program : IndexM α}
  {ns : Namespace} {key : Bytes}

/-- An idle program writes nothing, so it is confined to every allowance. -/
theorem of_idle (h : Idle program) : Confined allowed id program := fun db => .of_idles (h db)

/-- A program is confined to every wider allowance. -/
theorem mono (h : Confined allowed id program) (himp : ∀ x slot, allowed x slot → allowed' x slot) :
    Confined allowed' id program := fun db => (h db).mono himp

/-- The two parts of a program are confined each on its own. -/
theorem bind {rest : α → IndexM β} (h : Confined allowed id program)
    (hrest : ∀ a, Confined allowed id (rest a)) : Confined allowed id (program >>= rest) := by
  intro db
  have hfirst := h db
  cases hrun : program.run db with
  | mk outcome db' =>
    rw [hrun] at hfirst
    cases outcome with
    | error err =>
      rw [run_bind_error hrun]
      exact hfirst
    | ok a =>
      rw [run_bind_ok hrun]
      exact hfirst.trans (hrest a db')

theorem pure (a : α) : Confined allowed id (Pure.pure a : IndexM α) := of_idle fun _ => .refl _

theorem map {f : α → β} (h : Confined allowed id program) : Confined allowed id (f <$> program) := by
  rw [map_eq_pure_bind]
  exact h.bind fun a => .pure _

/-- An encoding does nothing to the engine. -/
theorem encoding (outcome : Except EncodingError α) : Confined allowed id (ofEncoding outcome) :=
  of_idle fun _ => .refl _

/-- Counting an event does nothing to the engine. -/
theorem observe (id? : Option MetricsId) (count : Counters → Counters) :
    Confined allowed id (IndexM.observe id? count) := by
  refine of_idle fun db => ?_
  show db.engine.Idles (db.observe id? count).engine
  rw [AnyIndex.engine_observe]
  exact .refl _

/-- A loop is confined if every round of it is. -/
theorem forM {l : List β} {act : β → IndexM PUnit} (h : ∀ b, Confined allowed id (act b)) :
    Confined allowed id (l.forM act) := by
  induction l with
  | nil => exact .pure _
  | cons b l ih =>
    rw [List.forM_eq_forM, List.forM_cons, ← List.forM_eq_forM]
    exact (h b).bind fun _ => ih

/-! ### Calls of the engine -/

theorem lookup (ns : Namespace) (key : Bytes) :
    Confined allowed id (ofEngine (Engine.lookup id ns key)) := by
  refine of_idle fun db => ?_
  rw [run_ofEngine, Engine.run_lookup]
  split <;> exact Engine.idles_drawn _ _

theorem status : Confined allowed id (ofEngine Engine.status) := by
  refine of_idle fun db => ?_
  rw [run_ofEngine, Engine.run_status]
  exact Engine.idles_drawn _ _

/-- Opening an iterator is allowed everywhere. -/
theorem openIterator (ns : Namespace) (range : Range) :
    Confined allowed id (ofEngine (Engine.openIterator id ns range)) := by
  refine of_idle fun db => ?_
  rw [run_ofEngine, Engine.run_openIterator]
  split
  · exact Engine.idles_drawn _ _
  · split
    · exact (Engine.idles_drawn _ _).trans (Engine.idles_iterating _)
    · exact Engine.idles_drawn _ _

/-- A write, whichever of the two calls makes it. -/
theorem of_write {program : EngineM Unit} {call : EngineCall} {slot : Slot}
    (hrun : ∀ e : Engine, program.run e =
      if e.fails call then (.error (.injected call), e.drawn call)
      else match e.writtenTo id ns key slot with
        | .ok tx => (.ok ⟨⟩, (e.drawn call).keeping id tx)
        | .error err => (.error err, e.drawn call))
    (permitted : allowed (ns, key) slot) : Confined allowed id (ofEngine program) := by
  intro db
  rw [run_ofEngine, hrun]
  have hdrawn : Engine.Works allowed id db.engine (db.engine.drawn call) :=
    .of_idles (Engine.idles_drawn _ _)
  split
  · exact hdrawn
  · cases hwritten : db.engine.writtenTo id ns key slot with
    | error err => exact hdrawn
    | ok tx =>
      have hwritten' : (db.engine.drawn call).writtenTo id ns key slot = .ok tx := hwritten
      exact hdrawn.trans (.single (.writes permitted hwritten'))

/-- A buffered write needs permission for its place and its value. -/
theorem put {value : Bytes} (permitted : allowed (ns, key) (some value)) :
    Confined allowed id (ofEngine (Engine.put id ns key value)) :=
  of_write (fun e => Engine.run_put e id ns key value) permitted

/-- A buffered deletion needs permission for its place. -/
theorem delete (permitted : allowed (ns, key) none) :
    Confined allowed id (ofEngine (Engine.delete id ns key)) :=
  of_write (fun e => Engine.run_delete e id ns key) permitted

/-- Looking into an iterator. -/
theorem look (ns : Namespace) (range : Range) (look : RawIterator → α) :
    Confined allowed id (IndexM.withIterator id ns range fun it => do
      ofEngine Engine.status
      Pure.pure (look it)) := by
  refine .bind (.openIterator ns range) fun it => ?_
  have hlook : Confined allowed id (do ofEngine Engine.status; Pure.pure (look it) : IndexM α) :=
    .bind .status fun _ => .pure _
  have hattempt : Confined allowed id
      (attempt (do ofEngine Engine.status; Pure.pure (look it) : IndexM α)) := fun db => hlook db
  have hreleased : Confined allowed id IndexM.releaseIterator := .of_idle idle_releaseIterator
  exact .bind hattempt fun outcome => .bind hreleased fun _ => .of_idle fun _ => .refl _

end Confined

namespace Index

variable {K V : Type} (index : Index K V) (id : TransactionId) (key : K) (value : V)

/-- What an index allows itself to write: entries with nothing under them, and removals. -/
def Allows : Allowance := fun x slot =>
  x.1 = index.ns ∧ ∀ bytes, slot = some bytes → bytes = emptyValue ∧ index.Entry x.2

/-- An insertion writes an empty value under the key it encodes. -/
theorem insertWithin_confined : Confined index.Allows id (index.insertWithin id key value) := by
  -- what is put is what has just been encoded
  intro db
  unfold insertWithin
  cases hencode : index.codec.encode key value with
  | error err => exact .refl _
  | ok physical =>
    have hput : Confined index.Allows id
        (IndexM.ofEngine (Engine.put id index.ns physical emptyValue)) :=
      .put ⟨rfl, fun _ hbytes => ⟨(Option.some.inj hbytes).symm, key, value, hencode⟩⟩
    rw [Program.run_bind_ok (IndexM.run_ofEncoding _ db)]
    exact hput db

theorem delete_confined (physical : Bytes) :
    Confined index.Allows id (IndexM.ofEngine (Engine.delete id index.ns physical)) :=
  .delete ⟨rfl, nofun⟩

/-- A removal deletes the key it encodes. -/
theorem eraseWithin_confined : Confined index.Allows id (index.eraseWithin id key value) := by
  refine .bind (.encoding _) fun physical => .bind (.lookup _ _) fun slot => ?_
  cases slot with
  | none => exact .pure _
  | some bytes => exact .bind (index.delete_confined id physical) fun _ => .pure _

theorem keyRange_confined : Confined index.Allows id (index.keyRange key) :=
  .bind (.encoding _) fun _ => .pure _

/-- The removal of a key deletes what it lists. -/
theorem eraseAllWithin_confined : Confined index.Allows id (index.eraseAllWithin id key) := by
  rw [eraseAllWithin_eq]
  exact .bind (index.keyRange_confined id key) fun _ =>
    .bind (.look _ _ _) fun _ =>
      .bind (.forM fun physical => index.delete_confined id physical) fun _ => .pure _

/-! ### Queries in an ambient transaction -/

theorem openCursor_confined {α : Type} (range : Range) (decode : Bytes → Except EncodingError α)
    (seeking : Seeking α) (stride : Stride) :
    Confined index.Allows id (index.openCursor (some id) range decode seeking stride) :=
  .bind (.openIterator _ _) fun _ => .bind (.observe _ _) fun _ => .pure _

theorem find_confined : Confined index.Allows id (index.find (some id) key) :=
  .bind (index.keyRange_confined id key) fun _ => index.openCursor_confined id _ _ _ _

theorem scanKeys_confined : Confined index.Allows id (index.scanKeys (some id)) :=
  index.openCursor_confined id _ _ _ _

/-- The first value of a key is read, and the cursor is released. -/
theorem findFirst_confined : Confined index.Allows id (index.findFirst (some id) key) := by
  refine .bind (index.keyRange_confined id key) fun range => .bind (.look _ _ _) fun physical? => ?_
  cases physical? with
  | none => exact .of_idle fun _ => .refl _
  | some p => exact .encoding _

end Index

namespace AnyIndex

variable {K V : Type} (index : AnyIndex K V) (id : TransactionId)

/-- What an index allows itself to write, in any of its halves. -/
def Allows : AnyIndex K V → Allowance
  | oneWay index => index.Allows
  | twoWay index => fun x slot => index.forward.Allows x slot ∨ index.reverse.Allows x slot

/-- What the forward half is allowed is allowed to the whole index. -/
theorem allows_of_forward {x : Place} {slot : Slot} (h : index.forward.Allows x slot) :
    index.Allows x slot := by
  cases index with
  | oneWay index => exact h
  | twoWay index => exact .inl h

/-- What is confined to the forward half is confined to the index. -/
theorem forward_confined {α : Type} {program : IndexM α}
    (h : Confined index.forward.Allows id program) : Confined index.Allows id program :=
  h.mono fun _ _ => index.allows_of_forward

end AnyIndex

namespace TwoWayIndex

variable {K V : Type} (index : TwoWayIndex K V) (id : TransactionId) (key : K) (value : V)

/-- What the reverse half is confined to, the whole index is. -/
theorem reverse_confined {α : Type} {program : IndexM α}
    (h : Confined index.reverse.Allows id program) :
    Confined (AnyIndex.twoWay index).Allows id program :=
  h.mono fun _ _ => .inr

/-- A pair inserted into both halves stays within both. -/
theorem insert_confined : Confined (AnyIndex.twoWay index).Allows id
    (do index.forward.insertWithin id key value
        index.reverse.insertWithin id value key) :=
  .bind (AnyIndex.forward_confined _ id (index.forward.insertWithin_confined id key value))
    fun _ => index.reverse_confined id (index.reverse.insertWithin_confined id value key)

/-- A pair removed from both halves stays within both. -/
theorem erase_confined : Confined (AnyIndex.twoWay index).Allows id
    (do let removed ← index.forward.eraseWithin id key value
        let _ ← index.reverse.eraseWithin id value key
        pure removed) :=
  .bind (AnyIndex.forward_confined _ id (index.forward.eraseWithin_confined id key value))
    fun _ => .bind (index.reverse_confined id (index.reverse.eraseWithin_confined id value key))
      fun _ => .pure _

/-- What was listed may be anything, and still is only read back and erased. -/
theorem eraseAll_confined : Confined (AnyIndex.twoWay index).Allows id
    (do let doomed ← index.forward.eraseAllWithin id key
        index.eraseReverseWithin id key doomed
        pure doomed.length) := by
  refine .bind (AnyIndex.forward_confined _ id (index.forward.eraseAllWithin_confined id key))
    fun doomed => .bind (.forM fun p => ?_) fun _ => .pure _
  exact .bind (.encoding _) fun value =>
    .bind (index.reverse_confined id (index.reverse.eraseWithin_confined id value key))
      fun _ => .pure _

end TwoWayIndex

namespace AnyIndex

variable {K V : Type} (index : AnyIndex K V) (id : TransactionId)

/-- An addition writes only where its index may. -/
theorem add_confined (key : K) (value : V) :
    Confined index.Allows id (index.add (some id) key value) := by
  cases index with
  | oneWay index => exact .bind (index.insertWithin_confined id key value) fun _ => .observe _ _
  | twoWay index => exact .bind (index.insert_confined id key value) fun _ => .observe _ _

/-- A removal writes only where its index may. -/
theorem remove_confined (key : K) (value : V) :
    Confined index.Allows id (index.remove (some id) key value) := by
  have hcounting (allowed : Allowance) (id? : Option MetricsId) (removed : Bool) :
      Confined allowed id (if removed then IndexM.observe id? (Counters.countRemoved 1) else pure () :
        IndexM Unit) := by
    cases removed with
    | true => exact .observe _ _
    | false => exact .pure _
  cases index with
  | oneWay index => exact .bind (index.eraseWithin_confined id key value) (hcounting _ _)
  | twoWay index => exact .bind (index.erase_confined id key value) (hcounting _ _)

/-- The removal of a key writes only where its index may. -/
theorem removeAll_confined (key : K) :
    Confined index.Allows id (index.removeAll (some id) key) := by
  cases index with
  | oneWay index =>
    exact .bind (.map (index.eraseAllWithin_confined id key)) fun _ =>
      .bind (.observe _ _) fun _ => .pure _
  | twoWay index =>
    exact .bind (index.eraseAll_confined id key) fun _ => .bind (.observe _ _) fun _ => .pure _

/-- Whatever is called in a transaction, and whatever it sees, writes there and nowhere else. -/
theorem perform_confined (call : IndexCall K V) :
    Confined index.Allows id (index.perform (some id) call) := by
  have hforward {α : Type} {program : IndexM α} (h : Confined index.forward.Allows id program) :=
    index.forward_confined id h
  cases call with
  | add key value => exact .map (index.add_confined id key value)
  | remove key value => exact .map (index.remove_confined id key value)
  | removeAll key => exact .map (index.removeAll_confined id key)
  | findFirst key => exact .map (hforward (index.forward.findFirst_confined id key))
  | find key => exact .map (hforward (index.forward.find_confined id key))
  | scanKeys => exact .map (hforward (index.forward.scanKeys_confined id))
  | scanDistinctKeys => exact .map (hforward (index.forward.openCursor_confined id _ _ _ _))
  | scanValues => exact .map (hforward (index.forward.openCursor_confined id _ _ _ _))
  | count =>
    exact .map (.bind (hforward (index.forward.scanKeys_confined id)) fun _ =>
      .of_idle (Index.count_idle _))
  | countKey key =>
    exact .map (.bind (hforward (index.forward.find_confined id key)) fun _ =>
      .of_idle (Index.count_idle _))
  | findByValue value =>
    cases index with
    | oneWay index => exact .pure _
    | twoWay index => exact .map (index.reverse_confined id (index.reverse.find_confined id value))

end AnyIndex

end SecondaryIndex
