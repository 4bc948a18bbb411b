import Mathlib.Logic.Function.Basic
import SecondaryIndex.Database

/-!
# Ledgers

A ledger is a map under transactions with everything left out that only makes it fast: the committed
bindings, and for each open transaction the last write to each key. There are no layers, no commit
numbers and no conflicts. A ledger changes in four ways: a transaction is opened, it writes, it is
committed, and it is closed in any other way. Committing lays the writes of the transaction over the
committed bindings, every other end forgets them.

Ledgers are used twice: over the keys of all namespaces they say what an engine holds, and over
pairs of a key and a value they say what an index holds. Operations that run in a context write
through `Ledger.write`, which lays the changes of an auto-committed operation over the committed
bindings at once.
-/

namespace SecondaryIndex

/-- Writes to a map: what a key was set to, `none` for a removal, and nothing for the keys that were
left alone. -/
abbrev Changes (κ α : Type) := κ → Option (Option α)

namespace Changes

variable {κ α β : Type}

/-- No change of anything. -/
def nothing : Changes κ α := fun _ => none

/-- A change of one slot. -/
def single [DecidableEq κ] (x : κ) (slot : Option α) : Changes κ α :=
  fun y => if y = x then some slot else none

/-- Later writes on top of earlier ones. -/
def after (later earlier : Changes κ α) : Changes κ α := fun x => (later x).or (earlier x)

/-- A map with the writes made. -/
def applyTo (changes : Changes κ α) (base : κ → Option α) : κ → Option α :=
  fun x => (changes x).getD (base x)

@[simp] theorem nothing_applyTo (base : κ → Option α) : (nothing : Changes κ α).applyTo base = base :=
  rfl

@[simp] theorem after_nothing (changes : Changes κ α) : changes.after nothing = changes := by
  funext x
  simp [after, nothing]

@[simp] theorem nothing_after (changes : Changes κ α) : nothing.after changes = changes := by
  funext x
  simp [after, nothing]

/-- Three changes in a row can be put together either way. -/
theorem after_assoc (a b c : Changes κ α) : (a.after b).after c = a.after (b.after c) := by
  funext x
  simp [after, Option.or_assoc]

/-- Making writes one after the other is making them at once. -/
theorem after_applyTo (later earlier : Changes κ α) (base : κ → Option α) :
    (later.after earlier).applyTo base = later.applyTo (earlier.applyTo base) := by
  funext x
  simp only [after, applyTo]
  cases later x <;> rfl

end Changes

/-- A map as transactions see it. -/
@[ext]
structure Ledger (κ α : Type) where
  /-- The committed bindings. -/
  committed : κ → Option α
  /-- The writes of each open transaction. -/
  pending : TransactionId → Option (Changes κ α)

namespace Ledger

variable {κ α : Type}

/-- A ledger in which nothing has happened. -/
def empty : Ledger κ α := ⟨fun _ => none, fun _ => none⟩

/-- What a context sees: the writes of its transaction over the committed bindings. -/
def view (l : Ledger κ α) : Context → κ → Option α
  | none => l.committed
  | some id => ((l.pending id).getD .nothing).applyTo l.committed

/-- Whether a context can be used: it has no transaction, or one that is open. -/
def Usable (l : Ledger κ α) : Context → Prop
  | none => True
  | some id => (l.pending id).isSome

/-- Opens a transaction. -/
def begin (l : Ledger κ α) (id : TransactionId) : Ledger κ α :=
  { l with pending := Function.update l.pending id (some .nothing) }

/-- Writes in a context. Without a transaction the writes are committed at once; a transaction that
is not open writes nothing. -/
def write (l : Ledger κ α) (changes : Changes κ α) : Context → Ledger κ α
  | none => { l with committed := changes.applyTo l.committed }
  | some id => { l with pending := Function.update l.pending id ((l.pending id).map changes.after) }

/-- Forgets a transaction. -/
def close (l : Ledger κ α) (id : TransactionId) : Ledger κ α :=
  { l with pending := Function.update l.pending id none }

/-- Commits a transaction. -/
def commit (l : Ledger κ α) (id : TransactionId) : Ledger κ α :=
  { committed := l.view (some id), pending := Function.update l.pending id none }

/-! ### What is seen after each change -/

section Equations

variable (l : Ledger κ α) (id : TransactionId) (changes : Changes κ α)

@[simp] theorem begin_committed : (l.begin id).committed = l.committed := rfl

@[simp] theorem close_committed : (l.close id).committed = l.committed := rfl

@[simp] theorem commit_committed : (l.commit id).committed = l.view (some id) := rfl

@[simp] theorem write_none_committed :
    (l.write changes none).committed = changes.applyTo l.committed := rfl

@[simp] theorem write_some_committed :
    (l.write changes (some id)).committed = l.committed := rfl

@[simp] theorem write_none_pending : (l.write changes none).pending = l.pending := rfl

/-- A transaction begun has nothing pending yet, and the others have what they had. -/
theorem begin_pending (j : TransactionId) :
    (l.begin id).pending j = if j = id then some .nothing else l.pending j := by
  simp [begin, Function.update_apply]

/-- A transaction closed has nothing pending any more, and the others have what they had. -/
theorem close_pending (j : TransactionId) :
    (l.close id).pending j = if j = id then none else l.pending j := by
  simp [close, Function.update_apply]

/-- A commit closes its transaction. -/
theorem commit_pending (j : TransactionId) :
    (l.commit id).pending j = if j = id then none else l.pending j := by
  simp [commit, Function.update_apply]

/-- A write is put after what its transaction has pending. -/
theorem write_some_pending (j : TransactionId) :
    (l.write changes (some id)).pending j =
      if j = id then (l.pending id).map changes.after else l.pending j := by
  simp [write, Function.update_apply]

/-- Writing nothing leaves a ledger as it is. -/
@[simp] theorem write_nothing (ctx : Context) : l.write .nothing ctx = l := by
  cases ctx with
  | none => rfl
  | some id =>
    refine Ledger.ext rfl (funext fun j => ?_)
    rw [write_some_pending]
    split
    · next h =>
      -- whether it is open or not, its entry is the one from before
      rw [h]
      cases l.pending id <;> simp
    · rfl

/-- Two writes in one context are one. -/
theorem write_write (later : Changes κ α) (ctx : Context) :
    (l.write changes ctx).write later ctx = l.write (later.after changes) ctx := by
  cases ctx with
  | none =>
    refine Ledger.ext ?_ rfl
    simp only [write_none_committed, Changes.after_applyTo]
  | some id =>
    refine Ledger.ext rfl (funext fun j => ?_)
    simp only [write_some_pending, if_true]
    split
    · cases l.pending id with
      | none => rfl
      | some earlier => simp only [Option.map_some, Changes.after_assoc]
    · rfl

/-- A context sees what was written in it. -/
theorem view_write {ctx : Context} (h : l.Usable ctx) :
    (l.write changes ctx).view ctx = changes.applyTo (l.view ctx) := by
  cases ctx with
  | none => rfl
  | some id =>
    -- only here the transaction must be open: writes of any other come to nothing
    obtain ⟨earlier, hp⟩ := Option.isSome_iff_exists.1 h
    simp only [view, write_some_pending, if_true, hp, Option.map_some, Option.getD_some,
      write_some_committed, Changes.after_applyTo]

/-- A transaction of its own that writes and is committed is a write without one. -/
theorem commit_write_begin (h : l.pending id = none) :
    ((l.begin id).write changes (some id)).commit id = l.write changes none := by
  refine Ledger.ext ?_ (funext fun j => ?_)
  -- what is committed is what the transaction saw, its writes over the committed bindings
  · simp [view, write_some_pending, begin_pending]
  · simp only [commit_pending, write_some_pending, begin_pending, write_none_pending]
    split
    · next hj => rw [hj, h]
    · rfl

/-- A transaction of its own that writes and is closed changes nothing. -/
theorem close_write_begin (h : l.pending id = none) :
    ((l.begin id).write changes (some id)).close id = l := by
  refine Ledger.ext rfl (funext fun j => ?_)
  simp only [close_pending, write_some_pending, begin_pending]
  split
  · next hj => rw [hj, h]
  · rfl

/-- Closing a transaction that is not open changes nothing. -/
theorem close_of_pending_eq_none (h : l.pending id = none) : l.close id = l := by
  refine Ledger.ext rfl (funext fun j => ?_)
  rw [close_pending]
  split
  · next hj => rw [hj, h]
  · rfl

end Equations

end Ledger

end SecondaryIndex
