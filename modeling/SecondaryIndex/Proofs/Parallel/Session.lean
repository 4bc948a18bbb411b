import SecondaryIndex.Proofs.Parallel.Query
import SecondaryIndex.Session.Run

/-!
# Sessions side by side

Two sessions are alike if their handles have the same meanings over alike databases. The second one
may have handles beyond that, which belong to its extra transaction: the handle of the transaction
itself, and those of iterators and cursors that were opened in it (`Comparison.Sessions`).

Whatever a step does to a session, it changes the database and the meaning of at most one handle. So
that sessions stay alike is one lemma, `Sessions.update`, and handles that are given anew, dropped and
moved are cases of it.
-/

namespace SecondaryIndex

namespace Session

/-! ### Handles and their meanings -/

/-- A handle, with the kind of what it stands for. -/
abbrev Holding := HandleKind × Handle

/-- What a handle stands for. -/
inductive Meaning
  | transaction (id : TransactionId)
  | iterator (iterator : RawIterator)
  | index (held : IndexHandle)
  | cursor (held : CursorHandle)

/-- What a session keeps under a handle of a kind. -/
def meaning (session : Session) : Holding → Option Meaning
  | (.transaction, tx) => (session.transactions.get? tx).map .transaction
  | (.iterator, it) => (session.iterators.get? it).map .iterator
  | (.index, ix) => (session.indexes.get? ix).map .index
  | (.cursor, c) => (session.cursors.get? c).map .cursor

/-- Where a map binds a key anew. -/
theorem map_get?_insert {α β : Type} (f : α → β) (m : SortedMap Handle α) (k j : Handle) (a : α) :
    ((m.insert k a).get? j).map f = if j = k then some (f a) else (m.get? j).map f := by
  rw [SortedMap.get?_insert]
  by_cases h : k = j
  · rw [if_pos h, if_pos h.symm, Option.map_some]
  · rw [if_neg h, if_neg fun heq => h heq.symm]

/-- Where a map binds a key no longer. -/
theorem map_get?_erase {α β : Type} (f : α → β) (m : SortedMap Handle α) (k j : Handle) :
    ((m.erase k).get? j).map f = if j = k then none else (m.get? j).map f := by
  rw [SortedMap.get?_erase]
  split <;> rfl

variable (session : Session) (database : Database) (holding : Holding)

/-- A handle is held if it stands for something. -/
theorem isHeld_eq (kind : HandleKind) (handle : Handle) :
    session.isHeld kind handle = (session.meaning (kind, handle)).isSome := by
  cases kind <;> simp [isHeld, meaning, SortedMap.contains]

/-- A handle that is given to a transaction means that transaction, and others mean what they did. -/
theorem meaning_insert_transaction (tx : Handle) (id : TransactionId) :
    ({ session with database, transactions := session.transactions.insert tx id } : Session).meaning
      holding = if holding = (.transaction, tx) then some (.transaction id)
        else session.meaning holding := by
  obtain ⟨kind, handle⟩ := holding
  -- the map of the one kind is read after the insertion, those of the others are as before
  cases kind <;> simp [meaning, map_get?_insert, -SortedMap.get?_insert]

/-- An iterator put under a handle is what the handle means, and the others mean what they did. -/
theorem meaning_insert_iterator (it : Handle) (iterator : RawIterator) :
    ({ session with database, iterators := session.iterators.insert it iterator } : Session).meaning
      holding = if holding = (.iterator, it) then some (.iterator iterator)
        else session.meaning holding := by
  obtain ⟨kind, handle⟩ := holding
  cases kind <;> simp [meaning, map_get?_insert, -SortedMap.get?_insert]

/-- An index put under a handle is what the handle means, and the others mean what they did. -/
theorem meaning_insert_index (ix : Handle) (held : IndexHandle) :
    ({ session with database, indexes := session.indexes.insert ix held } : Session).meaning
      holding = if holding = (.index, ix) then some (.index held)
        else session.meaning holding := by
  obtain ⟨kind, handle⟩ := holding
  cases kind <;> simp [meaning, map_get?_insert, -SortedMap.get?_insert]

/-- A cursor put under a handle is what the handle means, and the others mean what they did. -/
theorem meaning_insert_cursor (c : Handle) (held : CursorHandle) :
    ({ session with database, cursors := session.cursors.insert c held } : Session).meaning
      holding = if holding = (.cursor, c) then some (.cursor held)
        else session.meaning holding := by
  obtain ⟨kind, handle⟩ := holding
  cases kind <;> simp [meaning, map_get?_insert, -SortedMap.get?_insert]

/-- A handle that is struck off means nothing. -/
theorem meaning_erase_cursor (c : Handle) :
    ({ session with database, cursors := session.cursors.erase c } : Session).meaning
      holding = if holding = (.cursor, c) then none else session.meaning holding := by
  obtain ⟨kind, handle⟩ := holding
  cases kind <;> simp [meaning, map_get?_erase, -SortedMap.get?_erase]

/-- To drop a transaction is to strike off its handle alone. -/
theorem meaning_dropTransaction (tx : Handle) :
    (session.dropTransaction tx).meaning holding =
      if holding = (.transaction, tx) then none else session.meaning holding := by
  cases hget : session.transactions.get? tx with
  | some id =>
    obtain ⟨kind, handle⟩ := holding
    cases kind <;> simp [dropTransaction, hget, meaning, map_get?_erase, -SortedMap.get?_erase]
  | none =>
    -- nothing is dropped where nothing was held
    have hsame : session.dropTransaction tx = session := by simp only [dropTransaction, hget]
    rw [hsame]
    split
    · next heq => simp [heq, meaning, hget]
    · rfl

/-- To drop an iterator is to strike off its handle alone. -/
theorem meaning_dropIterator (it : Handle) :
    (session.dropIterator it).meaning holding =
      if holding = (.iterator, it) then none else session.meaning holding := by
  cases hget : session.iterators.get? it with
  | some iterator =>
    obtain ⟨kind, handle⟩ := holding
    cases kind <;> simp [dropIterator, hget, meaning, map_get?_erase, -SortedMap.get?_erase]
  | none =>
    have hsame : session.dropIterator it = session := by simp only [dropIterator, hget]
    rw [hsame]
    split
    · next heq => simp [heq, meaning, hget]
    · rfl

/-- To drop a cursor is to strike off its handle alone. -/
theorem meaning_dropCursor (c : Handle) :
    (session.dropCursor c).meaning holding =
      if holding = (.cursor, c) then none else session.meaning holding := by
  cases hget : session.cursors.get? c with
  | some held =>
    rw [← meaning_erase_cursor session (held.cursor.release session.database)]
    simp only [dropCursor, hget]
  | none =>
    have hsame : session.dropCursor c = session := by simp only [dropCursor, hget]
    rw [hsame]
    split
    · next heq => simp [heq, meaning, hget]
    · rfl

/-! A handle that is given anew. -/

/-- A handle that was in use is dropped before it is given again. -/
theorem meaning_holdTransaction (tx : Handle) (id : TransactionId) :
    ({ session.dropTransaction tx with
      transactions := (session.dropTransaction tx).transactions.insert tx id } : Session).meaning
      holding = if holding = (.transaction, tx) then some (.transaction id)
        else session.meaning holding := by
  refine (meaning_insert_transaction _ _ _ tx id).trans ?_
  rw [meaning_dropTransaction]
  split <;> rfl

theorem meaning_holdIterator (it : Handle) (iterator : RawIterator) :
    ({ session.dropIterator it with
      iterators := (session.dropIterator it).iterators.insert it iterator } : Session).meaning
      holding = if holding = (.iterator, it) then some (.iterator iterator)
        else session.meaning holding := by
  refine (meaning_insert_iterator _ _ _ it iterator).trans ?_
  rw [meaning_dropIterator]
  split <;> rfl

theorem meaning_holdCursor (c : Handle) (held : CursorHandle) :
    ({ session.dropCursor c with
      cursors := (session.dropCursor c).cursors.insert c held } : Session).meaning
      holding = if holding = (.cursor, c) then some (.cursor held)
        else session.meaning holding := by
  refine (meaning_insert_cursor _ _ _ c held).trans ?_
  rw [meaning_dropCursor]
  split <;> rfl

end Session

namespace Comparison

open Session

variable (c : Comparison) {owned : List Holding}

/-! ### Alike sessions -/

/-- Meanings that are the same, up to the numbers of transactions and up to counters. -/
inductive Meanings : Meaning → Meaning → Prop
  | transaction (id : TransactionId) : Meanings (.transaction id) (.transaction (c.rename id))
  | iterator (iterator : RawIterator) : Meanings (.iterator iterator) (.iterator iterator)
  | index {keys values : ItemKind} {index index' : AnyIndex keys.Carrier values.Carrier}
    (alike : c.Indexes index index') :
    Meanings (.index ⟨keys, values, index⟩) (.index ⟨keys, values, index'⟩)
  | cursor {kind : ItemKind} {cursor cursor' : Cursor kind.Carrier} {done? : Option Bool}
    (alike : c.Cursors cursor cursor') :
    Meanings (.cursor ⟨kind, cursor, done?⟩) (.cursor ⟨kind, cursor', done?⟩)

/-- Sessions that are alike but for some handles, which only the second one may have and which belong
to its extra transaction. -/
structure Sessions (owned : List Holding) (s s' : Session) : Prop where
  database : c.Databases s.database s'.database
  meanings : ∀ holding ∉ owned, Option.Rel c.Meanings (s.meaning holding) (s'.meaning holding)
  absent : ∀ holding ∈ owned, s.meaning holding = none
  /-- If one of the handles is that of a transaction, it is that of the extra one. -/
  extra : ∀ holding ∈ owned, ∀ id, s'.meaning holding = some (.transaction id) → c.extra = some id
  isSome_extra : owned ≠ [] → c.extra.isSome
  /-- Indexes belong to no transaction. -/
  index_notMem : ∀ ix, (.index, ix) ∉ owned

variable {c} {s s' t t' : Session}

/-- The second database may change by what its extra transaction does. -/
theorem Databases.aside {db db' db'' : Database} {id : TransactionId} (h : c.Databases db db')
    (hextra : c.extra = some id) (haside : db'.engine.Aside id db''.engine) :
    c.Databases db db'' :=
  ⟨c.aside hextra h.engines haside, fun hcounters =>
    absurd hcounters (c.not_counters (Option.isSome_iff_exists.2 ⟨id, hextra⟩))⟩

namespace Sessions

/-- What belongs to the extra transaction and is not held any more can be forgotten. -/
theorem filter (h : c.Sessions owned s s') {keep : Holding → Bool}
    (hgone : ∀ holding ∈ owned, keep holding = false → s'.meaning holding = none) :
    c.Sessions (owned.filter keep) s s' := by
  refine ⟨h.database, fun holding hnot => ?_, fun holding hmem => h.absent _ (List.mem_of_mem_filter hmem),
    fun holding hmem => h.extra _ (List.mem_of_mem_filter hmem), fun hne => h.isSome_extra ?_,
    fun ix hmem => h.index_notMem ix (List.mem_of_mem_filter hmem)⟩
  · by_cases howned : holding ∈ owned
    · have hkeep : keep holding = false := by
        rw [Bool.eq_false_iff]
        exact fun hk => hnot (List.mem_filter.2 ⟨howned, hk⟩)
      rw [h.absent _ howned, hgone _ howned hkeep]
      exact .none
    · exact h.meanings _ howned
  · rintro rfl
    exact hne rfl

section Update

variable (h : c.Sessions owned s s') {holding : Holding} {meaning? meaning?' : Option Meaning}
  (hdatabase : c.Databases t.database t'.database) (hat : Option.Rel c.Meanings meaning? meaning?')
  (ht : ∀ other, t.meaning other = if other = holding then meaning? else s.meaning other)
  (ht' : ∀ other, t'.meaning other = if other = holding then meaning?' else s'.meaning other)

include h hdatabase hat ht ht'

/-- Both sessions have given one handle a new meaning, and it is theirs from now on. -/
theorem update : c.Sessions (owned.filter fun other => some other ≠ some holding) t t' := by
  have hmem {other : Holding} (hother : other ∈ owned.filter fun other => some other ≠ some holding) :
      other ∈ owned ∧ other ≠ holding := by simpa using hother
  refine ⟨hdatabase, fun other hnot => ?_, fun other hother => ?_, fun other hother => ?_, fun hne =>
    h.isSome_extra ?_, fun ix hix => h.index_notMem ix (List.mem_of_mem_filter hix)⟩
  · rw [ht, ht']
    by_cases heq : other = holding
    · rw [if_pos heq, if_pos heq]
      exact hat
    · rw [if_neg heq, if_neg heq]
      exact h.meanings _ fun howned => hnot (by simp [howned, heq])
  · rw [ht, if_neg (hmem hother).2]
    exact h.absent _ (hmem hother).1
  · rw [ht', if_neg (hmem hother).2]
    exact h.extra _ (hmem hother).1
  · rintro rfl
    exact hne rfl

/-- The same, of a handle that was theirs before. -/
theorem update_of_notMem (hnot : holding ∉ owned) : c.Sessions owned t t' := by
  have hsame : (owned.filter fun other => some other ≠ some holding) = owned := by
    refine List.filter_eq_self.2 fun other hother => ?_
    have hne : other ≠ holding := fun heq => hnot (heq ▸ hother)
    simpa using hne
  have hupdate := h.update hdatabase hat ht ht'
  rwa [hsame] at hupdate

end Update

/-- Sessions stay alike if only their databases are changed, and these stay alike. -/
theorem withDatabase (h : c.Sessions owned s s') {db db' : Database} (hdb : c.Databases db db') :
    c.Sessions owned { s with database := db } { s' with database := db' } :=
  ⟨hdb, h.meanings, h.absent, h.extra, h.isSome_extra, h.index_notMem⟩

/-! ### What handles stand for -/

/-- A handle that does not belong to the extra transaction stands for corresponding transactions, or for none. -/
theorem transaction_cases (h : c.Sessions owned s s') {tx : Handle}
    (hnot : (.transaction, tx) ∉ owned) :
    (s.transactions.get? tx = none ∧ s'.transactions.get? tx = none) ∨
      ∃ id, s.transactions.get? tx = some id ∧ s'.transactions.get? tx = some (c.rename id) := by
  have hrel := h.meanings _ hnot
  simp only [meaning] at hrel
  cases hget : s.transactions.get? tx <;> cases hget' : s'.transactions.get? tx <;>
    rw [hget, hget'] at hrel <;> cases hrel
  · exact .inl ⟨rfl, rfl⟩
  · next hmeaning =>
    cases hmeaning
    exact .inr ⟨_, rfl, rfl⟩

/-- It stands for the same iterator, or for none. -/
theorem iterator_cases (h : c.Sessions owned s s') {it : Handle} (hnot : (.iterator, it) ∉ owned) :
    (s.iterators.get? it = none ∧ s'.iterators.get? it = none) ∨
      ∃ iterator, s.iterators.get? it = some iterator ∧ s'.iterators.get? it = some iterator := by
  have hrel := h.meanings _ hnot
  simp only [meaning] at hrel
  cases hget : s.iterators.get? it <;> cases hget' : s'.iterators.get? it <;>
    rw [hget, hget'] at hrel <;> cases hrel
  · exact .inl ⟨rfl, rfl⟩
  · next hmeaning =>
    cases hmeaning
    exact .inr ⟨_, rfl, rfl⟩

/-- It stands for indexes that are alike, or for none. -/
theorem index_cases (h : c.Sessions owned s s') (ix : Handle) :
    (s.indexes.get? ix = none ∧ s'.indexes.get? ix = none) ∨
      ∃ keys values index index', s.indexes.get? ix = some ⟨keys, values, index⟩ ∧
        s'.indexes.get? ix = some ⟨keys, values, index'⟩ ∧ c.Indexes index index' := by
  have hrel := h.meanings _ (h.index_notMem ix)
  simp only [meaning] at hrel
  cases hget : s.indexes.get? ix <;> cases hget' : s'.indexes.get? ix <;>
    rw [hget, hget'] at hrel <;> cases hrel
  · exact .inl ⟨rfl, rfl⟩
  · next hmeaning =>
    cases hmeaning with
    | index alike => exact .inr ⟨_, _, _, _, rfl, rfl, alike⟩

/-- It stands for cursors that are alike, or for none. -/
theorem cursor_cases (h : c.Sessions owned s s') {cur : Handle} (hnot : (.cursor, cur) ∉ owned) :
    (s.cursors.get? cur = none ∧ s'.cursors.get? cur = none) ∨
      ∃ kind cursor cursor' done?, s.cursors.get? cur = some ⟨kind, cursor, done?⟩ ∧
        s'.cursors.get? cur = some ⟨kind, cursor', done?⟩ ∧ c.Cursors cursor cursor' := by
  have hrel := h.meanings _ hnot
  simp only [meaning] at hrel
  cases hget : s.cursors.get? cur <;> cases hget' : s'.cursors.get? cur <;>
    rw [hget, hget'] at hrel <;> cases hrel
  · exact .inl ⟨rfl, rfl⟩
  · next hmeaning =>
    cases hmeaning with
    | cursor alike => exact .inr ⟨_, _, _, _, rfl, rfl, alike⟩

end Sessions

end Comparison

end SecondaryIndex
