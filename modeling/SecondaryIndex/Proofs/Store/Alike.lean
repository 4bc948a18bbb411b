import SecondaryIndex.Proofs.Store.Read

/-!
# Stores that no transaction can tell apart

Creating a namespace and flushing one, or all of them, rearrange a store: every record stays where a
read finds it, the last writes, the commit number and the registry stay as they are, and at most an
empty table is new. `Store.Alike` says this once for all of them.
-/

namespace SecondaryIndex

/-- Two tables with the same records and the same last writes, however the records are layered. -/
structure Table.Alike (t t' : Table) : Prop where
  get? : t'.get? = t.get?
  lastWrite : t'.lastWrite = t.lastWrite

/-- A store with tables like those of another, and perhaps with further, empty ones. -/
structure Store.Alike (s s' : Store) : Prop where
  options : s'.options = s.options
  lastCommit : s'.lastCommit = s.lastCommit
  active : s'.active = s.active
  /-- What is there stays and stays alike. -/
  old : ∀ ns t, s.tables.get? ns = some t → ∃ t', s'.tables.get? ns = some t' ∧ t.Alike t'
  /-- What is new is empty. -/
  new : ∀ ns t', s.tables.get? ns = none → s'.tables.get? ns = some t' → t' = ∅

/-- A flushed table shows what it showed, and has the same last writes. -/
theorem Table.alike_flush (t : Table) : t.Alike t.flush :=
  ⟨funext fun key => Table.get?_flush t key, rfl⟩

namespace Store

variable {s s' : Store}

/-- Stores with the same tables are alike. -/
theorem Alike.of_tables_eq (hoptions : s'.options = s.options) (hlast : s'.lastCommit = s.lastCommit)
    (hactive : s'.active = s.active) (htables : s'.tables = s.tables) : s.Alike s' where
  options := hoptions
  lastCommit := hlast
  active := hactive
  old ns t h := ⟨t, by rw [htables, h], rfl, rfl⟩
  new ns t h h' := by
    rw [htables, h] at h'
    cases h'

theorem Alike.refl (s : Store) : s.Alike s := .of_tables_eq rfl rfl rfl rfl

/-- Stores that are alike have the same records committed. -/
theorem Alike.read_eq (h : s.Alike s') : s'.read = s.read := by
  funext x
  unfold read
  cases ht : s.tables.get? x.1 with
  | some t =>
    obtain ⟨t', ht', halike⟩ := h.old _ _ ht
    rw [ht', Option.bind_some, Option.bind_some, halike.get?]
  | none =>
    cases ht' : s'.tables.get? x.1 with
    | none => rfl
    | some t' =>
      rw [h.new _ _ ht ht']
      rfl

/-- A new namespace holds no record. -/
theorem alike_createNamespace (s : Store) (ns : Namespace) : s.Alike (s.createNamespace ns) := by
  unfold createNamespace
  split
  · exact .refl s
  · next hnew =>
    rw [SortedMap.contains, Bool.not_eq_true, Option.isSome_eq_false_iff,
      Option.isNone_iff_eq_none] at hnew
    refine ⟨rfl, rfl, rfl, fun n t h => ⟨t, ?_, rfl, rfl⟩, fun n t h h' => ?_⟩
    · have hne : ns ≠ n := by
        rintro rfl
        rw [hnew] at h
        cases h
      rw [SortedMap.get?_insert, if_neg hne, h]
    · rw [SortedMap.get?_insert] at h'
      split at h'
      · exact (Option.some.inj h').symm
      · rw [h] at h'
        cases h'

/-- A flush of one namespace moves records and changes none. -/
theorem alike_flush {ns : Namespace} (h : s.flush ns = .ok s') : s.Alike s' := by
  unfold Store.flush at h
  cases ht : s.table ns with
  | error e =>
    rw [ht] at h
    cases h
  | ok table =>
    rw [ht] at h
    cases h
    rw [table_eq_ok_iff] at ht
    -- the table is put back under its name, so no table is new
    refine ⟨rfl, rfl, rfl, fun n t hn => ?_, fun n t hn hn' => ?_⟩
    · simp only [SortedMap.get?_insert]
      split
      · next heq =>
        rw [← heq, ht] at hn
        cases hn
        exact ⟨_, rfl, Table.alike_flush _⟩
      · exact ⟨t, hn, rfl, rfl⟩
    · simp only [SortedMap.get?_insert] at hn'
      split at hn'
      · next heq =>
        rw [← heq, ht] at hn
        cases hn
      · rw [hn] at hn'
        cases hn'

/-- A flush of all namespaces moves records and changes none. -/
theorem alike_flushAll (s : Store) : s.Alike s.flushAll := by
  refine ⟨rfl, rfl, rfl, fun n t hn => ?_, fun n t hn hn' => ?_⟩
  · refine ⟨t.flush, ?_, Table.alike_flush t⟩
    simp [flushAll, hn]
  · simp [flushAll, hn] at hn'

end Store

end SecondaryIndex
