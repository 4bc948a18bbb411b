import SecondaryIndex.Proofs.Ledger.Basic

/-!
# What a trace of events determines

A trace lists what happened to a ledger, newest event first. Everything that a history determines
about transactions is read off the trace: which of them are open (`Trace.IsOpen`), what an open one
wrote last (`Trace.written`), and the batches that were committed, in commit order
(`Trace.batches`). A trace also has a ledger, the one that its events lead to (`Trace.ledger`).

The two readings agree on traces in which only open transactions write and commit
(`Trace.Proper`): the writes of an open transaction are the pending ones
(`Trace.pending_ledger_of_isOpen`), and the committed bindings are the replay of the committed batches
(`Trace.Proper.committed_ledger`).
-/

namespace SecondaryIndex

/-- What can happen to a ledger. -/
inductive LedgerEvent (κ α : Type)
  /-- A transaction was begun. -/
  | opens (id : TransactionId)
  /-- A transaction set a key, or removed it. -/
  | writes (id : TransactionId) (x : κ) (slot : Option α)
  /-- A transaction was committed. -/
  | commits (id : TransactionId)
  /-- A transaction ended without being committed. -/
  | ends (id : TransactionId)
  deriving DecidableEq

/-- What happened to a ledger, newest event first. -/
abbrev Trace (κ α : Type) := List (LedgerEvent κ α)

variable {κ α : Type} [DecidableEq κ]

/-- The ledger after an event. -/
def Ledger.after (l : Ledger κ α) : LedgerEvent κ α → Ledger κ α
  | .opens id => l.begin id
  | .writes id x slot => l.write (.single x slot) (some id)
  | .commits id => l.commit id
  | .ends id => l.close id

/-- The ledger after an event, if there was one. -/
def Ledger.after? (l : Ledger κ α) : Option (LedgerEvent κ α) → Ledger κ α
  | none => l
  | some event => l.after event

namespace Trace

/-- The ledger that a trace leads to. -/
def ledger : Trace κ α → Ledger κ α
  | [] => .empty
  | event :: older => (ledger older).after event

omit [DecidableEq κ] in
/-- Whether a transaction was begun and has not ended since. -/
def IsOpen : Trace κ α → TransactionId → Prop
  | [], _ => False
  | .opens id' :: older, id => id' = id ∨ IsOpen older id
  | .writes _ _ _ :: older, id => IsOpen older id
  | .commits id' :: older, id => id' ≠ id ∧ IsOpen older id
  | .ends id' :: older, id => id' ≠ id ∧ IsOpen older id

/-- The last write of a transaction to each key since it was begun. -/
def written : Trace κ α → TransactionId → Changes κ α
  | [], _ => .nothing
  | .opens id' :: older, id => if id' = id then .nothing else written older id
  | .writes id' x slot :: older, id =>
    if id' = id then Changes.after (.single x slot) (written older id) else written older id
  | .commits _ :: older, id => written older id
  | .ends _ :: older, id => written older id

/-- The complete writes of the committed transactions, in commit order. -/
def batches : Trace κ α → List (Changes κ α)
  | [] => []
  | .commits id :: older => batches older ++ [written older id]
  | .opens _ :: older => batches older
  | .writes _ _ _ :: older => batches older
  | .ends _ :: older => batches older

omit [DecidableEq κ] in
/-- What is there after batches of writes were made one after the other, from nothing on. -/
def replay (batches : List (Changes κ α)) : κ → Option α :=
  batches.foldl (fun base batch => batch.applyTo base) fun _ => none

omit [DecidableEq κ] in
/-- Whether no transaction was begun twice, and only open ones write and commit. -/
def Proper : Trace κ α → Prop
  | [] => True
  | .opens id :: older => .opens id ∉ older ∧ Proper older
  | .writes id _ _ :: older => IsOpen older id ∧ Proper older
  | .commits id :: older => IsOpen older id ∧ Proper older
  | .ends _ :: older => Proper older

/-- Whether another transaction was committed after one had begun, with a write to a key. -/
def Overwritten (t : Trace κ α) (id : TransactionId) (x : κ) : Prop :=
  ∃ id', ∃ older : Trace κ α, .commits id' :: older <:+ t ∧ id' ≠ id ∧ .opens id ∈ older ∧
    older.written id' x ≠ none

/-! ### The ledger of a trace -/

/-- Exactly the open transactions have pending writes. -/
theorem isSome_pending_ledger (t : Trace κ α) (id : TransactionId) :
    (t.ledger.pending id).isSome ↔ t.IsOpen id := by
  induction t with
  | nil => simp [ledger, Ledger.empty, IsOpen]
  | cons event older ih =>
    -- each event touches the entry of its own transaction only
    cases event with
    | opens id' =>
      simp only [ledger, Ledger.after, Ledger.begin_pending, IsOpen]
      by_cases h : id = id'
      · simp [h]
      · rw [if_neg h, ih]
        exact ⟨Or.inr, fun h' => h'.resolve_left (Ne.symm h)⟩
    | writes id' x slot =>
      simp only [ledger, Ledger.after, Ledger.write_some_pending, IsOpen]
      by_cases h : id = id'
      · simpa [h] using h ▸ ih
      · rw [if_neg h, ih]
    | commits id' =>
      simp only [ledger, Ledger.after, Ledger.commit_pending, IsOpen]
      by_cases h : id = id'
      · simp [h]
      · rw [if_neg h, ih]
        exact ⟨fun h' => ⟨Ne.symm h, h'⟩, And.right⟩
    | ends id' =>
      simp only [ledger, Ledger.after, Ledger.close_pending, IsOpen]
      by_cases h : id = id'
      · simp [h]
      · rw [if_neg h, ih]
        exact ⟨fun h' => ⟨Ne.symm h, h'⟩, And.right⟩

/-- What is pending of a transaction is what it wrote. -/
theorem pending_ledger {t : Trace κ α} {id : TransactionId} {changes : Changes κ α}
    (h : t.ledger.pending id = some changes) : changes = t.written id := by
  -- by induction on the trace; an event of another transaction leaves both sides as they are
  induction t generalizing changes with
  | nil => cases h
  | cons event older ih =>
    cases event with
    | opens id' =>
      simp only [ledger, Ledger.after, Ledger.begin_pending] at h
      by_cases hid : id = id'
      · rw [if_pos hid] at h
        simp [written, hid, ← Option.some.inj h]
      · rw [if_neg hid] at h
        rw [written, if_neg (Ne.symm hid)]
        exact ih h
    | writes id' x slot =>
      simp only [ledger, Ledger.after, Ledger.write_some_pending] at h
      by_cases hid : id = id'
      · subst hid
        rw [if_pos rfl] at h
        -- its own write is put after what was pending, on both sides
        obtain ⟨earlier, hp, rfl⟩ := Option.map_eq_some_iff.1 h
        rw [written, if_pos rfl, ih hp]
      · rw [if_neg hid] at h
        rw [written, if_neg (Ne.symm hid)]
        exact ih h
    | commits id' =>
      simp only [ledger, Ledger.after, Ledger.commit_pending] at h
      by_cases hid : id = id'
      · rw [if_pos hid] at h
        cases h
      · rw [if_neg hid] at h
        exact ih h
    | ends id' =>
      simp only [ledger, Ledger.after, Ledger.close_pending] at h
      by_cases hid : id = id'
      · rw [if_pos hid] at h
        cases h
      · rw [if_neg hid] at h
        exact ih h

theorem pending_ledger_of_isOpen {t : Trace κ α} {id : TransactionId} (h : t.IsOpen id) :
    t.ledger.pending id = some (t.written id) := by
  obtain ⟨changes, hc⟩ := Option.isSome_iff_exists.1 ((isSome_pending_ledger t id).2 h)
  rw [hc, pending_ledger hc]

omit [DecidableEq κ] in
theorem replay_append (bs : List (Changes κ α)) (b : Changes κ α) :
    replay (bs ++ [b]) = b.applyTo (replay bs) := by
  simp [replay, List.foldl_append]

/-- What is committed is the replay of the committed batches. -/
theorem Proper.committed_ledger {t : Trace κ α} (h : t.Proper) :
    t.ledger.committed = replay t.batches := by
  induction t with
  | nil => rfl
  | cons event older ih =>
    cases event with
    | opens id => exact ih h.2
    | writes id x slot => exact ih h.2
    | commits id =>
      -- the transaction is open, so what it has pending is its complete batch
      have hp := pending_ledger_of_isOpen h.1
      rw [batches, replay_append, ← ih h.2]
      simp [ledger, Ledger.after, Ledger.view, hp]
    | ends id => exact ih h

/-! ### Transactions end once -/

omit [DecidableEq κ] in
theorem opens_mem_of_isOpen {t : Trace κ α} {id : TransactionId} (h : t.IsOpen id) :
    .opens id ∈ t := by
  induction t with
  | nil => exact h.elim
  | cons event older ih =>
    cases event with
    | opens id' =>
      rcases h with rfl | h
      · exact List.mem_cons_self
      · exact List.mem_cons_of_mem _ (ih h)
    | writes id' x slot => exact List.mem_cons_of_mem _ (ih h)
    | commits id' => exact List.mem_cons_of_mem _ (ih h.2)
    | ends id' => exact List.mem_cons_of_mem _ (ih h.2)

omit [DecidableEq κ] in
theorem Proper.tail {event : LedgerEvent κ α} {older : Trace κ α}
    (h : Proper (event :: older)) : older.Proper := by
  cases event with
  | opens id => exact h.2
  | writes id x slot => exact h.2
  | commits id => exact h.2
  | ends id => exact h

omit [DecidableEq κ] in
/-- A transaction that was begun and is not open is never open again. -/
theorem Proper.not_isOpen {newer older : Trace κ α} {id : TransactionId}
    (h : Proper (newer ++ older)) (hopened : .opens id ∈ older) (hclosed : ¬ older.IsOpen id) :
    ¬ IsOpen (newer ++ older) id := by
  induction newer with
  | nil => exact hclosed
  | cons event newer ih =>
    have hrest := ih h.tail
    cases event with
    | opens id' =>
      rintro (rfl | hopen)
      -- it would have to be begun a second time
      · exact h.1 (List.mem_append_right _ hopened)
      · exact hrest hopen
    | writes id' x slot => exact hrest
    | commits id' => exact fun hopen => hrest hopen.2
    | ends id' => exact fun hopen => hrest hopen.2

omit [DecidableEq κ] in
/-- A transaction is committed at most once. -/
theorem Proper.commits_notMem {newer older : Trace κ α} {id : TransactionId}
    (h : Proper (newer ++ .commits id :: older)) : .commits id ∉ newer := by
  have hsuffix {t : Trace κ α} (later : Trace κ α) (h : Proper (later ++ t)) : t.Proper := by
    induction later with
    | nil => exact h
    | cons event later ih => exact ih h.tail
  intro hmem
  -- at the later commit it would be open again, though the earlier one has ended it
  obtain ⟨newest, between, rfl⟩ := List.append_of_mem hmem
  rw [List.append_assoc] at h
  have hagain : IsOpen (between ++ .commits id :: older) id := (hsuffix newest h).1
  have hfirst : IsOpen older id := (hsuffix between (hsuffix newest h).2).1
  exact Proper.not_isOpen (hsuffix newest h).2
    (List.mem_cons_of_mem _ (opens_mem_of_isOpen hfirst)) (fun hopen => hopen.1 rfl) hagain

/-! ### Overwritten keys -/

theorem overwritten_cons {event : LedgerEvent κ α} {older : Trace κ α} {id : TransactionId} {x : κ} :
    Overwritten (event :: older) id x ↔
      (∃ id', event = .commits id' ∧ id' ≠ id ∧ .opens id ∈ older ∧ older.written id' x ≠ none) ∨
        Overwritten older id x := by
  constructor
  · rintro ⟨id', older', hsuffix, hne, hopened, hwritten⟩
    rcases List.suffix_cons_iff.1 hsuffix with heq | hsuffix
    · obtain ⟨rfl, rfl⟩ := List.cons.inj heq
      exact .inl ⟨id', rfl, hne, hopened, hwritten⟩
    · exact .inr ⟨id', older', hsuffix, hne, hopened, hwritten⟩
  · rintro (⟨id', rfl, hne, hopened, hwritten⟩ | ⟨id', older', hsuffix, hne, hopened, hwritten⟩)
    · exact ⟨id', older, List.suffix_refl _, hne, hopened, hwritten⟩
    · exact ⟨id', older', hsuffix.trans (List.suffix_cons _ _), hne, hopened, hwritten⟩

theorem overwritten_cons_of_not_commits {event : LedgerEvent κ α} {older : Trace κ α}
    {id : TransactionId} {x : κ} (h : ∀ id', event ≠ .commits id') :
    Overwritten (event :: older) id x ↔ Overwritten older id x := by
  rw [overwritten_cons, or_iff_right]
  rintro ⟨id', heq, -⟩
  exact h id' heq

/-- A transaction that was not begun has nothing overwritten. -/
theorem Overwritten.opens_mem {t : Trace κ α} {id : TransactionId} {x : κ}
    (h : t.Overwritten id x) : .opens id ∈ t := by
  obtain ⟨id', older, hsuffix, -, hopened, -⟩ := h
  exact hsuffix.subset (List.mem_cons_of_mem _ hopened)

end Trace

end SecondaryIndex
