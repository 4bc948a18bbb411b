import SecondaryIndex.Proofs.Ledger.Trace

/-!
# Numbers that a trace determines

The transactions that were committed with writes are numbered from 1 on, in commit order. A
transaction that wrote nothing gets no number when it is committed. From the trace alone one can
read off the number of the newest commit (`Trace.commitNumber`), the number of the commit that last
wrote a key (`Trace.latest`), and the commit after which a transaction was begun (`Trace.started`).
Nothing is ever forgotten here: these are the numbers that a store would keep if it kept all of them.
-/

namespace SecondaryIndex

namespace Trace

variable {κ α : Type}

/-- Whether a transaction has written anything since it was begun. -/
def hasWritten : Trace κ α → TransactionId → Bool
  | [], _ => false
  | .opens id' :: older, id => if id' = id then false else hasWritten older id
  | .writes id' _ _ :: older, id => if id' = id then true else hasWritten older id
  | .commits _ :: older, id => hasWritten older id
  | .ends _ :: older, id => hasWritten older id

/-- The number of the newest commit. -/
def commitNumber : Trace κ α → Nat
  | [] => 0
  | .commits id :: older =>
    if hasWritten older id then commitNumber older + 1 else commitNumber older
  | .opens _ :: older => commitNumber older
  | .writes _ _ _ :: older => commitNumber older
  | .ends _ :: older => commitNumber older

/-- The number of the commit that last wrote a key. -/
def latest [DecidableEq κ] : Trace κ α → κ → Option Nat
  | [], _ => none
  | .commits id :: older, x =>
    if (written older id x).isSome then some (commitNumber older + 1) else latest older x
  | .opens _ :: older, x => latest older x
  | .writes _ _ _ :: older, x => latest older x
  | .ends _ :: older, x => latest older x

/-- The number of the newest commit at the time a transaction was begun. -/
def started : Trace κ α → TransactionId → Option Nat
  | [], _ => none
  | .opens id' :: older, id => if id' = id then some (commitNumber older) else started older id
  | .writes _ _ _ :: older, id => started older id
  | .commits _ :: older, id => started older id
  | .ends _ :: older, id => started older id

/-- The numbers after which the transactions that are open now were begun. -/
def openStarts (t : Trace κ α) : Set Nat := {start | ∃ id, t.IsOpen id ∧ t.started id = some start}

variable {t : Trace κ α} {id : TransactionId}

/-- Only a commit with writes gets a number. -/
theorem commitNumber_commits (h : t.hasWritten id = true) :
    commitNumber (.commits id :: t) = t.commitNumber + 1 := by
  rw [commitNumber, if_pos h]

theorem commitNumber_commits_nothing (h : t.hasWritten id = false) :
    commitNumber (.commits id :: t) = t.commitNumber := by
  rw [commitNumber, h, if_neg Bool.false_ne_true]

variable [DecidableEq κ] {x : κ} {seq : Nat}

/-- A transaction has written if and only if there is a key that it wrote. -/
theorem hasWritten_iff : t.hasWritten id = true ↔ ∃ x, t.written id x ≠ none := by
  have hnowhere : ¬ ∃ x, (Changes.nothing : Changes κ α) x ≠ none :=
    not_exists.2 fun _ hx => hx rfl
  induction t with
  | nil => exact iff_of_false Bool.false_ne_true hnowhere
  | cons event older ih =>
    cases event with
    | opens id' =>
      rw [hasWritten, written]
      by_cases h : id' = id
      · rw [if_pos h, if_pos h]
        exact iff_of_false Bool.false_ne_true hnowhere
      · rw [if_neg h, if_neg h]
        exact ih
    | writes id' y slot =>
      rw [hasWritten, written]
      by_cases h : id' = id
      · -- the key of this write is one
        rw [if_pos h, if_pos h]
        exact iff_of_true rfl ⟨y, by simp [Changes.after, Changes.single]⟩
      · rw [if_neg h, if_neg h]
        exact ih
    | commits id' => exact ih
    | ends id' => exact ih

theorem hasWritten_eq_false_iff : t.hasWritten id = false ↔ t.written id = .nothing := by
  rw [← Bool.not_eq_true, hasWritten_iff]
  constructor
  · intro h
    ext1 x
    exact not_not.1 fun hx => h ⟨x, hx⟩
  · intro h ⟨x, hx⟩
    exact hx (congrFun h x)

/-- A transaction that wrote nothing is no last writer. -/
theorem latest_commits_nothing (h : t.written id = .nothing) :
    latest (.commits id :: t) = t.latest := by
  ext1 x
  rw [latest, h]
  exact if_neg Bool.false_ne_true

/-- No key was last written by a commit that is still to come. -/
theorem latest_le (h : t.latest x = some seq) : seq ≤ t.commitNumber := by
  -- by induction on the trace, of which only a commit counts
  induction t with
  | nil => cases h
  | cons event older ih =>
    cases event with
    | commits id' =>
      rw [latest] at h
      by_cases hx : (written older id' x).isSome
      · -- a commit that wrote the key has the newest number
        rw [if_pos hx, Option.some.injEq] at h
        rw [commitNumber_commits (hasWritten_iff.2 ⟨x, Option.isSome_iff_ne_none.1 hx⟩)]
        exact Nat.le_of_eq h.symm
      · rw [if_neg hx] at h
        have hle := ih h
        rw [commitNumber]
        split
        · exact Nat.le_succ_of_le hle
        · exact hle
    | opens id' =>
      rw [latest] at h
      exact ih h
    | writes id' y slot =>
      rw [latest] at h
      exact ih h
    | ends id' =>
      rw [latest] at h
      exact ih h

end Trace

end SecondaryIndex
