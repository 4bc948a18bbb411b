import SecondaryIndex.Proofs.Cursor.Endings
import SecondaryIndex.Proofs.Index.Walks

/-!
# How walks over an index end

A query opens a cursor on the physical keys that its context sees in a range, whatever these are: an index may
find in its namespace what it has not written there (`Index.Opens`). However the cursor is moved from then on,
walks from it end, and all that uses it up agrees on the items after its position
(`Index.Opens.walks_terminate`).

A cursor over the distinct keys finds the bounds of a group by splitting the physical key that it rests on, and
what it reads there it reads by splitting it as well (`Index.Opened.poised`). So a cursor that has read the key
of an entry can leave the group of the entry; only a seek can make it rest on a byte string that is in no group.
-/

namespace SecondaryIndex

variable {α K V : Type}

namespace EntryCodec

variable {codec : EntryCodec K V} {p : Bytes}

/-- A key is read of what can be split. -/
theorem exists_split_of_readKey {key : K} (h : codec.readKey p = .ok key) :
    ∃ parts, codec.layout.split p = .ok parts := by
  unfold readKey at h
  cases hsplit : codec.layout.split p with
  | error err =>
    rw [hsplit] at h
    cases h
  | ok parts => exact ⟨parts, rfl⟩

end EntryCodec

namespace Index

variable {index : Index K V} {ctx : Context} {db db' : Database} {key : K} {range : Range}

/-- The cursors that queries open in a context of a database: over a range of physical keys, and with a
stride. -/
inductive Opens (index : Index K V) (ctx : Context) (db : Database) :
    {α : Type} → Range → Stride → Cursor α → Prop
  | find {key : K} {range : Range} {cursor : Cursor V} {db' : Database}
    (hrange : (index.keyRange key).run db = (.ok range, db))
    (hrun : (index.find ctx key).run db = (.ok cursor, db')) : Opens index ctx db range .entry cursor
  | scanKeys {cursor : Cursor K} {db' : Database}
    (hrun : (index.scanKeys ctx).run db = (.ok cursor, db')) : Opens index ctx db fullRange .entry cursor
  | scanValues {cursor : Cursor V} {db' : Database}
    (hrun : (index.scanValues ctx).run db = (.ok cursor, db')) : Opens index ctx db fullRange .entry cursor
  | scanDistinctKeys {cursor : Cursor K} {db' : Database}
    (hrun : (index.scanDistinctKeys ctx).run db = (.ok cursor, db')) :
    Opens index ctx db fullRange (.group index.codec.layout) cursor

/-- A cursor over the values of a key has been opened over the range of the key. -/
theorem exists_opens_of_find {cursor : Cursor V} (hrun : (index.find ctx key).run db = (.ok cursor, db')) :
    ∃ range, index.Opens ctx db range .entry cursor := by
  have hrange := run_keyRange index key db
  cases hspan : (index.keyRange key).run db with
  | mk outcome db₁ =>
    obtain rfl : db₁ = db := (Prod.mk.inj (hspan.symm.trans hrange)).2
    cases outcome with
    | error err =>
      unfold find at hrun
      rw [Program.run_bind_error hspan] at hrun
      cases hrun
    | ok range => exact ⟨range, .find hspan hrun⟩

/-- A cursor that has just been opened is ready to be moved, if it finds groups only where it reads keys. -/
theorem Opened.poised {view : Place → Option Bytes} {decode : Bytes → Except EncodingError α}
    {seeking : Seeking α} {stride : Stride} {cursor : Cursor α}
    (h : index.Opened view range decode seeking stride cursor)
    (hsplits : ∀ {layout p x}, stride = .group layout → decode p = .ok x →
      ∃ parts, layout.split p = .ok parts) : cursor.Poised where
  sorted := h.listing.sorted
  splits hstride hdecode := hsplits (h.stride.symm.trans hstride) (by rwa [h.decode] at hdecode)
  unclosed := by
    rw [h.position]
    exact nofun
  rests hposition := by
    rw [h.position] at hposition
    cases hposition

/-- What a query opens is a cursor over what its context sees, ready to be moved. -/
theorem Opens.poised {stride : Stride} {cursor : Cursor α} (h : index.Opens ctx db range stride cursor) :
    Listing (db.engine.ledger.view ctx) index.ns range cursor.iterator.keys ∧ cursor.stride = stride ∧
      cursor.Poised := by
  cases h with
  | find hrange hrun =>
    unfold Index.find at hrun
    rw [Program.run_bind_ok hrange] at hrun
    have hopened := opened_of_openCursor hrun
    exact ⟨hopened.listing, hopened.stride, hopened.poised nofun⟩
  | scanKeys hrun =>
    have hopened := opened_of_openCursor hrun
    exact ⟨hopened.listing, hopened.stride, hopened.poised nofun⟩
  | scanValues hrun =>
    have hopened := opened_of_openCursor hrun
    exact ⟨hopened.listing, hopened.stride, hopened.poised nofun⟩
  | scanDistinctKeys hrun =>
    have hopened := opened_of_openCursor hrun
    refine ⟨hopened.listing, hopened.stride, hopened.poised ?_⟩
    rintro layout p x ⟨⟩ hread
    exact EntryCodec.exists_split_of_readKey hread

/-- However a cursor of an index is moved, it walks the physical keys that were seen when it was opened, in their
order; and from wherever it is, repeated steps in either direction give no more items than there are physical
keys before they give nothing or fail, each step of a cursor over distinct keys leads beyond the group that it
leaves, and counting, collecting and iterating give what the repeated step gives, with its error if there is
one: what is read of the physical keys after the position, cut short by faults of the engine only. Nothing is
asked of the physical keys, of the codecs or of the database. -/
theorem Opens.walks_terminate {stride : Stride} {opened cursor : Cursor α}
    (hopens : index.Opens ctx db range stride opened) (hroams : opened.Roams cursor) :
    Listing (db.engine.ledger.view ctx) index.ns range cursor.iterator.keys ∧ cursor.stride = stride ∧
      cursor.Terminates := by
  obtain ⟨hlisting, hstride, hpoised⟩ := hopens.poised
  have hkeeps := hroams.keeps hpoised
  exact ⟨hkeeps.keys ▸ hlisting, hkeeps.stride.trans hstride, hkeeps.poised.terminates⟩

/-- A cursor over the distinct keys of a namespace that holds an empty and a truncated byte string beside
entries, after a seek past the empty one. -/
theorem Opens.walks_terminate_among_malformed_keys :
    ∃ (index : Index Bytes Bytes) (db : Database) (opened cursor : Cursor Bytes),
      index.Opens none db fullRange (.group .compact) opened ∧ opened.Roams cursor ∧
      cursor.underfoot? = some [1, 7, 1] ∧ [] ∈ cursor.iterator.keys ∧ [5, 1] ∈ cursor.iterator.keys ∧
      cursor.Terminates := by
  let index : Index Bytes Bytes := .create "pairs" "users" .verbatim .verbatim {}
  let sought (db : Database) (opened : Cursor Bytes) : (Except IndexError (CursorAnswer Bytes) × Cursor Bytes) :=
    (((Cursor.perform (.seek [7])).run.run opened).run db).1
  obtain ⟨db, hdb⟩ : ∃ db : Database, (((index.scanDistinctKeys none).run db).1.toOption.any fun opened =>
      (sought db opened).1.isOk && decide ((sought db opened).2.underfoot? = some [1, 7, 1] ∧
        [] ∈ (sought db opened).2.iterator.keys ∧ [5, 1] ∈ (sought db opened).2.iterator.keys)) = true := by
    let calls : List StoreCall := [.createNamespace "users", .begin, .put 0 "users" [] [],
      .put 0 "users" [1, 7, 1] [], .put 0 "users" [1, 7, 2] [], .put 0 "users" [5, 1] [], .commit 0]
    let engine := calls.foldl (fun e call => ((Engine.perform call).run e).2) (Engine.ofOptions {})
    exact ⟨{ engine }, by decide +kernel⟩
  rcases hrun : (index.scanDistinctKeys none).run db with ⟨_ | opened, db'⟩
  · rw [hrun] at hdb
    cases hdb
  · rw [hrun] at hdb
    obtain ⟨hok, hplaced⟩ := Bool.and_eq_true_iff.1 hdb
    obtain ⟨hrests, hempty, htruncated⟩ := of_decide_eq_true hplaced
    rcases hseek : ((Cursor.perform (.seek [7])).run.run opened).run db with ⟨⟨_ | answer, cursor⟩, db''⟩
    · simp only [sought, hseek] at hok
      cases hok
    · simp only [sought, hseek] at hrests hempty htruncated
      have hopens : index.Opens none db fullRange (.group .compact) opened := .scanDistinctKeys hrun
      have hopen : (.seek [7] : CursorCall Bytes) ≠ .close := nofun
      have hroams : opened.Roams cursor := .call .refl hopen hseek
      obtain ⟨-, -, hterminates⟩ := hopens.walks_terminate hroams
      exact ⟨index, db, opened, cursor, hopens, hroams, hrests, hempty, htruncated, hterminates⟩

end Index

end SecondaryIndex
