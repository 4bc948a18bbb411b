import SecondaryIndex.Proofs.Cursor.Entries
import SecondaryIndex.Proofs.Index.Entries

/-!
# Cursors that have just been opened

A cursor of an index is opened on the physical keys that a view shows in a range (`Index.Opened`). Where
nothing but entries is seen, these are the physical keys of pairs, and the cursor follows a course that is
read off the pairs: the values of a key, the keys or the values of all pairs, or the keys each of them once.
-/

namespace SecondaryIndex

namespace Index

variable {α K V : Type} {index : Index K V} {f : Place → Option Bytes} {key : K}

/-- A cursor that has just been opened on what a view shows in a range. -/
structure Opened (index : Index K V) (view : Place → Option Bytes) (range : Range)
    (decode : Bytes → Except EncodingError α) (seeking : Seeking α) (stride : Stride)
    (cursor : Cursor α) : Prop where
  listing : Listing view index.ns range cursor.iterator.keys
  position : cursor.position = .unopened
  decode : cursor.decode = decode
  stride : cursor.stride = stride
  seeking : cursor.seeking = seeking

theorem fullRange_contains (p : Bytes) : fullRange.contains p = true := by
  simp [fullRange, leastKey, Range.contains, Bound.below, Bound.above]

/-- What is listed of a whole namespace is all that is stored. -/
theorem OnlyEntries.exists_all (h : index.OnlyEntries f) (hinv : index.codec.Inverts)
    {keys : List Bytes} (hkeys : Listing f index.ns fullRange keys) :
    ∃ pairs, index.codec.Encoded keys pairs ∧
      Lists index.codec.Before (fun kv => index.Stores f kv.1 kv.2) pairs := by
  obtain ⟨pairs, hencoded, hpairs⟩ := h.exists_pairs hinv hkeys
  refine ⟨pairs, hencoded, hpairs.congr fun kv => ?_⟩
  exact exists_congr fun p => and_congr_right fun _ => and_iff_right (fullRange_contains p)

namespace Opened

/-- A cursor over the range of a key follows the values of the key. -/
theorem follows_values {lower : Bytes} {upper : Bound} {cursor : Cursor V}
    (h : index.Opened f ⟨.included lower, upper⟩ index.codec.readValue
      (.exact (index.codec.encode key)) .entry cursor)
    (honly : index.OnlyEntries f) (hinv : index.codec.Inverts)
    (hspan : index.codec.span key = .ok (lower, upper)) :
    ∃ values, Lists (index.codec.values.encode · < index.codec.values.encode ·)
        (index.Stores f key) values ∧
      Cursor.Follows cursor (index.codec.valueCourse values) id := by
  obtain ⟨values, hencoded, hvalues⟩ := honly.exists_values hinv hspan h.listing
  exact ⟨values, hvalues, Cursor.follows_values hinv (EntryCodec.fits_of_span hspan) hencoded
    h.listing.sorted h.position h.decode h.stride h.seeking⟩

/-- A cursor over all entries follows their keys. -/
theorem follows_keys {cursor : Cursor K}
    (h : index.Opened f fullRange index.codec.readKey (.byGroup index.codec.stem) .entry cursor)
    (honly : index.OnlyEntries f) (hinv : index.codec.Inverts) :
    ∃ pairs, Lists index.codec.Before (fun kv => index.Stores f kv.1 kv.2) pairs ∧
      Cursor.Follows cursor (index.codec.keyCourse (pairs.map Prod.fst)) id := by
  obtain ⟨pairs, hencoded, hpairs⟩ := honly.exists_all hinv h.listing
  exact ⟨pairs, hpairs, Cursor.follows_keys hinv.1 hencoded h.listing.sorted h.position h.decode
    h.stride h.seeking⟩

/-- A cursor over all entries follows their values. -/
theorem follows_scan {cursor : Cursor V}
    (h : index.Opened f fullRange index.codec.readValue .impossible .entry cursor)
    (honly : index.OnlyEntries f) (hinv : index.codec.Inverts) :
    ∃ pairs, Lists index.codec.Before (fun kv => index.Stores f kv.1 kv.2) pairs ∧
      Cursor.Follows cursor (.unseekable (pairs.map Prod.snd)) id := by
  obtain ⟨pairs, hencoded, hpairs⟩ := honly.exists_all hinv h.listing
  exact ⟨pairs, hpairs, Cursor.follows_scan hinv.2 hencoded h.position h.decode h.stride h.seeking⟩

/-- A cursor over all groups follows the keys that have values. -/
theorem follows_groups {cursor : Cursor K}
    (h : index.Opened f fullRange index.codec.readKey (.byGroup index.codec.stem)
      (.group index.codec.layout) cursor)
    (honly : index.OnlyEntries f) (hinv : index.codec.keys.Inverts) :
    ∃ keys number, Lists index.codec.KeyBefore (fun key => ∃ value, index.Stores f key value) keys ∧
      Cursor.Follows cursor (index.codec.keyCourse keys) number := by
  have hpairs : ∀ p ∈ cursor.iterator.keys, ∃ kv : K × V, index.codec.encode kv.1 kv.2 = .ok p := by
    intro p hp
    obtain ⟨key, value, henc⟩ := honly p ((h.listing.mem_iff p).1 hp).2
    exact ⟨(key, value), henc⟩
  obtain ⟨keys, number, hfollows, hsorted, hmem⟩ :=
    Cursor.follows_groups hinv hpairs h.listing.sorted h.position h.decode h.stride h.seeking
  refine ⟨keys, number, ⟨hsorted, fun key => ?_⟩, hfollows⟩
  rw [hmem]
  -- a key has entries under the cursor if it has values in the view
  constructor
  · intro ⟨p, hp, value, henc⟩
    exact ⟨value, p, henc, ((h.listing.mem_iff p).1 hp).2⟩
  · intro ⟨value, p, henc, hsome⟩
    exact ⟨p, (h.listing.mem_iff p).2 ⟨fullRange_contains p, hsome⟩, value, henc⟩

end Opened

end Index

end SecondaryIndex
