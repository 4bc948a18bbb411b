import SecondaryIndex.Cursor.Drain
import SecondaryIndex.Index.Basic

/-!
# Queries

Most queries open a cursor: over the values of one key, or over the keys or the values of all
entries. A cursor holds the view of the moment it was opened in, whatever becomes of the transaction
that opened it. Counting is opening a cursor and draining it.
-/

namespace SecondaryIndex

namespace Index

variable {K V α : Type}

/-- Opens an iterator over a range of entries in a context. -/
def openIterator (index : Index K V) (ctx : Context) (range : Range) : IndexM RawIterator :=
  IndexM.transactionally ctx (fun id => IndexM.ofEngine (Engine.openIterator id index.ns range))
    fun _ => IndexM.releaseIterator

/-- Opens a cursor over a range of entries in a context. -/
def openCursor (index : Index K V) (ctx : Context) (range : Range)
    (decode : Bytes → Except EncodingError α) (seeking : Seeking α) (stride : Stride) :
    IndexM (Cursor α) := do
  let iterator ← index.openIterator ctx range
  IndexM.observe index.options.metrics Counters.countOpened
  pure { iterator, decode, seeking, stride, metrics := index.options.metrics }

/-- The least value of a key. -/
def findFirst (index : Index K V) (ctx : Context) (key : K) : IndexM V := do
  let range ← index.keyRange key
  let physical? ← IndexM.within ctx fun id =>
    IndexM.withIterator id index.ns range fun iterator => do
      IndexM.ofEngine Engine.status
      pure iterator.seekFirst.key?
  -- the transaction is settled before the value is read
  match physical? with
  | some physical => IndexM.ofEncoding (index.codec.readValue physical)
  | none => throw .notFound

/-- A cursor over the values of a key, which can seek a value. -/
def find (index : Index K V) (ctx : Context) (key : K) : IndexM (Cursor V) := do
  let range ← index.keyRange key
  index.openCursor ctx range index.codec.readValue (.exact (index.codec.encode key)) .entry

/-- A cursor over the keys of all entries with a given stride, which can seek the entries of a key.
-/
def cursorOverKeys (index : Index K V) (ctx : Context) (stride : Stride) : IndexM (Cursor K) :=
  index.openCursor ctx fullRange index.codec.readKey (.byGroup index.codec.stem) stride

/-- A cursor over the key of every entry. -/
def scanKeys (index : Index K V) (ctx : Context) : IndexM (Cursor K) :=
  index.cursorOverKeys ctx .entry

/-- A cursor over the keys, each of them once. -/
def scanDistinctKeys (index : Index K V) (ctx : Context) : IndexM (Cursor K) :=
  index.cursorOverKeys ctx (.group index.codec.layout)

/-- A cursor over the value of every entry. It cannot seek. -/
def scanValues (index : Index K V) (ctx : Context) : IndexM (Cursor V) :=
  index.openCursor ctx fullRange index.codec.readValue .impossible .entry

def count (index : Index K V) (ctx : Context) : IndexM Nat := do
  (← index.scanKeys ctx).count

def countKey (index : Index K V) (ctx : Context) (key : K) : IndexM Nat := do
  (← index.find ctx key).count

end Index

end SecondaryIndex
