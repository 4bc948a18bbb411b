import SecondaryIndex.Index.Options
import SecondaryIndex.Layout.EntryCodec
import SecondaryIndex.Text.Quoted

/-!
# Indexes and their entries

An index is a set of pairs of a key and a value, stored in one namespace as physical keys with empty
engine values. It is bound to a namespace but does not create it.

Writing and removing entries comes in two forms: within a transaction that is already at hand, for
use as a part of a larger operation (`insertWithin`, `eraseWithin`, `eraseAllWithin`), and in a
context (`add`, `remove`, `removeAll`). Only the second form is noticed by the counters of the
index, and only once its transaction is settled.
-/

namespace SecondaryIndex

/-- A set of pairs of keys and values in one namespace. -/
structure Index (K V : Type) where
  name : String
  ns : Namespace
  /-- How pairs are stored. -/
  codec : EntryCodec K V
  options : IndexOptions

def Namespace.describe (ns : Namespace) : String := "Namespace(" ++ Quoted.encode ns ++ ")"

namespace Index

variable {K V : Type}

def describe (index : Index K V) : String :=
  showRecord "MultiIndex"
    [("name", Quoted.encode index.name), ("namespace", Namespace.describe index.ns),
      ("options", index.options.describe)]

/-- The lower and the upper bound of the entries of a key. -/
def span (index : Index K V) (key : K) : Except EncodingError (Bytes × Bound) :=
  index.codec.span key

/-- The range of the entries of a key. -/
def keyRange (index : Index K V) (key : K) : IndexM Range := do
  let (lower, upper) ← IndexM.ofEncoding (index.span key)
  pure ⟨.included lower, upper⟩

/-- What the engine holds under a physical key: nothing, since the key says it all. -/
def emptyValue : Bytes := []

/-- The least physical key there could be. -/
def leastKey : Bytes := []

/-- The range of all entries. -/
def fullRange : Range := ⟨.included leastKey, .unbounded⟩

/-! ### Within a transaction -/

def insertWithin (index : Index K V) (id : TransactionId) (key : K) (value : V) : IndexM Unit := do
  let physical ← IndexM.ofEncoding (index.codec.encode key value)
  IndexM.ofEngine (Engine.put id index.ns physical emptyValue)

/-- Removes an entry, and tells whether it was there. An absent entry is not written to. -/
def eraseWithin (index : Index K V) (id : TransactionId) (key : K) (value : V) : IndexM Bool := do
  let physical ← IndexM.ofEncoding (index.codec.encode key value)
  match ← IndexM.ofEngine (Engine.lookup id index.ns physical) with
  | none => pure false
  | some _ =>
    IndexM.ofEngine (Engine.delete id index.ns physical)
    pure true

/-- Removes every entry of a key and gives their physical keys. They are read from one iterator
before the first of them is removed. -/
def eraseAllWithin (index : Index K V) (id : TransactionId) (key : K) : IndexM (List Bytes) := do
  let range ← index.keyRange key
  let doomed ← IndexM.withIterator id index.ns range fun iterator => do
    let keys := iterator.collect
    IndexM.ofEngine Engine.status
    pure keys
  doomed.forM fun physical => IndexM.ofEngine (Engine.delete id index.ns physical)
  pure doomed

/-- What is removed are the keys that the iterator was opened over. -/
theorem eraseAllWithin_eq (index : Index K V) (id : TransactionId) (key : K) :
    index.eraseAllWithin id key = (do
      let range ← index.keyRange key
      let doomed ← IndexM.withIterator id index.ns range fun iterator => do
        IndexM.ofEngine Engine.status
        pure iterator.keys
      doomed.forM fun physical => IndexM.ofEngine (Engine.delete id index.ns physical)
      pure doomed) := by
  unfold eraseAllWithin
  simp only [RawIterator.collect_eq]

/-! ### In a context -/

def add (index : Index K V) (ctx : Context) (key : K) (value : V) : IndexM Unit := do
  IndexM.within ctx fun id => index.insertWithin id key value
  -- reached only if the entry was written, and committed where it had to be
  IndexM.observe index.options.metrics Counters.countAdded

/-- Removes an entry; an absent one is no error. -/
def remove (index : Index K V) (ctx : Context) (key : K) (value : V) : IndexM Unit := do
  if ← IndexM.within ctx fun id => index.eraseWithin id key value then
    IndexM.observe index.options.metrics (Counters.countRemoved 1)

/-- Removes every entry of a key and gives their number. -/
def removeAll (index : Index K V) (ctx : Context) (key : K) : IndexM Nat := do
  let removed ← IndexM.within ctx fun id => List.length <$> index.eraseAllWithin id key
  IndexM.observe index.options.metrics (Counters.countRemoved removed)
  pure removed

end Index

end SecondaryIndex
