import SecondaryIndex.Index.Query

/-!
# Two-way indexes

A two-way index also leads from values back to keys. Its forward half is an index in the compact
layout; its reverse half holds the same pairs with key and value exchanged, in a namespace of its
own and in the wide layout, so that values may be longer than keys. Both halves are written in one
transaction and count into the same counters, where a pair counts once.

Everything that reads from keys to values is asked of the forward half.
-/

namespace SecondaryIndex

/-- A set of pairs that is kept from keys to values and from values to keys. -/
structure TwoWayIndex (K V : Type) where
  forward : Index K V
  reverse : Index V K

/-- An index in the compact layout. -/
def Index.create {K V : Type} (name : String) (ns : Namespace) (keys : Codec K) (values : Codec V)
    (options : IndexOptions) : Index K V :=
  { name, ns, codec := { layout := .compact, keys, values }, options }

namespace TwoWayIndex

variable {K V : Type}

/-- A two-way index; the name of its reverse half is derived from its own. -/
def create (name : String) (forwardNs reverseNs : Namespace) (keys : Codec K) (values : Codec V)
    (options : IndexOptions) : TwoWayIndex K V where
  forward := Index.create name forwardNs keys values options
  reverse :=
    { name := name ++ ".reverse"
      ns := reverseNs
      codec := { layout := .wide, keys := values, values := keys }
      options }

def describe (index : TwoWayIndex K V) : String :=
  showRecord "BidirectionalIndex"
    [("forward", index.forward.describe), ("reverse", index.reverse.describe)]

/-- Adds a pair to both halves. -/
def add (index : TwoWayIndex K V) (ctx : Context) (key : K) (value : V) : IndexM Unit := do
  IndexM.within ctx fun id => do
    index.forward.insertWithin id key value
    index.reverse.insertWithin id value key
  IndexM.observe index.forward.options.metrics Counters.countAdded

/-- Removes a pair from both halves; an absent one is no error. -/
def remove (index : TwoWayIndex K V) (ctx : Context) (key : K) (value : V) : IndexM Unit := do
  let removed ← IndexM.within ctx fun id => do
    -- the reverse entry is removed in its own right, whether or not the forward one was there
    let removed ← index.forward.eraseWithin id key value
    let _ ← index.reverse.eraseWithin id value key
    pure removed
  if removed then
    IndexM.observe index.forward.options.metrics (Counters.countRemoved 1)

/-- Removes the reverse entries of forward entries that were removed. -/
def eraseReverseWithin (index : TwoWayIndex K V) (id : TransactionId) (key : K)
    (doomed : List Bytes) : IndexM Unit :=
  doomed.forM fun physical => do
    let value ← IndexM.ofEncoding (index.forward.codec.readValue physical)
    let _ ← index.reverse.eraseWithin id value key

/-- Removes every pair of a key from both halves and gives their number. -/
def removeAll (index : TwoWayIndex K V) (ctx : Context) (key : K) : IndexM Nat := do
  let removed ← IndexM.within ctx fun id => do
    let doomed ← index.forward.eraseAllWithin id key
    -- the entries are gone by now, but their physical keys still tell the values
    index.eraseReverseWithin id key doomed
    pure doomed.length
  IndexM.observe index.forward.options.metrics (Counters.countRemoved removed)
  pure removed

/-- A cursor over the keys of a value. -/
def findByValue (index : TwoWayIndex K V) (ctx : Context) (value : V) : IndexM (Cursor K) :=
  index.reverse.find ctx value

end TwoWayIndex

end SecondaryIndex
