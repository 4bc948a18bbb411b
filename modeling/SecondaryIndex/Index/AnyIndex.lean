import SecondaryIndex.Index.Statistics

/-!
# Indexes of either form

An index and a two-way index answer the same questions. `AnyIndex` is either of the two: entries are
written to all its halves, and everything that leads from keys to values is read from its forward
half.
-/

namespace SecondaryIndex

/-- An index, or a two-way index. -/
inductive AnyIndex (K V : Type)
  /-- Pairs by key only. -/
  | oneWay (index : Index K V)
  /-- Pairs by key and by value. -/
  | twoWay (index : TwoWayIndex K V)

namespace AnyIndex

variable {K V : Type}

/-- The pairs by key. -/
def forward : AnyIndex K V → Index K V
  | oneWay index => index
  | twoWay index => index.forward

/-- The pairs by value, if they are kept. -/
def reverse? : AnyIndex K V → Option (Index V K)
  | oneWay _ => none
  | twoWay index => some index.reverse

def describe : AnyIndex K V → String
  | oneWay index => index.describe
  | twoWay index => index.describe

def name (index : AnyIndex K V) : String := index.forward.name

def add (ctx : Context) (key : K) (value : V) : AnyIndex K V → IndexM Unit
  | oneWay index => index.add ctx key value
  | twoWay index => index.add ctx key value

/-- Adds pairs one by one up to the first failure, and gives their number. -/
def addMany (ctx : Context) (pairs : List (K × V)) (index : AnyIndex K V) : IndexM Nat := do
  pairs.forM fun (key, value) => index.add ctx key value
  pure pairs.length

def remove (ctx : Context) (key : K) (value : V) : AnyIndex K V → IndexM Unit
  | oneWay index => index.remove ctx key value
  | twoWay index => index.remove ctx key value

def removeAll (ctx : Context) (key : K) : AnyIndex K V → IndexM Nat
  | oneWay index => index.removeAll ctx key
  | twoWay index => index.removeAll ctx key

def statistics (ctx : Context) (index : AnyIndex K V) : Statistics K V :=
  { forward := index.forward, reverse? := index.reverse?, ctx }

end AnyIndex

end SecondaryIndex
