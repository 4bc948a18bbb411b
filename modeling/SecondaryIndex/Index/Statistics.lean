import SecondaryIndex.Index.Estimate
import SecondaryIndex.Index.TwoWay

/-!
# Statistics within a budget

A caller says how much work it accepts and whether an approximation will do, and is given a `Count`,
or nothing if no answer fits. A count is a program that is not run yet, together with a mark that
tells whether its value is an estimate: asking costs nothing.

| query | limited budget, estimate accepted | limited budget, exact only | unlimited budget |
|---|---|---|---|
| entries | estimate of the whole index | none | scan of the keys |
| keys | none | none | scan of the distinct keys |
| values of a key | estimate of the range of the key | none | scan of that range |
| values | none | none | scan of the values |
| keys with a value | reverse look-up, if there is one | none | reverse look-up, if there is one |
-/

namespace SecondaryIndex

/-- The work that a query may cost. -/
inductive Budget
  /-- Only cheap answers; the number is advice. -/
  | limited (cost : UInt64)
  /-- A full scan is allowed. -/
  | unlimited
  deriving DecidableEq, Repr

namespace Budget

/-- The budget of a number; the greatest word stands for no limit. -/
def ofUInt64 (cost : UInt64) : Budget :=
  if cost = 0xffffffffffffffff then unlimited else limited cost

/-- The limit, if there is one. -/
def cost? : Budget → Option UInt64
  | limited cost => some cost
  | unlimited => none

/-- Whether a full scan fits. -/
def allowsScan : Budget → Bool
  | limited _ => false
  | unlimited => true

def describe : Budget → String
  | limited cost => "Bounded(" ++ toString cost.toNat ++ ")"
  | unlimited => "Unbounded"

end Budget

/-- A number that is not computed yet. -/
structure Count where
  /-- Whether the number is an approximation. -/
  isEstimate : Bool
  /-- Computes the number. -/
  value : IndexM Nat

namespace Count

/-- A count by scanning. -/
def exact (value : IndexM Nat) : Count := ⟨false, value⟩

/-- A count by statistics. -/
def estimated (value : IndexM Nat) : Count := ⟨true, value⟩

def describe (count : Count) : String :=
  "Count \x7b estimate: " ++ toString count.isEstimate ++ ", .. \x7d"

end Count

/-- The source of the statistics of an index in a context. -/
structure Statistics (K V : Type) where
  forward : Index K V
  reverse? : Option (Index V K)
  ctx : Context

namespace Statistics

variable {K V : Type}

/-- A count that needs a full scan. -/
def scanning (budget : Budget) (value : IndexM Nat) : Option Count :=
  if budget.allowsScan then some (.exact value) else none

/-- A count that needs a full scan, but can be estimated if that is accepted. -/
def estimable (budget : Budget) (estimateOk : Bool) (value estimate : IndexM Nat) : Option Count :=
  if budget.allowsScan then some (.exact value)
  else if estimateOk then some (.estimated estimate)
  else none

def entries (stats : Statistics K V) (budget : Budget) (estimateOk : Bool) : Option Count :=
  estimable budget estimateOk (stats.forward.count stats.ctx) stats.forward.estimateSize

/-- The number of distinct keys. It cannot be estimated. -/
def keys (stats : Statistics K V) (budget : Budget) (_estimateOk : Bool) : Option Count :=
  scanning budget do (← stats.forward.scanDistinctKeys stats.ctx).count

def valuesOfKey (stats : Statistics K V) (key : K) (budget : Budget) (estimateOk : Bool) :
    Option Count :=
  estimable budget estimateOk (stats.forward.countKey stats.ctx key) (stats.forward.estimateKey key)

/-- The number of values over all keys. It cannot be estimated. -/
def values (stats : Statistics K V) (budget : Budget) (_estimateOk : Bool) : Option Count :=
  scanning budget do (← stats.forward.scanValues stats.ctx).count

/-- The number of keys with a value. The reverse look-up is exact, and cheap enough for a limited
budget whose owner would have accepted an estimate. -/
def keysWithValue (stats : Statistics K V) (value : V) (budget : Budget) (estimateOk : Bool) :
    Option Count :=
  if budget.allowsScan || estimateOk then
    stats.reverse?.map fun reverse => .exact do (← reverse.find stats.ctx value).count
  else none

end Statistics

end SecondaryIndex
