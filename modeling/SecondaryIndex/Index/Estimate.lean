import SecondaryIndex.Index.Basic

/-!
# Estimates

The number of entries in a range is estimated from the statistics of the engine. Recent records are
counted; older ones are only weighed, and their weight is divided by the average weight of the
recent ones. Without a recent record the assumed size of an entry serves instead, and a range that
weighs anything is never estimated at zero.
-/

namespace SecondaryIndex

/-- The greatest estimate: the greatest word. -/
def maxEstimate : Nat := UInt64.size - 1

/-- The number of entries that statistics suggest. -/
def estimateEntries (fallbackSize : UInt64) (recent : Tally) (older : UInt64) : Nat :=
  if 0 < recent.count then
    let average := max 1 (recent.size.toNat / recent.count)
    min maxEstimate (recent.count + older.toNat / average)
  else if older = 0 then 0
  else max 1 (older.toNat / max 1 fallbackSize.toNat)

namespace Index

variable {K V : Type}

def estimateRange (index : Index K V) (range : Range) : IndexM Nat := do
  let recent ← IndexM.ofEngine (Engine.recentTally index.ns range)
  let older ← IndexM.ofEngine (Engine.olderSize index.ns range)
  IndexM.observe index.options.metrics Counters.countEstimate
  pure (estimateEntries index.options.fallbackSize recent older)

/-- Estimates the number of values of a key. -/
def estimateKey (index : Index K V) (key : K) : IndexM Nat := do
  index.estimateRange (← index.keyRange key)

/-- Estimates the number of pairs of the index. -/
def estimateSize (index : Index K V) : IndexM Nat := index.estimateRange fullRange

end Index

end SecondaryIndex
