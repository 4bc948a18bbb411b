import SecondaryIndex.Database
import SecondaryIndex.Text.Record

/-!
# Options of an index

An index is given the size that estimates assume for an entry when no recent record tells it, and
possibly counters.
-/

namespace SecondaryIndex

/-- The settings of an index. -/
structure IndexOptions where
  /-- The size of an entry that estimates assume without a sample. -/
  fallbackSize : UInt64 := 32
  /-- The counters that take notice of what the index does. -/
  metrics : Option MetricsId := none
  deriving DecidableEq, Repr

namespace IndexOptions

/-- Sets the assumed size of an entry; zero is taken for one. -/
def withFallbackSize (options : IndexOptions) (bytes : UInt64) : IndexOptions :=
  { options with fallbackSize := if bytes = 0 then 1 else bytes }

def describe (options : IndexOptions) : String :=
  showRecord "IndexOptions"
    [("fallback_record_size", toString options.fallbackSize.toNat),
      ("metrics", toString options.metrics.isSome)]

end IndexOptions

def StoreOptions.describe (options : StoreOptions) : String :=
  showRecord "MemStoreOptions"
    [("memtable_capacity", toString options.memtableCapacity),
      ("record_overhead", toString options.recordOverhead.toNat)]

end SecondaryIndex
