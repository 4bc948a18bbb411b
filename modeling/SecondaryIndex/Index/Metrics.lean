/-!
# Metrics

Indexes may count what they do. Several indexes can count into the same counters, as the two halves
of a two-way index do.
-/

namespace SecondaryIndex

/-- What indexes have done so far. -/
structure Counters where
  /-- Entries written. -/
  added : Nat := 0
  /-- Entries removed that had been present. -/
  removed : Nat := 0
  /-- Cursors opened. -/
  opened : Nat := 0
  /-- Cursors closed. -/
  closed : Nat := 0
  /-- Scans that ran to their end. -/
  scans : Nat := 0
  /-- Items that those scans produced. -/
  scanned : Nat := 0
  /-- Estimates computed. -/
  estimates : Nat := 0
  deriving DecidableEq, Repr

namespace Counters

def openCursors (c : Counters) : Nat := c.opened - c.closed

def countAdded (c : Counters) : Counters := { c with added := c.added + 1 }

/-- Counts `n` entries removed. -/
def countRemoved (n : Nat) (c : Counters) : Counters := { c with removed := c.removed + n }

def countOpened (c : Counters) : Counters := { c with opened := c.opened + 1 }

def countClosed (c : Counters) : Counters := { c with closed := c.closed + 1 }

/-- Counts a scan that produced `n` items. -/
def countScan (n : Nat) (c : Counters) : Counters :=
  { c with scans := c.scans + 1, scanned := c.scanned + n }

def countEstimate (c : Counters) : Counters := { c with estimates := c.estimates + 1 }

end Counters

end SecondaryIndex
