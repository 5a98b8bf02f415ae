/-
# Live intervals

An interval is the stretch of positions of one block over which a name is in
use. A table keeps one interval per name, in the order in which the names were
first met. Positions are instruction indices within the block.
-/

namespace RiscBackend.Alloc

/-- The eviction position of an interval that is never evicted. -/
def never : Int := 2147483647

/-- The stretch of positions over which a name is in use. -/
structure Interval where
  name : String
  /-- The position of the first occurrence. -/
  start : Int
  /-- The position of the last occurrence, or a later one up to which the value
  is held. -/
  stop : Int
  /-- The position at which the value leaves its register. -/
  spillAt : Int := never
  /-- The register held before any eviction. -/
  register : String := ""
  /-- Whether the first occurrence reads the name. -/
  liveIn : Bool := false
  deriving DecidableEq, Repr

namespace Interval

/-- Whether the value is in its register at a position. -/
def inRegister (iv : Interval) (position : Int) : Bool :=
  position < iv.spillAt

/-- Whether the interval was evicted. -/
def spilled (iv : Interval) : Bool :=
  iv.spillAt != never

/-- Stretch an interval to a position. -/
def extend (iv : Interval) (position : Int) : Interval :=
  if iv.stop < position then { iv with stop := position } else iv

/-- The text of an interval. -/
def text (iv : Interval) : String :=
  let spill := if iv.spilled then toString iv.spillAt else "never"
  s!"[{iv.name}, ({iv.start}, {iv.stop}), @{iv.register}, {spill}]"

end Interval

/-- How an occurrence treats a name. -/
inductive Access where
  | read
  | write
  deriving DecidableEq, Repr

/-- The intervals of a block, one per name, in the order of discovery. -/
structure Table where
  intervals : List Interval := []
  deriving DecidableEq, Repr

namespace Table

/-- The interval of a name. -/
def lookup (t : Table) (name : String) : Option Interval :=
  t.intervals.find? fun iv => iv.name = name

/-- Record an occurrence of a name. The first occurrence opens the interval and
decides whether the value must come from outside the block. -/
def touch (t : Table) (position : Int) (name : String) (access : Access) : Table :=
  if t.intervals.any fun iv => iv.name = name then
    { intervals := t.intervals.map fun iv => if iv.name = name then iv.extend position else iv }
  else
    { intervals := t.intervals ++
        [{ name, start := position, stop := position, liveIn := access = .read }] }

/-- Hold the values of the given names at least up to a position. -/
def holdUntil (t : Table) (names : List String) (position : Int) : Table :=
  { intervals := t.intervals.map fun iv =>
      if names.contains iv.name then iv.extend position else iv }

/-- The intervals that are evicted at a position, in the order of discovery. -/
def spillsAt (t : Table) (position : Int) : List Interval :=
  t.intervals.filter fun iv => iv.spillAt = position

/-- The text of a table. -/
def text (t : Table) : String :=
  " ".intercalate (t.intervals.map Interval.text)

end Table

end RiscBackend.Alloc
