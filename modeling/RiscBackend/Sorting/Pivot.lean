/-
# Choosing a pivot

The pivot of a segment is the median of the elements at its quarters, and in a
long segment of the medians around these. How many of the compared pairs were
out of order tells whether the segment looks ascending or descending.

A segment that was divided badly is scattered first: three elements near its
middle change places with elements at positions that look random but depend on
the length alone, so that every run gives the same result.
-/

import RiscBackend.Sorting.Heap

namespace RiscBackend.Sorting

universe u

variable {α : Type u}

/-- Two positions in the order of their elements, counting an exchange. -/
def inOrder (less : α → α → Bool) (xs : Array α) (i j exchanges : Nat) : Nat × Nat × Nat :=
  if lessAt less xs j i then (j, i, exchanges + 1) else (i, j, exchanges)

/-- The position of the median of three elements, adding up the exchanges. -/
def median (less : α → α → Bool) (xs : Array α) (i j k exchanges : Nat) : Nat × Nat :=
  let (i, j, exchanges) := inOrder less xs i j exchanges
  let (j, _, exchanges) := inOrder less xs j k exchanges
  let (_, j, exchanges) := inOrder less xs i j exchanges
  (j, exchanges)

/-- How a segment seems to be ordered already. -/
inductive Trend where
  | unknown
  | ascending
  | descending
  deriving DecidableEq, Repr

/-- The trend that a number of exchanges shows: none at all, or in each of the
twelve comparisons of a long segment. -/
def Trend.ofExchanges (exchanges : Nat) : Trend :=
  if exchanges = 0 then .ascending
  else if exchanges = 12 then .descending
  else .unknown

/-- The least length of a segment that counts as long. -/
def longLength : Nat := 50

/-- The position of the pivot of a segment, and the trend of the segment. -/
def choosePivot (less : α → α → Bool) (xs : Array α) : Nat × Trend :=
  let quarter := xs.size / 4
  let around (i exchanges : Nat) :=
    if xs.size < longLength then (i, exchanges) else median less xs (i - 1) i (i + 1) exchanges
  let (i, exchanges) := around quarter 0
  let (j, exchanges) := around (quarter * 2) exchanges
  let (k, exchanges) := around (quarter * 3) exchanges
  let (j, exchanges) := median less xs i j k exchanges
  (j, .ofExchanges exchanges)

/-- The number after a given one in the sequence that scattering uses. -/
def nextNumber (n : UInt64) : UInt64 :=
  let n := n ^^^ (n <<< 13)
  let n := n ^^^ (n >>> 7)
  n ^^^ (n <<< 17)

/-- The position in a segment of a given size that a number stands for. -/
def positionOf (size : Nat) (n : UInt64) : Nat :=
  let position := n.toNat % (1 <<< (Nat.log2 size + 1))
  if size ≤ position then position - size else position

/-- Move the element at the middle and its two neighbours to other places. -/
def scatter (xs : List α) : List α :=
  let size := xs.length
  let middle := size / 4 * 2
  let first := nextNumber (.ofNat size)
  let second := nextNumber first
  let third := nextNumber second
  (((xs.toArray.swapIfInBounds (middle - 1) (positionOf size first)).swapIfInBounds
    middle (positionOf size second)).swapIfInBounds
    (middle + 1) (positionOf size third)).toList

/-- Scattering keeps all elements in the segment. -/
@[simp]
theorem length_scatter (xs : List α) : (scatter xs).length = xs.length := by
  simp [scatter]

end RiscBackend.Sorting
