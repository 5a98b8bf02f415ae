/-
# Quicksort

A list is divided around a pivot, and the parts are sorted in the same way.
Short segments are sorted by insertion, and a segment that was divided badly too
often is sorted by way of a heap. Segments that look ascending are mended, those
that look descending are turned round first, and runs of equal elements are set
apart in one go.

The result is in order. Equal elements of a list with more than twelve elements
need not keep the order in which they were given, but their order depends on the
list alone.
-/

import RiscBackend.Sorting.Pivot
import RiscBackend.Sorting.Split

namespace RiscBackend.Sorting

universe u

variable {α : Type u}

/-- A segment made ready to be divided. -/
structure Prepared (α : Type u) where
  elements : List α
  /-- The position of the pivot. -/
  pivot : Nat
  /-- Whether the elements are in order already. -/
  sorted : Bool
  deriving Repr

/-- How earlier divisions went: whether the parts were of similar size, and
whether the elements were on their sides already. -/
structure Past where
  balanced : Bool := true
  settled : Bool := true
  deriving DecidableEq, Repr

/-- Choose the pivot of a segment. It is scattered after a bad division, turned
round if it looks descending, and mended if all looks well. -/
def prepare (less : α → α → Bool) (past : Past) (xs : List α) : Prepared α :=
  let xs := if past.balanced then xs else scatter xs
  let (pivot, trend) := choosePivot less xs.toArray
  let falling := trend = .descending
  let xs := if falling then xs.reverse else xs
  let pivot := if falling then xs.length - 1 - pivot else pivot
  if past.balanced && past.settled && trend != .unknown then
    let (border, sorted) :=
      Border.mend less (longLength ≤ xs.length) 5 (.ofList xs)
    { elements := border.elements, pivot, sorted }
  else { elements := xs, pivot, sorted := false }

/-- Preparing keeps all elements. -/
theorem length_prepare (less : α → α → Bool) (past : Past) (xs : List α) :
    (prepare less past xs).elements.length = xs.length := by
  simp only [prepare]
  repeat' split
  all_goals simp [Border.length_mend]

/-- A segment after one division. -/
inductive Division (α : Type u) where
  /-- All elements are in order. -/
  | sorted (xs : List α)
  /-- The pivot and its equals come first, and the rest is to be sorted. -/
  | equals (pivot : α) (others rest : List α)
  /-- The elements before and after the pivot are to be sorted. -/
  | parts (left : List α) (pivot : α) (right : List α) (settled : Bool)
  deriving Repr

/-- Move the last element of a list to its front. -/
def lastToFront (xs : List α) : List α :=
  match xs.getLast? with
  | some x => x :: xs.dropLast
  | none => []

theorem length_lastToFront (xs : List α) : (lastToFront xs).length = xs.length := by
  unfold lastToFront
  cases xs <;> simp [List.getLast?_cons]

/-- Divide a prepared segment. The floor is the element before the segment, which
is greater than none of its elements: a pivot that equals it is a least one. -/
def Prepared.divide (less : α → α → Bool) (floor : Option α) (p : Prepared α) : Division α :=
  if p.sorted then .sorted p.elements
  else match (p.elements.toArray.swapIfInBounds 0 p.pivot).toList with
    | [] => .sorted []
    | pivot :: rest =>
      if floor.any fun least => !less least pivot then
        let parts := split (fun x => !less pivot x) rest
        .equals pivot parts.passed parts.failed
      else
        let parts := split (less · pivot) rest
        .parts (lastToFront parts.passed) pivot parts.failed parts.settled

/-- The number of elements that a division leaves to be sorted. -/
def Division.left : Division α → Nat
  | .sorted _ => 0
  | .equals _ _ rest => rest.length
  | .parts left _ right _ => left.length + right.length

/-- A division leaves fewer elements to be sorted. -/
theorem Prepared.left_divide_lt (less : α → α → Bool) (floor : Option α) (p : Prepared α)
    (h : 0 < p.elements.length) : (p.divide less floor).left < p.elements.length := by
  unfold Prepared.divide
  split
  · exact h
  · have size : (p.elements.toArray.swapIfInBounds 0 p.pivot).toList.length =
        p.elements.length := by simp
    split
    · exact h
    · rename_i pivot rest eq
      rw [eq, List.length_cons] at size
      split
      · have := length_split (fun x => !less pivot x) rest
        simp only [Division.left]
        omega
      · have := length_split (less · pivot) rest
        simp only [Division.left, length_lastToFront]
        omega

/-- The greatest length of a segment that is sorted by insertion. -/
def shortLength : Nat := 12

/-- Preparing and dividing a segment that is not short leaves fewer elements. -/
theorem left_divide_prepare_lt (less : α → α → Bool) (past : Past) (floor : Option α)
    {xs : List α} (long : ¬ xs.length ≤ shortLength) :
    ((prepare less past xs).divide less floor).left < xs.length := by
  have fewer := (prepare less past xs).left_divide_lt less floor
  rw [length_prepare] at fewer
  exact fewer (by omega)

/-- Sort a segment above a floor. At most `limit` more bad divisions are allowed. -/
def sortSegment (less : α → α → Bool) (limit : Nat) (past : Past) (floor : Option α)
    (xs : List α) : List α :=
  if long : xs.length ≤ shortLength then xs.mergeSort fun x y => !less y x
  else if limit = 0 then (heapSort less xs.toArray).toList
  else
    let limit := if past.balanced then limit else limit - 1
    have fewer := left_divide_prepare_lt less past floor long
    match divided : (prepare less past xs).divide less floor with
    | .sorted xs => xs
    | .equals pivot others rest =>
      have : rest.length < xs.length := by rwa [divided] at fewer
      pivot :: others ++ sortSegment less limit past (some pivot) rest
    | .parts left pivot right settled =>
      have : left.length + right.length < xs.length := by rwa [divided] at fewer
      let fair := xs.length / 8
      let (leftPast, rightPast) : Past × Past :=
        if left.length ≤ right.length then ({}, { balanced := fair ≤ left.length, settled })
        else ({ balanced := fair ≤ right.length + 1, settled }, {})
      sortSegment less limit leftPast floor left ++
        pivot :: sortSegment less limit rightPast (some pivot) right
termination_by xs.length

/-- Sort a list. -/
def quickSort (less : α → α → Bool) (xs : List α) : List α :=
  sortSegment less (Nat.log2 xs.length + 1) {} none xs

end RiscBackend.Sorting
