/-
# Heap sort

An array is sorted in place: its elements are first arranged as a heap, in which
no element stands before one below it, and the greatest element is then moved to
the end again and again. The children of position `i` are at `2 * i + 1` and
`2 * i + 2`.
-/

namespace RiscBackend.Sorting

universe u

variable {α : Type u}

/-- Whether the element at one position stands before that at another. -/
def lessAt (less : α → α → Bool) (xs : Array α) (i j : Nat) : Bool :=
  match xs[i]?, xs[j]? with
  | some x, some y => less x y
  | _, _ => false

/-- The position of the greater child of a node among the first `size` elements;
the first one if the children are equal or there is only one. -/
def greaterChild (less : α → α → Bool) (xs : Array α) (node size : Nat) : Nat :=
  if 2 * node + 2 < size && lessAt less xs (2 * node + 1) (2 * node + 2) then 2 * node + 2
  else 2 * node + 1

/-- A child stands after its parent in the array. -/
theorem lt_greaterChild (less : α → α → Bool) (xs : Array α) (node size : Nat) :
    node < greaterChild less xs node size := by
  unfold greaterChild
  split <;> omega

/-- Move the element of a node down among the first `size` elements until no
child is greater. -/
def siftDown (less : α → α → Bool) (xs : Array α) (node size : Nat) : Array α :=
  if 2 * node + 1 < size then
    let child := greaterChild less xs node size
    if lessAt less xs node child then siftDown less (xs.swapIfInBounds node child) child size
    else xs
  else xs
termination_by size - node
decreasing_by
  have := lt_greaterChild less xs node size
  omega

/-- Arrange the elements as a heap, from the last parent to the first. -/
def heapify (less : α → α → Bool) (xs : Array α) : Array α :=
  (List.range ((xs.size - 1) / 2 + 1)).reverse.foldl
    (fun heap node => siftDown less heap node xs.size) xs

/-- Sort an array by way of a heap. -/
def heapSort (less : α → α → Bool) (xs : Array α) : Array α :=
  (List.range xs.size).reverse.foldl
    (fun heap last => siftDown less (heap.swapIfInBounds 0 last) 0 last) (heapify less xs)

end RiscBackend.Sorting
