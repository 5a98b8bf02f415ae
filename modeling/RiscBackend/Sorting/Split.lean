/-
# Dividing a segment

A segment is divided by a test into the elements that pass and those that do
not. Elements on the right side of the border stay where they are. The misplaced
ones change places in pairs: the first from the left with the first from the
right, and so on inwards.

A segment that is nearly ascending can be mended instead: where an element is
less than the one before it, the two are exchanged and moved on, outwards, to
where they fit.
-/

namespace RiscBackend.Sorting

universe u

variable {α : Type u}

/-- Replace the elements that pass a test, in order, by given ones. -/
def refill (test : α → Bool) : List α → List α → List α
  | [], _ => []
  | xs, [] => xs
  | x :: xs, new :: rest =>
    if test x then new :: refill test xs rest else x :: refill test xs (new :: rest)

/-- Refilling keeps the length. -/
@[simp]
theorem length_refill (test : α → Bool) (xs new : List α) :
    (refill test xs new).length = xs.length := by
  fun_induction refill test xs new <;> simp_all

/-- A segment divided by a test. -/
structure Split (α : Type u) where
  /-- The elements that pass. -/
  passed : List α
  /-- The elements that do not. -/
  failed : List α
  /-- Whether the segment was divided already. -/
  settled : Bool
  deriving Repr

/-- Divide a segment by a test. -/
def split (test : α → Bool) (xs : List α) : Split α :=
  let border := xs.countP test
  let front := xs.take border
  let back := (xs.drop border).reverse
  { passed := refill (fun x => !test x) front (back.filter test)
    failed := (refill test back (front.filter fun x => !test x)).reverse
    settled := front.all test }

/-- Dividing keeps all elements. -/
theorem length_split (test : α → Bool) (xs : List α) :
    (split test xs).passed.length + (split test xs).failed.length = xs.length := by
  have := List.countP_le_length (p := test) (l := xs)
  simp [split]
  omega

/-- A segment read up to a border: the elements before it, the latest first, and
those after it. -/
structure Border (α : Type u) where
  before : List α
  after : List α
  deriving Repr

namespace Border

/-- The whole segment. -/
def elements (b : Border α) : List α :=
  b.before.reverse ++ b.after

/-- A segment with the border at its start. -/
def ofList (xs : List α) : Border α where
  before := []
  after := xs

@[simp]
theorem elements_ofList (xs : List α) : (ofList xs).elements = xs := rfl

/-- Move the border on to the first element that is less than the one before. -/
def climb (less : α → α → Bool) : List α → List α → Border α
  | before, [] => { before, after := [] }
  | [], x :: after => climb less [x] after
  | last :: before, x :: after =>
    if less x last then { before := last :: before, after := x :: after }
    else climb less (x :: last :: before) after

/-- Put an element in front of the elements that stop it: it passes those for
which the test holds. -/
def pass (test : α → Bool) (x : α) : List α → List α
  | [] => [x]
  | y :: ys => if test y then y :: pass test x ys else x :: y :: ys

/-- Exchange the elements at the border, and move the lesser one back and the
greater one on to where they fit. -/
def exchange (less : α → α → Bool) (b : Border α) : Border α :=
  match b.before, b.after with
  | last :: before, x :: after =>
    { before := pass (less x) x before, after := pass (less · last) last after }
  | _, _ => b

/-- Move the border to the end, with a limited number of exchanges. The result
says whether the end was reached. A segment that is not long is never changed. -/
def mend (less : α → α → Bool) (long : Bool) : Nat → Border α → Border α × Bool
  | 0, b => (b, false)
  | tries + 1, b =>
    let b := climb less b.before b.after
    if b.after.isEmpty then (b, true)
    else if long then mend less long tries (b.exchange less)
    else (b, false)

theorem length_climb (less : α → α → Bool) (before after : List α) :
    (climb less before after).elements.length = before.length + after.length := by
  fun_induction climb less before after <;> simp_all [elements] <;> omega

theorem length_pass (test : α → Bool) (x : α) (ys : List α) :
    (pass test x ys).length = ys.length + 1 := by
  fun_induction pass test x ys <;> simp_all

theorem length_exchange (less : α → α → Bool) (b : Border α) :
    (b.exchange less).elements.length = b.elements.length := by
  unfold exchange
  split <;> simp_all [elements, length_pass]
  omega

/-- Mending keeps all elements. -/
theorem length_mend (less : α → α → Bool) (long : Bool) (tries : Nat) (b : Border α) :
    (mend less long tries b).1.elements.length = b.elements.length := by
  induction tries generalizing b with
  | zero => rfl
  | succ tries ih =>
    have climbed : (climb less b.before b.after).elements.length = b.elements.length := by
      rw [length_climb]
      simp [elements]
    simp only [mend]
    split
    · exact climbed
    · split
      · rw [ih, length_exchange, climbed]
      · exact climbed

end Border

end RiscBackend.Sorting
