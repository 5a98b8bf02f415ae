/-
# Finding the place of a holding

The registers in use are kept in the order of the ends of their intervals, and a new one is put in
front of the first that ends later. That place can be found by halving the list, which looks at few
of the holdings and is right only if the list is in order. The list of a scan always is, also when
the registers that are free again and an evicted one have been taken out, so the search finds
the place at which the scan inserts.
-/

import RiscBackend.Proofs.Alloc.PlainScan

namespace RiscBackend.Alloc

/-- The first number from `low` on that passes a test, or `high` if there is none, found by
halving. The test must be one that is passed by all numbers after one that passes. -/
def searchFrom (test : Nat → Bool) (low high : Nat) : Nat :=
  if low < high then
    let middle := (low + high) / 2
    if test middle then searchFrom test low middle else searchFrom test (middle + 1) high
  else low
termination_by high - low

/-- The search cuts the range into the numbers that fail and those that pass. -/
theorem searchFrom_cuts {test : Nat → Bool} {low high : Nat} (inRange : low ≤ high)
    (monotone : ∀ i j, i ≤ j → j < high → test i → test j) :
    low ≤ searchFrom test low high ∧ searchFrom test low high ≤ high ∧
      (∀ i, low ≤ i → i < searchFrom test low high → ¬ test i) ∧
      ∀ i, searchFrom test low high ≤ i → i < high → test i := by
  fun_induction searchFrom test low high with
  | case1 low high less middle passes ih =>
    obtain ⟨lower, upper, fail, pass⟩ := ih (by omega) fun i j le lt => monotone i j le (by omega)
    refine ⟨lower, by omega, fail, fun i behind inside => ?_⟩
    by_cases before : i < middle
    · exact pass i behind before
    · exact monotone middle i (by omega) inside passes
  | case2 low high less middle fails ih =>
    obtain ⟨lower, upper, fail, pass⟩ := ih (by omega) monotone
    refine ⟨by omega, upper, fun i _ before passes => ?_, pass⟩
    by_cases after : middle < i
    · exact fail i after before passes
    · exact fails (monotone i middle (by omega) (by omega) passes)
  | case3 low high notLess =>
    exact ⟨by omega, by omega, by omega, by omega⟩

namespace Holding

/-- Whether a holding ends before the one at a place. -/
def endsBefore (new : Holding) (active : List Holding) (i : Nat) : Bool :=
  active[i]?.any fun h => new.stop < h.stop

/-- Insert a holding at the place that the search finds. -/
def insertBySearch (new : Holding) (active : List Holding) : List Holding :=
  let place := searchFrom (new.endsBefore active) 0 active.length
  active.take place ++ new :: active.drop place

/-- **In a list that is in order, the search finds the place of a holding.** -/
theorem insertBySearch_eq_insert (new : Holding) {active : List Holding}
    (sorted : active.Pairwise fun a b => a.stop ≤ b.stop) :
    new.insertBySearch active = new.insert active := by
  have endsBefore_iff {i : Nat} (bound : i < active.length) :
      new.endsBefore active i ↔ new.stop < active[i].stop := by
    simp [endsBefore, bound]
  have monotone (i j : Nat) (le : i ≤ j) (bound : j < active.length)
      (passes : new.endsBefore active i) : new.endsBefore active j := by
    rw [endsBefore_iff bound]
    rw [endsBefore_iff (le.trans_lt bound)] at passes
    rcases Nat.eq_or_lt_of_le le with rfl | less
    · exact passes
    · exact passes.trans_le (List.pairwise_iff_getElem.mp sorted i j _ bound less)
  obtain ⟨-, -, fail, pass⟩ := searchFrom_cuts (Nat.zero_le active.length) monotone
  rw [insertBySearch]
  generalize searchFrom (new.endsBefore active) 0 active.length = place at fail pass ⊢
  have front : ∀ other ∈ active.take place, other.stop ≤ new.stop := by
    intro other inFront
    obtain ⟨i, before, rfl⟩ := List.mem_take_iff_getElem.mp inFront
    have notBefore := fail i (Nat.zero_le i) (by omega)
    rw [endsBefore_iff (by omega)] at notBefore
    exact Int.not_lt.mp notBefore
  have back : ∀ other ∈ active.drop place, new.stop < other.stop := by
    intro other inBack
    obtain ⟨i, bound, rfl⟩ := List.mem_drop_iff_getElem.mp inBack
    have inside : place + i < active.length := by omega
    exact (endsBefore_iff inside).mp (pass (place + i) (Nat.le_add_right _ _) inside)
  calc
    active.take place ++ new :: active.drop place =
        active.take place ++ new.insert (active.drop place) := by rw [insert_of_forall_lt back]
    _ = new.insert (active.take place ++ active.drop place) := (insert_append front _).symm
    _ = new.insert active := by rw [List.take_append_drop]

end Holding

/-- **A scan inserts by search.** Whatever was placed, a holding that is put into the list of the
scan, or into what is left of it when holdings were taken out, gets the place that the search
finds. -/
theorem exists_placeAll_inserts_by_search {names : List String} (nonempty : names ≠ [])
    (intervals : List Interval) (placed : List (Interval × Nat)) :
    ∃ a, Allocation.placeAll names { intervals } placed = .ok a ∧
      ∀ kept, kept.Sublist a.active → ∀ new : Holding,
        new.insertBySearch kept = new.insert kept := by
  have start : Allocation.Arranges { intervals } { intervals } := ⟨rfl, rfl⟩
  obtain ⟨a, ran, arranges⟩ := start.placeAll nonempty placed (Holding.proper_nil _)
  refine ⟨a, ran, fun kept sub new => new.insertBySearch_eq_insert ?_⟩
  rw [arranges.active_eq] at sub
  exact (Holding.pairwise_arrange _).sublist sub

end RiscBackend.Alloc
