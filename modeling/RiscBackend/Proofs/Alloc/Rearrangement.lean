/-
# An allocation depends on order and extent

The intervals go into a scan in the order of their starts, and intervals with the same
start in the order in which they are given. Hence a rearrangement that keeps the second
order keeps the scan, and every interval gets what it got before. What the registers and
the intervals carry from an earlier allocation has no part in the decisions, and it is
either written over or repeated: an allocation of its own result leaves it as it is.
-/

import RiscBackend.Proofs.Alloc.Decisions

namespace RiscBackend.Alloc

namespace Interval

/-- An interval without a register. -/
def unassigned (iv : Interval) : Interval :=
  { iv with register := "" }

/-- An interval without what was decided about it. -/
def bare (iv : Interval) : Interval :=
  { iv with register := "", spillAt := never }

end Interval

/-- Decisions change nothing else. -/
theorem map_bare_inscribe (decided : List (Nat × Decision)) (intervals : List Interval) :
    (inscribe decided intervals).map Interval.bare = intervals.map Interval.bare := by
  apply List.ext_getElem?
  intro index
  rw [List.getElem?_map, getElem?_inscribe, List.getElem?_map, Option.map_map]
  congr 1
  funext iv
  rw [Function.comp_apply, foldl_adopt]
  rfl

/-- Intervals that differ at most in their registers become equal when they get one. -/
theorem foldl_adopt_of_register {decided : List Decision} {name : String}
    (isDecided : Decision.register name ∈ decided) {iv jv : Interval}
    (same : iv.unassigned = jv.unassigned) :
    decided.foldl Interval.adopt iv = decided.foldl Interval.adopt jv := by
  have isGiven : name ∈ decided.filterMap Decision.register? :=
    List.mem_filterMap.mpr ⟨_, isDecided, rfl⟩
  simp only [Interval.unassigned, Interval.mk.injEq] at same
  rw [foldl_adopt, foldl_adopt]
  cases given : decided.filterMap Decision.register? with
  | nil => simp [given] at isGiven
  | cons first rest => simp [same, List.getLast?_cons]

/-- To write decisions a second time changes nothing. -/
theorem inscribe_twice (decided : List (Nat × Decision)) (intervals : List Interval) :
    inscribe decided (inscribe decided intervals) = inscribe decided intervals := by
  apply List.ext_getElem?
  intro index
  rw [getElem?_inscribe, getElem?_inscribe, Option.map_map]
  congr 1
  funext iv
  exact foldl_adopt_twice _ iv

variable {names : List String} {intervals intervals' : List Interval}

/-- The turns of a scan do not depend on what was decided before. -/
theorem turns_order_congr (nonempty : names ≠ [])
    (same : intervals'.map Interval.bare = intervals.map Interval.bare) :
    Plain.turns names [] (Plain.order intervals') =
      Plain.turns names [] (Plain.order intervals) := by
  have holding_id : (Relabeling.mk id id).holding = id := rfl
  have decision_id : (Relabeling.mk id id).decision = id := by
    funext d
    simp [Relabeling.decision]
  have turns_bare (given : List Interval) :
      Plain.turns names [] (Plain.order (given.map Interval.bare)) =
        Plain.turns names [] (Plain.order given) := by
    have extent : ∀ iv ∈ given, iv.bare.start = id iv.start ∧ iv.bare.stop = id iv.stop :=
      fun _ _ => ⟨rfl, rfl⟩
    rw [turns_order_map nonempty (strictMono_id.strictMonoOn Set.univ)
      (fun _ _ => ⟨Set.mem_univ _, Set.mem_univ _⟩) extent]
    rw [holding_id, decision_id, List.map_id, List.map_id]
  rw [← turns_bare intervals', same, turns_bare]

theorem decisions_congr (nonempty : names ≠ [])
    (same : intervals'.map Interval.bare = intervals.map Interval.bare) :
    decisions names intervals' = decisions names intervals := by
  rw [decisions, turns_order_congr nonempty same, decisions]

theorem lastHoldings_congr (nonempty : names ≠ [])
    (same : intervals'.map Interval.bare = intervals.map Interval.bare) :
    lastHoldings names intervals' = lastHoldings names intervals := by
  rw [lastHoldings, turns_order_congr nonempty same, lastHoldings]

/-- Every interval of an assignment gets a register. -/
theorem exists_register_decisions (nonempty : names ≠ []) {index : Nat} {iv : Interval}
    (isGiven : intervals[index]? = some iv) :
    ∃ name, (index, Decision.register name) ∈ decisions names intervals := by
  apply Plain.exists_register_turns nonempty (Holding.proper_nil _) (x := (iv, index))
  exact Plain.mem_order.mpr isGiven

/-- The registers that intervals had make no difference to an assignment. -/
theorem assign_congr (nonempty : names ≠ [])
    (same : intervals'.map Interval.unassigned = intervals.map Interval.unassigned) :
    assign names intervals' = assign names intervals := by
  have bare_eq : intervals'.map Interval.bare = intervals.map Interval.bare := by
    have forget (given : List Interval) : (given.map Interval.unassigned).map Interval.bare =
        given.map Interval.bare := by rw [List.map_map]; rfl
    rw [← forget, same, forget]
  have inscribed : inscribe (decisions names intervals) intervals' =
      inscribe (decisions names intervals) intervals := by
    apply List.ext_getElem?
    intro index
    have entry := congrArg (·[index]?) same
    simp only [List.getElem?_map] at entry
    rw [getElem?_inscribe, getElem?_inscribe]
    cases given : intervals[index]? with
    | none =>
      rw [given, Option.map_none, Option.map_eq_none_iff] at entry
      rw [entry]
    | some iv =>
      rw [given, Option.map_some, Option.map_eq_some_iff] at entry
      obtain ⟨jv, given', agree⟩ := entry
      obtain ⟨name, decided⟩ := exists_register_decisions nonempty given
      rw [given', Option.map_some, Option.map_some,
        foldl_adopt_of_register (mem_decisionsOn.mpr decided) agree]
  rw [assign_eq_inscribe nonempty, assign_eq_inscribe nonempty, decisions_congr nonempty bare_eq,
    lastHoldings_congr nonempty bare_eq, inscribed]

/-- An assignment of its own result leaves it as it is. -/
theorem assign_twice (nonempty : names ≠ []) {a : Allocation}
    (assigned : assign names intervals = .ok a) : assign names a.intervals = .ok a := by
  rw [assign_eq_inscribe nonempty] at assigned
  obtain rfl := Except.ok.inj assigned
  have bare_eq := map_bare_inscribe (decisions names intervals) intervals
  rw [assign_eq_inscribe nonempty, decisions_congr nonempty bare_eq,
    lastHoldings_congr nonempty bare_eq, inscribe_twice]

/-- Whether a list holds the intervals of another one at other places, where intervals
with the same start follow each other as before. -/
structure Rearranges (place : Equiv.Perm ℕ) (intervals intervals' : List Interval) : Prop where
  entry : ∀ index, intervals'[index]? = intervals[place index]?
  ties : ∀ i j iv jv, intervals'[i]? = some iv → intervals'[j]? = some jv →
    iv.start = jv.start → i < j → place i < place j

namespace Rearranges

variable {place : Equiv.Perm ℕ}

/-- A rearranged list is scanned in the same order. -/
theorem order_eq (rearranges : Rearranges place intervals intervals') :
    (Plain.order intervals').map (Prod.map id place) = Plain.order intervals := by
  have distinct (given : List Interval) : (Plain.order given).Nodup := by
    rw [← scanOrder_eq]
    exact (nodup_indices_scanOrder given).of_map
  have moves : Function.Injective (Prod.map id place : Interval × Nat → Interval × Nat) :=
    Function.injective_id.prodMap place.injective
  have permuted : ((Plain.order intervals').map (Prod.map id place)).Perm
      (Plain.order intervals) := by
    rw [List.perm_ext_iff_of_nodup ((distinct intervals').map moves) (distinct intervals)]
    intro x
    rw [List.mem_map, Plain.mem_order]
    constructor
    · rintro ⟨y, inOrder, rfl⟩
      exact (rearranges.entry y.2).symm.trans (Plain.mem_order.mp inOrder)
    · intro isGiven
      refine ⟨(x.1, place.symm x.2), ?_, by simp⟩
      rw [Plain.mem_order, rearranges.entry, place.apply_symm_apply]
      exact isGiven
  refine permuted.eq_of_pairwise ?_ ?_ (Plain.pairwise_order intervals)
  · intro x y inX inY before after
    have same : x.2 = y.2 := by unfold Plain.Precedes at before after; omega
    have entryX := Plain.mem_order.mp (permuted.mem_iff.mp inX)
    rw [same, Plain.mem_order.mp inY] at entryX
    exact Prod.ext (Option.some.inj entryX).symm same
  · rw [List.pairwise_map]
    refine (Plain.pairwise_order intervals').imp_of_mem ?_
    rintro x y inX inY (earlier | ⟨tied, before⟩)
    · exact .inl earlier
    · refine .inr ⟨tied, ?_⟩
      rcases before.lt_or_eq with sooner | same
      · exact (rearranges.ties x.2 y.2 x.1 y.1 (Plain.mem_order.mp inX) (Plain.mem_order.mp inY)
          tied sooner).le
      · rw [Prod.map_snd, Prod.map_snd, same]

/-- The relabeling that comes with a rearrangement. -/
def relabeling (place : Equiv.Perm ℕ) : Relabeling where
  index := place
  count := id

/-- In a rearranged list the same is decided about the same intervals. -/
theorem turns_eq (rearranges : Rearranges place intervals intervals') (nonempty : names ≠ []) :
    Plain.turns names [] (Plain.order intervals) =
      ((Plain.turns names [] (Plain.order intervals')).1.map (relabeling place).holding,
        (Plain.turns names [] (Plain.order intervals')).2.map (relabeling place).decision) := by
  have takes : List.Forall₂ (relabeling place).Takes (Plain.order intervals')
      (Plain.order intervals) := by
    rw [← rearranges.order_eq, List.forall₂_map_right_iff, List.forall₂_same]
    exact fun x _ => ⟨rfl, rfl, rfl⟩
  exact Relabeling.turns_relabel (strictMono_id.strictMonoOn Set.univ) nonempty takes
    (fun _ _ => ⟨Set.mem_univ _, Set.mem_univ _⟩) (Holding.proper_nil _) (by simp)

theorem decisionsOn_relabel (place : Equiv.Perm ℕ) (index : Nat)
    (decided : List (Nat × Decision)) :
    decisionsOn (place index) (decided.map (relabeling place).decision) =
      decisionsOn index decided := by
  simp [decisionsOn, List.filter_map, Function.comp_def, relabeling, Relabeling.decision]

theorem insert_relabel (place : Equiv.Perm ℕ) (new : Holding) (active : List Holding) :
    ((relabeling place).holding new).insert (active.map (relabeling place).holding) =
      (new.insert active).map (relabeling place).holding := by
  induction active with
  | nil => rfl
  | cons h rest ih =>
    rw [List.map_cons, Holding.insert, Holding.insert, ih]
    split <;> rename_i before
    · rw [if_pos (show new.stop < h.stop from before)]
      rfl
    · rw [if_neg (show ¬ new.stop < h.stop from before)]
      rfl

theorem arrange_relabel (place : Equiv.Perm ℕ) (held : List Holding) :
    Holding.arrange (held.map (relabeling place).holding) =
      (Holding.arrange held).map (relabeling place).holding := by
  induction held using List.reverseRecOn with
  | nil => rfl
  | append_singleton held h ih =>
    rw [List.map_append, List.map_singleton, Holding.arrange_concat, ih, insert_relabel,
      Holding.arrange_concat]

/-- The assignments to a list and to its rearrangement correspond. -/
theorem exists_assign (rearranges : Rearranges place intervals intervals')
    (nonempty : names ≠ []) :
    ∃ a a', assign names intervals = .ok a ∧ assign names intervals' = .ok a' ∧
      (∀ index, a'.intervals[index]? = a.intervals[place index]?) ∧
      a.active = a'.active.map (relabeling place).holding := by
  have turns_eq := rearranges.turns_eq nonempty
  refine ⟨_, _, assign_eq_inscribe nonempty intervals, assign_eq_inscribe nonempty intervals',
    ?_, ?_⟩
  · intro index
    rw [getElem?_inscribe, getElem?_inscribe, rearranges.entry, decisions, decisions, turns_eq,
      decisionsOn_relabel]
  · simp only [lastHoldings, turns_eq, arrange_relabel]

end Rearranges

/-- The registers with the given names and the intervals that hold them at the end. -/
def Allocation.registers (names : List String) (a : Allocation) : Pool :=
  names.zipIdx.map fun register => { name := register.1, holds := a.holder? register.2 }

theorem names_registers (names : List String) (a : Allocation) :
    (a.registers names).names = names := by
  rw [Pool.names, Allocation.registers, List.map_map]
  exact List.zipIdx_map_fst 0 names

theorem allocate_eq_of_assign {pool : Pool} {a : Allocation}
    (assigned : assign pool.names intervals = .ok a) :
    allocate pool intervals = .ok (a.intervals, a.registers pool.names) := by
  rw [allocate, assigned]
  rfl

theorem assign_of_allocate {pool registers : Pool} {placed : List Interval}
    (allocated : allocate pool intervals = .ok (placed, registers)) :
    ∃ a, assign pool.names intervals = .ok a ∧ placed = a.intervals ∧
      registers = a.registers pool.names := by
  cases assigned : assign pool.names intervals with
  | error fault =>
    rw [allocate, assigned] at allocated
    cases allocated
  | ok a =>
    rw [allocate_eq_of_assign assigned, Except.ok.injEq, Prod.mk.injEq] at allocated
    exact ⟨a, rfl, allocated.1.symm, allocated.2.symm⟩

theorem names_ne_of_assign {a : Allocation} (assigned : assign names intervals = .ok a) :
    names ≠ [] := by
  rintro rfl
  cases assigned

/-- The registers end up with the same intervals. -/
theorem registers_of_rearranged {place : Equiv.Perm ℕ} {a a' : Allocation}
    (entry : ∀ index, a'.intervals[index]? = a.intervals[place index]?)
    (active_eq : a.active = a'.active.map (Rearranges.relabeling place).holding) :
    a'.registers names = a.registers names := by
  have holder (slot : Nat) : a'.holder? slot = a.holder? slot := by
    rw [Allocation.holder?, Allocation.holder?, active_eq, List.find?_map, Option.bind_map]
    congr 1
    funext h
    exact entry h.interval
  simp only [Allocation.registers, holder]

/-- **An allocation depends on the order and the extent of the intervals only.** From a
pool that is not empty it gives a result. A rearrangement that keeps the order of
intervals with the same start changes nothing for an interval, nor for the registers.
What the registers held before, and which registers the intervals had, does not matter.
A second allocation of the result changes neither the intervals nor the registers. -/
theorem allocate_depends_on_extent (pool : Pool) (intervals : List Interval) :
    (pool ≠ [] → ∃ placed registers, allocate pool intervals = .ok (placed, registers)) ∧
    (∀ place intervals', Rearranges place intervals intervals' →
      ∀ placed registers, allocate pool intervals = .ok (placed, registers) →
      ∃ placed', allocate pool intervals' = .ok (placed', registers) ∧
        ∀ index, placed'[index]? = placed[place index]?) ∧
    (∀ pool' intervals', pool'.names = pool.names →
      intervals'.map Interval.unassigned = intervals.map Interval.unassigned →
      allocate pool' intervals' = allocate pool intervals) ∧
    (∀ placed registers, allocate pool intervals = .ok (placed, registers) →
      allocate registers placed = .ok (placed, registers)) := by
  refine ⟨?_, ?_, ?_, ?_⟩
  · intro nonempty
    have names_ne := Pool.names_ne_nil nonempty
    exact ⟨_, _, allocate_eq_of_assign (assign_eq_inscribe names_ne intervals)⟩
  · intro place intervals' rearranges placed registers allocated
    obtain ⟨a, assigned, rfl, rfl⟩ := assign_of_allocate allocated
    obtain ⟨b, a', assigned_b, assigned', entry, active_eq⟩ :=
      rearranges.exists_assign (names_ne_of_assign assigned)
    obtain rfl : b = a := Except.ok.inj (assigned_b.symm.trans assigned)
    rw [← registers_of_rearranged entry active_eq]
    exact ⟨a'.intervals, allocate_eq_of_assign assigned', entry⟩
  · intro pool' intervals' names_eq same
    rw [allocate, allocate, names_eq]
    by_cases empty : pool.names = []
    · rw [empty]
      rfl
    · rw [assign_congr empty same]
  · intro placed registers allocated
    obtain ⟨a, assigned, rfl, rfl⟩ := assign_of_allocate allocated
    have again := assign_twice (names_ne_of_assign assigned) assigned
    rw [← names_registers pool.names a] at again
    rw [allocate_eq_of_assign again, names_registers]

/-- Three intervals for two registers. The first two start and end together. -/
def tied : List Interval :=
  [{ name := "a", start := 0, stop := 4 }, { name := "b", start := 0, stop := 4 },
    { name := "c", start := 1, stop := 2 }]

/-- The three with the last one in front. -/
def tiedCycled : List Interval :=
  [{ name := "c", start := 1, stop := 2 }, { name := "a", start := 0, stop := 4 },
    { name := "b", start := 0, stop := 4 }]

/-- The places of the entries in the original list. -/
def cycle : Equiv.Perm ℕ := Equiv.swap 0 2 * Equiv.swap 1 2

theorem rearranges_tiedCycled : Rearranges cycle tied tiedCycled where
  entry index := by
    rcases index with _ | _ | _ | index
    · rfl
    · rfl
    · rfl
    · have fixed : cycle (index + 3) = index + 3 := by
        have first : Equiv.swap 1 2 (index + 3) = index + 3 :=
          Equiv.swap_apply_of_ne_of_ne (by omega) (by omega)
        rw [cycle, Equiv.Perm.mul_apply, first]
        exact Equiv.swap_apply_of_ne_of_ne (by omega) (by omega)
      rw [fixed]
      rfl
  ties i j iv jv atI atJ equal before := by
    have checked : ∀ i < 3, ∀ j < 3,
        tiedCycled[i]?.map Interval.start = tiedCycled[j]?.map Interval.start →
        i < j → cycle i < cycle j := by decide
    apply checked i (List.getElem?_eq_some_iff.mp atI).1 j (List.getElem?_eq_some_iff.mp atJ).1
    · rw [atI, atJ, Option.map_some, Option.map_some, equal]
    · exact before

/-- With the last one in front the first of the two that tie is still the one evicted. -/
theorem allocate_depends_on_extent_tied :
    Rearranges cycle tied tiedCycled ∧
    ∃ placed registers, allocate (Pool.ofNames ["s1", "s2"]) tied = .ok (placed, registers) ∧
      placed.map (fun iv => (iv.name, iv.register, iv.spillAt)) =
        [("a", "s1", 1), ("b", "s2", never), ("c", "s1", never)] ∧
      (∃ placed', allocate (Pool.ofNames ["s1", "s2"]) tiedCycled = .ok (placed', registers) ∧
        ∀ index, placed'[index]? = placed[cycle index]?) ∧
      allocate [{ name := "s1", holds := some { name := "x", start := 3, stop := 9 } },
          { name := "s2" }] (tied.map fun iv => { iv with register := "t0" }) =
        .ok (placed, registers) ∧
      allocate registers placed = .ok (placed, registers) := by
  obtain ⟨succeeds, rearranged, forgets, again⟩ :=
    allocate_depends_on_extent (Pool.ofNames ["s1", "s2"]) tied
  obtain ⟨placed, registers, allocated⟩ := succeeds (by decide)
  have placed_eq : scanOrder tied = tied.zipIdx := List.mergeSort_of_pairwise (by decide)
  have values : ((allocate (Pool.ofNames ["s1", "s2"]) tied).toOption.map fun result =>
      result.1.map fun iv => (iv.name, iv.register, iv.spillAt)) =
        some [("a", "s1", 1), ("b", "s2", never), ("c", "s1", never)] := by
    rw [allocate, assign, placed_eq]
    decide +kernel
  rw [allocated] at values
  refine ⟨rearranges_tiedCycled, placed, registers, allocated, Option.some.inj values,
    rearranged _ _ rearranges_tiedCycled _ _ allocated, ?_, again _ _ allocated⟩
  rw [← allocated]
  exact forgets _ _ rfl rfl

end RiscBackend.Alloc
