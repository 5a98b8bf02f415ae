/-
# Evictions and pressure

The pressure at a position is the number of intervals that are in use there. A scan
evicts an interval exactly when the pressure somewhere exceeds the number of registers.

When an interval is evicted, all registers are held by intervals that have started and
not ended, and the interval to be placed is one more. While nobody was evicted, on the
other hand, an interval without a register has ended, so those in use at a position have
different registers: the last of them found a free one.

Ends count as uses. An interval that ends where another one starts is in its way.
-/

import RiscBackend.Proofs.Alloc.Inclusion

namespace RiscBackend.Alloc

/-- Whether an interval is in use at a position. -/
def Interval.covers (iv : Interval) (position : Int) : Bool :=
  iv.start ≤ position && position ≤ iv.stop

theorem Interval.covers_iff {iv : Interval} {position : Int} :
    iv.covers position = true ↔ iv.start ≤ position ∧ position ≤ iv.stop := by
  simp [covers]

/-- The number of intervals that are in use at a position. -/
def pressure (intervals : List Interval) (position : Int) : Nat :=
  intervals.countP fun iv => iv.covers position

theorem pressure_append (first second : List Interval) (position : Int) :
    pressure (first ++ second) position = pressure first position + pressure second position :=
  List.countP_append

/-- The order in which intervals are placed does not change the pressure. -/
theorem pressure_order (intervals : List Interval) (position : Int) :
    pressure ((Plain.order intervals).map Prod.fst) position = pressure intervals position := by
  have permuted : ((Plain.order intervals).map Prod.fst).Perm intervals := by
    have sorted := (List.perm_insertionSort Plain.Precedes intervals.zipIdx).map Prod.fst
    rwa [List.zipIdx_map_fst] at sorted
  exact permuted.countP_eq _

namespace Plain

/-- The tenant that an interval becomes when it gets a register. -/
def tenancy (x : Interval × Nat) : Nat × Int :=
  (x.2, x.1.stop)

/-- The tenants in use at a position, when these intervals were placed in turn. -/
theorem length_filter_tenancy (done : List (Interval × Nat)) (position : Int) :
    ((done.filter fun x => x.1.covers position).map tenancy).length =
      pressure (done.map Prod.fst) position := by
  rw [List.length_map, ← List.countP_eq_length_filter, pressure, List.countP_map]
  rfl

/-- What holds of a scan with `size` registers when the intervals of `done` were placed
and those of `todo` are still to be placed. -/
structure Strained (size : Nat) (done todo : List (Interval × Nat)) (s : Plain) : Prop where
  nodup : ((done ++ todo).map Prod.snd).Nodup
  inOrder : (done ++ todo).Pairwise fun x y => x.1.start ≤ y.1.start
  tenants : s.tenants.Sublist (done.map tenancy)
  /-- An eviction took place where another interval started and the registers did not
  suffice. -/
  evicted : ∀ (i : Nat) (spill : Int), s.spills[i]? = some spill → spill ≠ never →
    (∃ x ∈ done, x.2 = i ∧ x.1.covers spill = true) ∧
    (∃ y ∈ done, y.2 ≠ i ∧ spill = y.1.start) ∧
    size < pressure ((done ++ todo).map Prod.fst) spill
  /-- Before the first eviction only those that have ended are without a register. -/
  ended : (∀ spill ∈ s.spills, spill = never) → ∀ x ∈ done, tenancy x ∉ s.tenants →
    ∀ y ∈ todo, x.1.stop < y.1.start
  /-- Before the first eviction the registers sufficed everywhere. -/
  eased : (∀ spill ∈ s.spills, spill = never) →
    ∀ position, pressure (done.map Prod.fst) position ≤ size

namespace Strained

variable {size : Nat} {done todo : List (Interval × Nat)} {s : Plain} {x : Interval × Nat}

theorem nodup_done (strained : Strained size done todo s) : (done.map tenancy).Nodup := by
  have indices := strained.nodup
  rw [List.map_append] at indices
  apply List.Nodup.of_map Prod.fst
  rw [List.map_map]
  exact (List.nodup_append.mp indices).1

theorem nodup_tenants (strained : Strained size done todo s) : (s.tenants.map Prod.fst).Nodup := by
  have indices := strained.nodup
  rw [List.map_append] at indices
  have kept := strained.tenants.map Prod.fst
  rw [List.map_map] at kept
  exact (List.nodup_append.mp indices).1.sublist kept

/-- What was placed has started when the next interval starts. -/
theorem started (strained : Strained size done (x :: todo) s) {y : Interval × Nat}
    (isDone : y ∈ done) : y.1.start ≤ x.1.start :=
  (List.pairwise_append.mp strained.inOrder).2.2 y isDone x List.mem_cons_self

/-- The tenants that stay when the next interval starts are in use there. -/
theorem mem_of_stays (strained : Strained size done (x :: todo) s) {t : Nat × Int}
    (stays : t ∈ (s.release x.1.start).tenants) :
    ∃ y ∈ done, tenancy y = t ∧ y.1.covers x.1.start = true := by
  rw [tenants_release, List.mem_filter, decide_eq_true_eq] at stays
  obtain ⟨y, isDone, rfl⟩ := List.mem_map.mp (strained.tenants.subset stays.1)
  exact ⟨y, isDone, rfl, Interval.covers_iff.mpr ⟨strained.started isDone, stays.2⟩⟩

/-- There are at most as many of them as there are intervals in use. -/
theorem length_stays_le (strained : Strained size done (x :: todo) s) :
    (s.release x.1.start).tenants.length ≤ pressure (done.map Prod.fst) x.1.start := by
  have kept : (s.release x.1.start).tenants.Sublist s.tenants := by
    rw [tenants_release]
    exact List.filter_sublist
  have distinct : (s.release x.1.start).tenants.Nodup :=
    (strained.nodup_done.sublist strained.tenants).sublist kept
  rw [← length_filter_tenancy]
  apply (distinct.subperm fun t stays => ?_).length_le
  obtain ⟨y, isDone, rfl, covers⟩ := strained.mem_of_stays stays
  exact List.mem_map_of_mem (List.mem_filter.mpr ⟨isDone, covers⟩)

/-- Before the first eviction, what is in use after the start of the next interval has a
register there. -/
theorem pressure_le_length_stays (strained : Strained size done (x :: todo) s)
    (calm : ∀ spill ∈ s.spills, spill = never) {position : Int} (later : x.1.start ≤ position) :
    pressure (done.map Prod.fst) position ≤ (s.release x.1.start).tenants.length := by
  have distinct : ((done.filter fun y => y.1.covers position).map tenancy).Nodup :=
    strained.nodup_done.sublist (List.filter_sublist.map _)
  rw [← length_filter_tenancy]
  apply (distinct.subperm fun t inUse => ?_).length_le
  obtain ⟨y, isUsed, rfl⟩ := List.mem_map.mp inUse
  obtain ⟨isDone, covers⟩ := List.mem_filter.mp isUsed
  rw [Interval.covers_iff] at covers
  have lasts : x.1.start ≤ y.1.stop := later.trans covers.2
  rw [tenants_release, List.mem_filter]
  refine ⟨?_, decide_eq_true lasts⟩
  by_contra unheld
  have ended := strained.ended calm y isDone unheld x List.mem_cons_self
  omega

theorem release (strained : Strained size done (x :: todo) s) :
    Strained size done (x :: todo) (s.release x.1.start) where
  nodup := strained.nodup
  inOrder := strained.inOrder
  tenants := by
    rw [tenants_release]
    exact List.filter_sublist.trans strained.tenants
  evicted := strained.evicted
  ended := by
    intro calm y isDone gone z inTodo
    by_cases wasTenant : tenancy y ∈ s.tenants
    · rw [tenants_release, List.mem_filter, not_and] at gone
      have ended : y.1.stop < x.1.start :=
        Int.not_le.mp fun lasts => gone wasTenant (decide_eq_true lasts)
      have ordered := (List.pairwise_append.mp strained.inOrder).2.1
      rcases List.mem_cons.mp inTodo with rfl | isLater
      · exact ended
      · exact ended.trans_le (List.rel_of_pairwise_cons ordered isLater)
    · exact strained.ended calm y isDone wasTenant z inTodo
  eased := strained.eased

/-- What was evicted before stays accounted for when the next interval is placed. -/
theorem evicted_concat (strained : Strained size done (x :: todo) s) {i : Nat} {spill : Int}
    (found : s.spills[i]? = some spill) (isSpill : spill ≠ never) :
    (∃ y ∈ done ++ [x], y.2 = i ∧ y.1.covers spill = true) ∧
    (∃ y ∈ done ++ [x], y.2 ≠ i ∧ spill = y.1.start) ∧
    size < pressure ((done ++ [x] ++ todo).map Prod.fst) spill := by
  obtain ⟨⟨y, isDone, victim⟩, ⟨z, isDone', evictor⟩, pressed⟩ :=
    strained.evicted i spill found isSpill
  rw [List.append_assoc, List.singleton_append]
  exact ⟨⟨y, List.mem_append_left _ isDone, victim⟩,
    ⟨z, List.mem_append_left _ isDone', evictor⟩, pressed⟩

/-- A tenant that is evicted where the next interval starts, with all registers held. -/
theorem evicted_by_next (strained : Strained size done (x :: todo) s)
    (proper : x.1.start ≤ x.1.stop) (full : size ≤ (s.release x.1.start).tenants.length)
    {t : Nat × Int} (stays : t ∈ (s.release x.1.start).tenants) :
    (∃ y ∈ done ++ [x], y.2 = t.1 ∧ y.1.covers x.1.start = true) ∧
    (∃ y ∈ done ++ [x], y.2 ≠ t.1 ∧ x.1.start = y.1.start) ∧
    size < pressure ((done ++ [x] ++ todo).map Prod.fst) x.1.start := by
  obtain ⟨y, isDone, rfl, covers⟩ := strained.mem_of_stays stays
  have indices := strained.nodup
  rw [List.map_append, List.nodup_append] at indices
  have apart : x.2 ≠ y.2 := (indices.2.2 _ (List.mem_map_of_mem isDone) _ (by simp)).symm
  have held := strained.length_stays_le
  have covers' : x.1.covers x.1.start = true := Interval.covers_iff.mpr ⟨le_rfl, proper⟩
  have more : pressure ([x].map Prod.fst) x.1.start = 1 := by simp [pressure, covers']
  refine ⟨⟨y, List.mem_append_left _ isDone, rfl, covers⟩,
    ⟨x, List.mem_append_right _ List.mem_cons_self, apart, rfl⟩, ?_⟩
  rw [List.map_append, List.map_append, pressure_append, pressure_append]
  omega

/-- The next interval takes a free register. -/
theorem occupy (strained : Strained size done (x :: todo) s)
    (stay : s.tenants = (s.release x.1.start).tenants) (room : s.tenants.length < size)
    (slot : Nat) (register : String) :
    Strained size (done ++ [x]) todo (s.occupy slot register x) := by
  have split : done ++ [x] ++ todo = done ++ x :: todo := by simp
  constructor
  case nodup => rw [split]; exact strained.nodup
  case inOrder => rw [split]; exact strained.inOrder
  case tenants =>
    rw [tenants_occupy, List.map_append]
    exact strained.tenants.append (List.Sublist.refl _)
  case evicted =>
    intro i spill found isSpill
    rw [spills_occupy] at found
    exact strained.evicted_concat found isSpill
  case ended =>
    intro calm y isDone gone z inTodo
    rw [spills_occupy] at calm
    rw [tenants_occupy, List.mem_append, not_or] at gone
    rcases List.mem_append.mp isDone with wasDone | isNew
    · exact strained.ended calm y wasDone gone.1 z (List.mem_cons_of_mem _ inTodo)
    · obtain rfl := List.mem_singleton.mp isNew
      exact absurd (List.mem_singleton_self _) gone.2
  case eased =>
    intro calm position
    rw [spills_occupy] at calm
    rw [List.map_append, pressure_append]
    cases covers : x.1.covers position with
    | false =>
      have before := strained.eased calm position
      simpa [pressure, covers] using before
    | true =>
      have bound := strained.pressure_le_length_stays calm (Interval.covers_iff.mp covers).1
      rw [← stay] at bound
      have one : pressure ([x].map Prod.fst) position = 1 := by simp [pressure, covers]
      omega

/-- A tenant makes room for the next interval, which starts while all registers are
held. -/
theorem evict_occupy {victim : Holding} (strained : Strained size done (x :: todo) s)
    (stay : s.tenants = (s.release x.1.start).tenants) (full : size ≤ s.tenants.length)
    (isHeld : victim ∈ s.held) (placed : victim.interval < s.spills.length)
    (proper : x.1.start ≤ x.1.stop) (early : x.1.start < never) (slot : Nat) (register : String) :
    Strained size (done ++ [x]) todo ((s.evict victim x.1.start).occupy slot register x) := by
  have split : done ++ [x] ++ todo = done ++ x :: todo := by simp
  have spilled : x.1.start ∈ (s.evict victim x.1.start).spills := by
    rw [spills_evict]
    exact List.mem_set placed _
  -- After an eviction there is nothing to show about the time before the first one.
  have disturbed : ¬ ∀ spill ∈ (s.evict victim x.1.start).spills, spill = never := by
    intro calm
    exact absurd (calm _ spilled) early.ne
  constructor
  case nodup => rw [split]; exact strained.nodup
  case inOrder => rw [split]; exact strained.inOrder
  case tenants =>
    rw [tenants_occupy, List.map_append, tenants_evict isHeld strained.nodup_tenants]
    exact (List.erase_sublist.trans strained.tenants).append (List.Sublist.refl _)
  case ended =>
    intro calm
    rw [spills_occupy] at calm
    exact absurd calm disturbed
  case eased =>
    intro calm
    rw [spills_occupy] at calm
    exact absurd calm disturbed
  case evicted =>
    intro i spill found isSpill
    rw [spills_occupy, spills_evict] at found
    rcases spill_of_set found with ⟨rfl, rfl⟩ | ⟨-, unchanged⟩
    · rw [stay] at full
      have stays : victim.tenant ∈ (s.release x.1.start).tenants :=
        stay ▸ List.mem_map_of_mem isHeld
      exact strained.evicted_by_next proper full stays
    · exact strained.evicted_concat unchanged isSpill

open Holding (Proper)

variable {names : List String}

/-- Placing an interval. -/
theorem place (strained : Strained names.length done (x :: todo) s) (nonempty : names ≠ [])
    (proper : Proper names.length s.held) (inRange : ∀ y ∈ done, y.2 < s.spills.length)
    (ordered : x.1.start ≤ x.1.stop) (early : x.1.start < never) :
    Strained names.length (done ++ [x]) todo (s.place names x) := by
  have released := strained.release
  have stay : (s.release x.1.start).tenants =
      ((s.release x.1.start).release x.1.start).tenants := by
    simp only [tenants_release, List.filter_filter, Bool.and_self]
  by_cases room : (s.release x.1.start).held.length < names.length
  · obtain ⟨slot, -, placed⟩ := place_of_room room
    rw [placed]
    exact released.occupy stay (by rwa [length_tenants]) _ _
  · obtain ⟨victim, isHeld, -, placed⟩ := place_of_full proper nonempty (Nat.not_lt.mp room)
    rw [placed]
    have isTenant : victim.tenant ∈ (s.release x.1.start).tenants := List.mem_map_of_mem isHeld
    obtain ⟨y, isDone, same, -⟩ := strained.mem_of_stays isTenant
    have known : victim.interval < s.spills.length := by
      have isVictim : y.2 = victim.interval := congrArg Prod.fst same
      exact isVictim ▸ inRange y isDone
    exact released.evict_occupy stay (by rw [length_tenants]; omega) isHeld known ordered early _ _

end Strained

theorem length_spills_place {names : List String} (s : Plain) (x : Interval × Nat) :
    (s.place names x).spills.length = s.spills.length := by
  rw [place]
  split
  · simp
  · split <;> simp

open Holding (Proper)

/-- Placing intervals one after another. -/
theorem Strained.placeAll {names : List String} {done todo : List (Interval × Nat)} {s : Plain}
    (strained : Strained names.length done todo s) (nonempty : names ≠ [])
    (proper : Proper names.length s.held)
    (inRange : ∀ y ∈ done ++ todo, y.2 < s.spills.length)
    (ordered : ∀ x ∈ todo, x.1.start ≤ x.1.stop) (early : ∀ x ∈ todo, x.1.start < never) :
    Strained names.length (done ++ todo) [] (todo.foldl (Plain.place names) s) := by
  induction todo generalizing done s with
  | nil => simpa using strained
  | cons x rest ih =>
    rw [List.forall_mem_cons] at ordered early
    have inDone : ∀ y ∈ done, y.2 < s.spills.length := fun y isDone =>
      inRange y (List.mem_append_left _ isDone)
    have next := strained.place nonempty proper inDone ordered.1 early.1
    have split : done ++ [x] ++ rest = done ++ x :: rest := by simp
    have all := ih next (proper_place proper nonempty x)
      (by rw [split, length_spills_place]; exact inRange) ordered.2 early.2
    rwa [split] at all

/-- Before a scan nothing is placed and nothing evicted. -/
theorem strained_start {intervals : List Interval}
    (unspilled : ∀ iv ∈ intervals, iv.spillAt = never) (size : Nat) :
    Strained size [] (order intervals) { intervals } where
  nodup := scanOrder_eq intervals ▸ nodup_indices_scanOrder intervals
  inOrder := scanOrder_eq intervals ▸ pairwise_scanOrder intervals
  tenants := List.Sublist.refl _
  evicted := by
    intro i spill found isSpill
    obtain ⟨iv, isGiven, rfl⟩ := List.mem_map.mp (List.mem_of_getElem? found)
    exact absurd (unspilled iv isGiven) isSpill
  ended := by simp
  eased := by simp [pressure]

/-- A whole scan. -/
theorem strained_scan {names : List String} (nonempty : names ≠ []) {intervals : List Interval}
    (ordered : ∀ iv ∈ intervals, iv.start ≤ iv.stop)
    (early : ∀ iv ∈ intervals, iv.start < never)
    (unspilled : ∀ iv ∈ intervals, iv.spillAt = never) :
    Strained names.length (order intervals) []
      ((order intervals).foldl (place names) { intervals }) := by
  have given {x : Interval × Nat} (inOrder : x ∈ order intervals) : x.1 ∈ intervals :=
    List.mem_of_getElem? (mem_order.mp inOrder)
  have inRange : ∀ x ∈ order intervals, x.2 < (spills { intervals }).length := by
    intro x inOrder
    rw [spills, List.length_map]
    exact (List.getElem?_eq_some_iff.mp (mem_order.mp inOrder)).1
  exact (strained_start unspilled names.length).placeAll nonempty (Holding.proper_nil _) inRange
    (fun x inOrder => ordered x.1 (given inOrder)) (fun x inOrder => early x.1 (given inOrder))

end Plain

/-- An interval is used as the one that was given at its index. -/
theorem exists_sameUse_getElem? {placed given : List Interval} {i : Nat} {g : Interval}
    (uses : List.Forall₂ Interval.SameUse placed given) (isGiven : given[i]? = some g) :
    ∃ iv, placed[i]? = some iv ∧ iv.SameUse g := by
  obtain ⟨bound, rfl⟩ := List.getElem?_eq_some_iff.mp isGiven
  have bound' : i < placed.length := uses.length_eq ▸ bound
  exact ⟨_, List.getElem?_eq_getElem bound', List.Forall₂.get uses bound' bound⟩

/-- **Evictions under pressure.** Let no interval end before it starts and let none be
evicted yet. Then a scan evicts an interval if and only if at some position more of them
are in use than there are registers. An interval that is evicted is in use there, and
another one starts at that position. -/
theorem allocate_evicts_iff_pressure (pool : Pool) (intervals : List Interval)
    (nonempty : pool ≠ []) (ordered : ∀ iv ∈ intervals, iv.start ≤ iv.stop)
    (early : ∀ iv ∈ intervals, iv.start < never)
    (unspilled : ∀ iv ∈ intervals, iv.spillAt = never) :
    ∃ placed registers, allocate pool intervals = .ok (placed, registers) ∧
      List.Forall₂ Interval.SameUse placed intervals ∧
      ((∃ iv ∈ placed, iv.spilled = true) ↔
        ∃ position, pool.length < pressure intervals position) ∧
      ∀ (i : Nat) (iv : Interval), placed[i]? = some iv → iv.spilled = true →
        iv.start ≤ iv.spillAt ∧ iv.spillAt ≤ iv.stop ∧
        ∃ (j : Nat) (other : Interval), j ≠ i ∧ placed[j]? = some other ∧
          iv.spillAt = other.start := by
  have names_ne := Pool.names_ne_nil nonempty
  have size : pool.names.length = pool.length := List.length_map _
  obtain ⟨a, assigned, arranges⟩ := exists_assign_arranges names_ne intervals
  obtain ⟨registers, allocated⟩ := allocate_of_assign assigned
  have uses := sameUse_of_allocate allocated
  have strained := Plain.strained_scan names_ne ordered early unspilled
  rw [size] at strained
  -- The scan and the plain scan decide on the same evictions.
  have spills_eq : (List.foldl (Plain.place pool.names) { intervals }
      (Plain.order intervals)).spills = a.intervals.map Interval.spillAt := by
    rw [Plain.spills, arranges.intervals_eq]
  have evicted {i : Nat} {iv : Interval} (found : a.intervals[i]? = some iv)
      (spilled : iv.spilled = true) :=
    strained.evicted i iv.spillAt (by rw [spills_eq, List.getElem?_map, found]; rfl)
      (by simpa [Interval.spilled] using spilled)
  refine ⟨a.intervals, registers, allocated, uses, ⟨?_, ?_⟩, ?_⟩
  · rintro ⟨iv, isPlaced, spilled⟩
    obtain ⟨i, found⟩ := List.mem_iff_getElem?.mp isPlaced
    obtain ⟨-, -, pressed⟩ := evicted found spilled
    rw [List.append_nil, pressure_order] at pressed
    exact ⟨iv.spillAt, pressed⟩
  · rintro ⟨position, pressed⟩
    by_contra none
    have calm : ∀ spill ∈ a.intervals.map Interval.spillAt, spill = never := by
      intro spill isSpill
      obtain ⟨iv, isPlaced, rfl⟩ := List.mem_map.mp isSpill
      by_contra spilled
      exact none ⟨iv, isPlaced, by simpa [Interval.spilled] using spilled⟩
    have bound := strained.eased (spills_eq ▸ calm) position
    rw [pressure_order] at bound
    omega
  · intro i iv found spilled
    obtain ⟨⟨x, inOrder, rfl, covers⟩, ⟨y, inOrder', other, start_eq⟩, -⟩ := evicted found spilled
    rw [Interval.covers_iff] at covers
    obtain ⟨iv', found', use⟩ := exists_sameUse_getElem? uses (Plain.mem_order.mp inOrder)
    obtain ⟨jv, foundJ, useJ⟩ := exists_sameUse_getElem? uses (Plain.mem_order.mp inOrder')
    obtain rfl : iv' = iv := Option.some.inj (found'.symm.trans found)
    rw [use.2.1, use.2.2.1]
    exact ⟨covers.1, covers.2, y.2, jv, other, foundJ, start_eq.trans useJ.2.1.symm⟩

/-- Four of the contested intervals are in use at position 3, and nowhere more. With three
registers there is an eviction, with four registers there is none. -/
theorem allocate_evicts_iff_pressure_contested :
    pressure contested 3 = 4 ∧
    (∃ placed registers,
      allocate (Pool.ofNames ["s1", "s2", "s3"]) contested = .ok (placed, registers) ∧
      ∃ iv ∈ placed, iv.spilled = true) ∧
    ∃ placed registers,
      allocate (Pool.ofNames ["s1", "s2", "s3", "s4"]) contested = .ok (placed, registers) ∧
      (¬ ∃ iv ∈ placed, iv.spilled = true) ∧ ¬ ∃ position, 4 < pressure contested position := by
  have ordered : ∀ iv ∈ contested, iv.start ≤ iv.stop := by decide
  have early : ∀ iv ∈ contested, iv.start < never := by decide
  have unspilled : ∀ iv ∈ contested, iv.spillAt = never := by decide
  obtain ⟨placed, registers, allocated, -, under, -⟩ :=
    allocate_evicts_iff_pressure (Pool.ofNames ["s1", "s2", "s3"]) contested (by decide) ordered
      early unspilled
  obtain ⟨placed', registers', allocated', -, under', -⟩ :=
    allocate_evicts_iff_pressure (Pool.ofNames ["s1", "s2", "s3", "s4"]) contested (by decide)
      ordered early unspilled
  have bounded : ¬ ∃ position, 4 < pressure contested position := by
    rintro ⟨position, pressed⟩
    -- Only all five intervals would be too many, and the last begins after the first has ended.
    have all : pressure contested position = contested.length :=
      Nat.le_antisymm List.countP_le_length pressed
    have covered := List.countP_eq_length.mp all
    have first := covered { name := "a", start := 0, stop := 4 } (by decide)
    have last := covered { name := "e", start := 5, stop := 6 } (by decide)
    rw [Interval.covers_iff] at first last
    exact absurd (Int.le_trans last.1 first.2) (by decide)
  exact ⟨by decide, ⟨placed, registers, allocated, under.mpr ⟨3, by decide⟩⟩,
    placed', registers', allocated', fun spilled => bounded (under'.mp spilled), bounded⟩

end RiscBackend.Alloc
