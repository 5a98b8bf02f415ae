/-
# More registers evict no more

A scan with one register more is followed side by side with a scan without it. After
every interval the holders of the small pool are among those of the large one, and the
large one has at most one holder more. This spare holder lost its register in the small
pool some time ago.

When both pools are full there are two cases. Either the same holder ends last in both,
and both evict it; or the spare one ends last in the large pool, which then evicts it
later than the small pool did, and the victim of the small pool becomes the spare one.
The order of placing is the same in both scans, so it settles equal ends alike.

Who is evicted does not depend on which register is whose, so the comparison is about
the tenants of a plain scan: the intervals that hold some register, with their ends.
-/

import Mathlib.Data.List.Find
import RiscBackend.Proofs.Alloc.PlainScan

namespace RiscBackend.Alloc

theorem Interval.SameUse.of_common {a b given : Interval} (first : a.SameUse given)
    (second : b.SameUse given) : a.SameUse b :=
  ⟨first.1.trans second.1.symm, first.2.1.trans second.2.1.symm,
    first.2.2.1.trans second.2.2.1.symm, first.2.2.2.trans second.2.2.2.symm⟩

/-- The interval of a holding, with its end. -/
def Holding.tenant (h : Holding) : Nat × Int :=
  (h.interval, h.stop)

namespace Plain

/-- The intervals that hold registers, with their ends, in the order of placing. -/
def tenants (s : Plain) : List (Nat × Int) :=
  s.held.map Holding.tenant

/-- The positions of eviction, interval by interval. -/
def spills (s : Plain) : List Int :=
  s.intervals.map Interval.spillAt

/-- The tenant that ends last; of several, the first. -/
def lastTenant? (tenants : List (Nat × Int)) : Option (Nat × Int) :=
  tenants.find? fun t => tenants.all fun other => other.2 ≤ t.2

theorem lastTenant?_tenants (s : Plain) :
    lastTenant? s.tenants = (victim? s.held).map Holding.tenant := by
  simp only [lastTenant?, tenants, List.find?_map, List.all_map]
  rfl

@[simp] theorem length_tenants (s : Plain) : s.tenants.length = s.held.length :=
  List.length_map _

@[simp] theorem tenants_release (s : Plain) (position : Int) :
    (s.release position).tenants = s.tenants.filter fun t => position ≤ t.2 := by
  rw [tenants, tenants, List.filter_map]
  rfl

@[simp] theorem spills_release (s : Plain) (position : Int) :
    (s.release position).spills = s.spills := rfl

@[simp] theorem tenants_occupy (s : Plain) (slot : Nat) (register : String) (x : Interval × Nat) :
    (s.occupy slot register x).tenants = s.tenants ++ [(x.2, x.1.stop)] := by
  rw [tenants, occupy, List.map_append]
  rfl

@[simp] theorem spills_occupy (s : Plain) (slot : Nat) (register : String) (x : Interval × Nat) :
    (s.occupy slot register x).spills = s.spills := by
  apply List.ext_getElem?
  intro i
  simp only [spills, occupy, List.getElem?_map, List.getElem?_modify]
  split <;> cases s.intervals[i]? <;> rfl

@[simp] theorem spills_evict (s : Plain) (victim : Holding) (position : Int) :
    (s.evict victim position).spills = s.spills.set victim.interval position := by
  apply List.ext_getElem?
  intro i
  simp only [spills, evict, List.getElem?_map, List.getElem?_modify, List.getElem?_set']
  split <;> cases s.intervals[i]? <;> rfl

/-- Where no interval holds two registers, an eviction takes one tenant out. -/
theorem tenants_evict {s : Plain} {victim : Holding} (isHeld : victim ∈ s.held)
    (nodup : (s.tenants.map Prod.fst).Nodup) (position : Int) :
    (s.evict victim position).tenants = s.tenants.erase victim.tenant := by
  have distinct : (s.held.map Holding.tenant).Nodup := nodup.of_map
  rw [evict, tenants, tenants, distinct.erase_eq_filter, distinct.of_map.erase_eq_filter,
    List.filter_map]
  congr 1
  apply List.filter_congr
  intro h isHeld'
  have same : h.tenant = victim.tenant ↔ h = victim :=
    ⟨List.inj_on_of_nodup_map distinct isHeld' isHeld, congrArg Holding.tenant⟩
  simp only [Function.comp_apply, bne, beq_eq_decide, same]

/-- If the tenant that ends last is among fewer tenants, it ends last among them. -/
theorem lastTenant?_of_sublist {few many : List (Nat × Int)} {t : Nat × Int}
    (sub : few.Sublist many) (nodup : many.Nodup) (isLast : lastTenant? many = some t)
    (isFew : t ∈ few) : lastTenant? few = some t := by
  have bound : ∀ other ∈ many, other.2 ≤ t.2 := by simpa using List.find?_some isLast
  -- Among the fewer tenants the same ones end last as among all.
  have same : ∀ u ∈ few, few.all (fun other => other.2 ≤ u.2) =
      many.all fun other => other.2 ≤ u.2 := by
    intro u inFew
    rw [Bool.eq_iff_iff, List.all_eq_true, List.all_eq_true]
    constructor
    · intro above other inMany
      have first := bound other inMany
      have second := above t isFew
      simp only [decide_eq_true_eq] at second ⊢
      omega
    · intro above other inFew'
      exact above other (sub.subset inFew')
  rw [lastTenant?, List.find?_congr same]
  rw [lastTenant?, ← List.head?_filter] at isLast
  rw [← List.head?_filter]
  have sub' := sub.filter fun u => many.all fun other => other.2 ≤ u.2
  have inFilter : t ∈ few.filter fun u => many.all fun other => other.2 ≤ u.2 := by
    simpa [isFew] using bound
  have distinct := nodup.filter fun u => many.all fun other => other.2 ≤ u.2
  obtain ⟨later, split⟩ := List.head?_eq_some_iff.mp isLast
  rw [split] at sub' distinct
  rcases List.sublist_cons_iff.mp sub' with among | ⟨fewer, split', -⟩
  · exact absurd (among.subset inFilter) (List.nodup_cons.mp distinct).1
  · rw [split']
    rfl

/-- Leaving tenants out does not widen the gap. -/
theorem length_filter_le_succ {few many : List (Nat × Int)} (sub : few.Sublist many)
    (gap : many.length ≤ few.length + 1) (keep : Nat × Int → Bool) :
    (many.filter keep).length ≤ (few.filter keep).length + 1 := by
  have dropped : few.countP (fun t => ¬ keep t = true) ≤ many.countP fun t => ¬ keep t = true :=
    sub.countP_le
  have all_few := List.length_eq_countP_add_countP keep (l := few)
  have all_many := List.length_eq_countP_add_countP keep (l := many)
  rw [← List.countP_eq_length_filter, ← List.countP_eq_length_filter]
  omega

/-- The eviction of one interval changes its entry only. -/
theorem spill_of_set {spills : List Int} {i j : Nat} {position spill : Int}
    (found : (spills.set i position)[j]? = some spill) :
    i = j ∧ spill = position ∨ i ≠ j ∧ spills[j]? = some spill := by
  rw [List.getElem?_set] at found
  by_cases same : i = j
  · rw [if_pos same] at found
    split at found
    · exact .inl ⟨same, (Option.some.inj found).symm⟩
    · cases found
  · rw [if_neg same] at found
    exact .inr ⟨same, found⟩

end Plain

/-- What holds between a scan with fewer registers and a scan with one more, when the
intervals of `todo` are still to be placed. -/
structure Nested (todo : List (Interval × Nat)) (few many : Plain) : Prop where
  sublist : few.tenants.Sublist many.tenants
  length_le : many.tenants.length ≤ few.tenants.length + 1
  /-- No interval is placed twice. -/
  nodup : (many.tenants.map Prod.fst ++ todo.map Prod.snd).Nodup
  spills_length : few.spills.length = many.spills.length
  spared : ∀ (i : Nat) (first second : Int), few.spills[i]? = some first →
    many.spills[i]? = some second → first ≤ second ∧ (first = never → second = never)
  /-- With more registers neither a tenant nor an interval to come was evicted. -/
  kept : ∀ i ∈ many.tenants.map Prod.fst ++ todo.map Prod.snd, ∀ second,
    many.spills[i]? = some second → second = never
  /-- With fewer registers the spare tenant was evicted before. -/
  gone : ∀ t ∈ many.tenants, t ∉ few.tenants → ∀ first, few.spills[t.1]? = some first →
    ∀ x ∈ todo, first ≤ x.1.start

namespace Nested

variable {todo : List (Interval × Nat)} {few many : Plain} {x : Interval × Nat}

theorem nodup_tenants (nested : Nested todo few many) : (many.tenants.map Prod.fst).Nodup :=
  (List.nodup_append.mp nested.nodup).1

theorem nodup_few (nested : Nested todo few many) : (few.tenants.map Prod.fst).Nodup :=
  nested.nodup_tenants.sublist (nested.sublist.map _)

/-- An eviction takes one tenant out and leaves no other trace of its interval. -/
theorem nodup_evict {victim : Holding} (nested : Nested todo few many)
    (isHeld : victim ∈ many.held) (position : Int) :
    (victim.interval ::
      ((many.evict victim position).tenants.map Prod.fst ++ todo.map Prod.snd)).Nodup := by
  have isTenant : victim.tenant ∈ many.tenants := List.mem_map_of_mem isHeld
  have split := ((List.perm_cons_erase isTenant).map Prod.fst).append_right (todo.map Prod.snd)
  rw [Plain.tenants_evict isHeld nested.nodup_tenants]
  exact split.nodup_iff.mp nested.nodup

/-- An eviction does not concern the tenants that stay. -/
theorem kept_evict {victim : Holding} (nested : Nested todo few many)
    (isHeld : victim ∈ many.held) (position : Int) :
    ∀ i ∈ (many.evict victim position).tenants.map Prod.fst ++ todo.map Prod.snd, ∀ second,
      (many.evict victim position).spills[i]? = some second → second = never := by
  intro i stays second found
  rw [Plain.spills_evict] at found
  have notVictim := (List.nodup_cons.mp (nested.nodup_evict isHeld position)).1
  rcases Plain.spill_of_set found with ⟨rfl, -⟩ | ⟨-, unchanged⟩
  · exact absurd stays notVictim
  · apply nested.kept i _ second unchanged
    rw [Plain.tenants_evict isHeld nested.nodup_tenants] at stays
    exact ((List.erase_sublist.map _).append_right _).subset stays

theorem release (nested : Nested todo few many) (position : Int) :
    Nested todo (few.release position) (many.release position) where
  sublist := by
    rw [Plain.tenants_release, Plain.tenants_release]
    exact nested.sublist.filter _
  length_le := by
    rw [Plain.tenants_release, Plain.tenants_release]
    exact Plain.length_filter_le_succ nested.sublist nested.length_le _
  nodup := by
    rw [Plain.tenants_release]
    exact nested.nodup.sublist ((List.filter_sublist.map _).append_right _)
  spills_length := nested.spills_length
  spared := nested.spared
  kept := by
    rw [Plain.tenants_release]
    intro i inRange
    exact nested.kept i (((List.filter_sublist.map _).append_right _).subset inRange)
  gone := by
    rw [Plain.tenants_release, Plain.tenants_release]
    intro t stays isSpare
    obtain ⟨inMany, live⟩ := List.mem_filter.mp stays
    apply nested.gone t inMany
    intro inFew
    exact isSpare (List.mem_filter.mpr ⟨inFew, live⟩)

/-- Both scans give a register to the next interval. -/
theorem occupy (nested : Nested (x :: todo) few many) (slot slot' : Nat)
    (register register' : String) :
    Nested todo (few.occupy slot register x) (many.occupy slot' register' x) where
  sublist := by
    rw [Plain.tenants_occupy, Plain.tenants_occupy]
    exact nested.sublist.append_right _
  length_le := by
    have bound := nested.length_le
    simp only [Plain.tenants_occupy, List.length_append, List.length_singleton]
    omega
  nodup := by simpa using nested.nodup
  spills_length := by simpa using nested.spills_length
  spared := by simpa using nested.spared
  kept := by simpa using nested.kept
  gone := by
    simp only [Plain.tenants_occupy, Plain.spills_occupy, List.mem_append]
    intro t inMany isSpare first found y inTodo
    rw [not_or] at isSpare
    exact nested.gone t (inMany.resolve_right isSpare.2) isSpare.1 first found y
      (List.mem_cons_of_mem _ inTodo)

/-- With more registers the spare tenant loses its register. It lost it before with
fewer registers, and now both have the same tenants. -/
theorem evict_spare {victim : Holding} (nested : Nested (x :: todo) few many)
    (isHeld : victim ∈ many.held) (isSpare : victim.tenant ∉ few.tenants)
    (early : x.1.start < never) :
    Nested (x :: todo) few (many.evict victim x.1.start) ∧
      few.tenants = (many.evict victim x.1.start).tenants := by
  have isTenant : victim.tenant ∈ many.tenants := List.mem_map_of_mem isHeld
  have tenants_eq := Plain.tenants_evict isHeld nested.nodup_tenants x.1.start
  have same : few.tenants = (many.evict victim x.1.start).tenants := by
    have sub := nested.sublist.erase victim.tenant
    rw [List.erase_of_not_mem isSpare] at sub
    rw [tenants_eq]
    apply sub.eq_of_length_le
    rw [List.length_erase_of_mem isTenant]
    have bound := nested.length_le
    omega
  refine ⟨?_, same⟩
  constructor
  case sublist => rw [same]
  case length_le => rw [same]; omega
  case nodup => exact (nested.nodup_evict isHeld _).of_cons
  case spills_length => simpa using nested.spills_length
  case spared =>
    intro i first second inFew inMany
    rw [Plain.spills_evict] at inMany
    rcases Plain.spill_of_set inMany with ⟨rfl, rfl⟩ | ⟨-, unchanged⟩
    · have before := nested.gone _ isTenant isSpare first inFew x List.mem_cons_self
      exact ⟨before, fun isNever => absurd isNever (by omega)⟩
    · exact nested.spared i first second inFew unchanged
  case kept => exact nested.kept_evict isHeld _
  case gone =>
    intro t inMany isOther
    exact absurd (same ▸ inMany) isOther

/-- With fewer registers a tenant loses its register while both have the same tenants. It
becomes the spare tenant. -/
theorem evict_few {victim : Holding} (nested : Nested (x :: todo) few many)
    (same : few.tenants = many.tenants) (isHeld : victim ∈ few.held)
    (early : x.1.start < never) (later : ∀ y ∈ todo, x.1.start ≤ y.1.start) :
    Nested (x :: todo) (few.evict victim x.1.start) many := by
  have isTenant : victim.tenant ∈ few.tenants := List.mem_map_of_mem isHeld
  have tenants_eq := Plain.tenants_evict isHeld nested.nodup_few x.1.start
  constructor
  case sublist =>
    rw [tenants_eq, ← same]
    exact List.erase_sublist
  case length_le =>
    rw [tenants_eq, ← same, List.length_erase_of_mem isTenant]
    omega
  case nodup => exact nested.nodup
  case spills_length => simpa using nested.spills_length
  case spared =>
    intro i first second inFew inMany
    rw [Plain.spills_evict] at inFew
    rcases Plain.spill_of_set inFew with ⟨rfl, rfl⟩ | ⟨-, unchanged⟩
    · have inRange : victim.interval ∈ many.tenants.map Prod.fst :=
        List.mem_map_of_mem (same ▸ isTenant)
      have notEvicted := nested.kept _ (List.mem_append_left _ inRange) second inMany
      exact ⟨by omega, fun _ => notEvicted⟩
    · exact nested.spared i first second unchanged inMany
  case kept => exact nested.kept
  case gone =>
    intro t inMany isSpare first found y inTodo
    have isVictim : t = victim.tenant := by
      by_contra other
      apply isSpare
      rw [tenants_eq, nested.nodup_few.of_map.mem_erase_iff, same]
      exact ⟨other, inMany⟩
    rw [isVictim, Plain.spills_evict] at found
    rcases Plain.spill_of_set found with ⟨-, rfl⟩ | ⟨other, -⟩
    · rcases List.mem_cons.mp inTodo with rfl | isLater
      · exact le_refl _
      · exact later y isLater
    · exact absurd rfl other

/-- The same tenant loses its register in both pools. -/
theorem evict_both {victim victim' : Holding} (nested : Nested (x :: todo) few many)
    (isHeld : victim ∈ few.held) (isHeld' : victim' ∈ many.held)
    (same : victim.tenant = victim'.tenant) :
    Nested (x :: todo) (few.evict victim x.1.start) (many.evict victim' x.1.start) := by
  have isTenant : victim'.tenant ∈ few.tenants := same ▸ List.mem_map_of_mem isHeld
  have isTenant' : victim'.tenant ∈ many.tenants := List.mem_map_of_mem isHeld'
  have few_eq := Plain.tenants_evict isHeld nested.nodup_few x.1.start
  have many_eq := Plain.tenants_evict isHeld' nested.nodup_tenants x.1.start
  have interval_eq : victim.interval = victim'.interval := congrArg Prod.fst same
  rw [same] at few_eq
  constructor
  case sublist =>
    rw [few_eq, many_eq]
    exact nested.sublist.erase _
  case length_le =>
    have bound := nested.length_le
    rw [few_eq, many_eq, List.length_erase_of_mem isTenant, List.length_erase_of_mem isTenant']
    omega
  case nodup => exact (nested.nodup_evict isHeld' _).of_cons
  case spills_length => simpa using nested.spills_length
  case spared =>
    intro i first second inFew inMany
    rw [Plain.spills_evict, interval_eq] at inFew
    rw [Plain.spills_evict] at inMany
    rcases Plain.spill_of_set inFew with ⟨isVictim, rfl⟩ | ⟨other, unchanged⟩
    · rcases Plain.spill_of_set inMany with ⟨-, rfl⟩ | ⟨other, -⟩
      · exact ⟨le_refl _, id⟩
      · exact absurd isVictim other
    · rcases Plain.spill_of_set inMany with ⟨isVictim, -⟩ | ⟨-, unchanged'⟩
      · exact absurd isVictim other
      · exact nested.spared i first second unchanged unchanged'
  case kept => exact nested.kept_evict isHeld' _
  case gone =>
    intro t inMany isSpare first found y inTodo
    rw [many_eq, nested.nodup_tenants.of_map.mem_erase_iff] at inMany
    rw [few_eq, nested.nodup_few.of_map.mem_erase_iff, not_and] at isSpare
    rw [Plain.spills_evict, interval_eq] at found
    rcases Plain.spill_of_set found with ⟨isVictim, -⟩ | ⟨-, unchanged⟩
    · have injective := List.inj_on_of_nodup_map nested.nodup_tenants inMany.2 isTenant'
      exact absurd (injective isVictim.symm) inMany.1
    · exact nested.gone t inMany.2 (isSpare inMany.1) first unchanged y inTodo

open Holding (Proper)

variable {fewNames manyNames : List String}

/-- Both scans place the next interval. -/
theorem place (nested : Nested (x :: todo) few many) (nonempty : fewNames ≠ [])
    (oneMore : manyNames.length = fewNames.length + 1)
    (properFew : Proper fewNames.length few.held) (properMany : Proper manyNames.length many.held)
    (early : x.1.start < never) (later : ∀ y ∈ todo, x.1.start ≤ y.1.start) :
    Nested todo (few.place fewNames x) (many.place manyNames x) := by
  have released := nested.release x.1.start
  have gap := released.length_le
  have sub := released.sublist.length_le
  rw [Plain.length_tenants, Plain.length_tenants] at gap sub
  have nonempty' : manyNames ≠ [] := by
    rw [← List.length_pos_iff]
    omega
  by_cases room : (few.release x.1.start).held.length < fewNames.length
  · -- The larger pool has a free register too.
    obtain ⟨slot, -, placed⟩ := Plain.place_of_room room
    have room' : (many.release x.1.start).held.length < manyNames.length := by omega
    obtain ⟨slot', -, placed'⟩ := Plain.place_of_room room'
    rw [placed, placed']
    exact released.occupy _ _ _ _
  · obtain ⟨victim, isHeld, isLast, placed⟩ :=
      Plain.place_of_full properFew nonempty (Nat.not_lt.mp room)
    by_cases room' : (many.release x.1.start).held.length < manyNames.length
    · -- Without a spare tenant the larger pool has the same tenants and one free register.
      have same : (few.release x.1.start).tenants = (many.release x.1.start).tenants := by
        apply released.sublist.eq_of_length_le
        rw [Plain.length_tenants, Plain.length_tenants]
        omega
      obtain ⟨slot, -, placed'⟩ := Plain.place_of_room room'
      rw [placed, placed']
      exact (released.evict_few same isHeld early later).occupy _ _ _ _
    · obtain ⟨victim', isHeld', isLast', placed'⟩ :=
        Plain.place_of_full properMany nonempty' (Nat.not_lt.mp room')
      rw [placed, placed']
      by_cases isSpare : victim'.tenant ∈ (few.release x.1.start).tenants
      · have last := Plain.lastTenant?_tenants (many.release x.1.start)
        rw [isLast'] at last
        have last' := Plain.lastTenant?_of_sublist released.sublist released.nodup_tenants.of_map
          last isSpare
        rw [Plain.lastTenant?_tenants, isLast] at last'
        exact (released.evict_both isHeld isHeld' (Option.some.inj last')).occupy _ _ _ _
      · obtain ⟨evicted, same⟩ := released.evict_spare isHeld' isSpare early
        exact (evicted.evict_few same isHeld early later).occupy _ _ _ _

/-- Both scans place a list of intervals. -/
theorem placeAll (nested : Nested todo few many) (nonempty : fewNames ≠ [])
    (oneMore : manyNames.length = fewNames.length + 1)
    (properFew : Proper fewNames.length few.held) (properMany : Proper manyNames.length many.held)
    (early : ∀ x ∈ todo, x.1.start < never)
    (inOrder : todo.Pairwise fun x y => x.1.start ≤ y.1.start) :
    Nested [] (todo.foldl (Plain.place fewNames) few)
      (todo.foldl (Plain.place manyNames) many) := by
  have nonempty' : manyNames ≠ [] := by
    rw [← List.length_pos_iff]
    omega
  induction todo generalizing few many with
  | nil => exact nested
  | cons x rest ih =>
    rw [List.forall_mem_cons] at early
    rw [List.pairwise_cons] at inOrder
    apply ih _ (Plain.proper_place properFew nonempty x)
      (Plain.proper_place properMany nonempty' x) early.2 inOrder.2
    exact nested.place nonempty oneMore properFew properMany early.1 inOrder.1

/-- Before the scans nothing is placed and nothing evicted. -/
theorem start {intervals : List Interval} (unspilled : ∀ iv ∈ intervals, iv.spillAt = never) :
    Nested (Plain.order intervals) { intervals } { intervals } where
  sublist := List.Sublist.refl _
  length_le := Nat.zero_le _
  nodup := by
    rw [← scanOrder_eq]
    exact nodup_indices_scanOrder intervals
  spills_length := rfl
  spared i first second inFew inMany := by
    obtain rfl : first = second := Option.some.inj (inFew.symm.trans inMany)
    exact ⟨le_refl _, id⟩
  kept i _ second found := by
    obtain ⟨iv, isGiven, rfl⟩ := List.mem_map.mp (List.mem_of_getElem? found)
    exact unspilled iv isGiven
  gone t isTenant := absurd isTenant List.not_mem_nil

end Nested

/-- **More registers evict no more.** When a register is added to a pool, no interval is
evicted earlier than before, and none that was not evicted before. Intervals may end
before they start, and the register may stand in the pool already. -/
theorem more_registers_evict_no_more (pool : Pool) (register : Register)
    (intervals : List Interval) (nonempty : pool ≠ [])
    (early : ∀ iv ∈ intervals, iv.start < never)
    (unspilled : ∀ iv ∈ intervals, iv.spillAt = never) :
    ∃ few many fewRegisters manyRegisters,
      allocate pool intervals = .ok (few, fewRegisters) ∧
      allocate (pool ++ [register]) intervals = .ok (many, manyRegisters) ∧
      List.Forall₂ (fun a b => a.SameUse b ∧ a.spillAt ≤ b.spillAt ∧ (b.spilled → a.spilled))
        few many := by
  have names_ne : pool.names ≠ [] := by simpa [Pool.names] using nonempty
  have names_ne' : (pool ++ [register]).names ≠ [] := by simp [Pool.names]
  have oneMore : (pool ++ [register]).names.length = pool.names.length + 1 := by simp [Pool.names]
  obtain ⟨a, assigned, arranges⟩ := exists_assign_arranges names_ne intervals
  obtain ⟨b, assigned', arranges'⟩ := exists_assign_arranges names_ne' intervals
  obtain ⟨fewRegisters, allocated⟩ := allocate_of_assign assigned
  obtain ⟨manyRegisters, allocated'⟩ := allocate_of_assign assigned'
  refine ⟨_, _, _, _, allocated, allocated', ?_⟩
  have ordered : ∀ x ∈ Plain.order intervals, x.1.start < never := by
    intro x inOrder
    rw [← scanOrder_eq, mem_scanOrder] at inOrder
    exact early x.1 (List.mem_of_getElem? inOrder)
  have nested := (Nested.start unspilled).placeAll names_ne oneMore ⟨List.nodup_nil, by simp⟩
    ⟨List.nodup_nil, by simp⟩ ordered (scanOrder_eq intervals ▸ pairwise_scanOrder intervals)
  have length_eq := nested.spills_length
  have spared := nested.spared
  simp only [Plain.spills, ← arranges.intervals_eq, ← arranges'.intervals_eq,
    List.length_map, List.getElem?_map] at length_eq spared
  have uses := sameUse_of_allocate allocated
  have uses' := sameUse_of_allocate allocated'
  rw [List.forall₂_iff_get] at uses uses' ⊢
  refine ⟨length_eq, fun i inFew inMany => ?_⟩
  have inGiven : i < intervals.length := uses.1 ▸ inFew
  obtain ⟨le, stays⟩ := spared i _ _ (congrArg _ (List.getElem?_eq_getElem inFew))
    (congrArg _ (List.getElem?_eq_getElem inMany))
  refine ⟨(uses.2 i inFew inGiven).of_common (uses'.2 i inMany inGiven), le, ?_⟩
  rw [Interval.spilled, Interval.spilled, bne_iff_ne, bne_iff_ne]
  exact fun evicted notEvicted => evicted (stays notEvicted)

/-- With one register three of the contested intervals are evicted, with two registers
the first two of them, each later than before. -/
theorem more_registers_evict_no_more_contested :
    Pool.ofNames ["s1"] ≠ [] ∧ (∀ iv ∈ contested, iv.start < never) ∧
    (∀ iv ∈ contested, iv.spillAt = never) ∧
    (Plain.scan ["s1"] contested).map Interval.spillAt = [1, never, 2, 3, never] ∧
    (Plain.scan ["s1", "s2"] contested).map Interval.spillAt = [2, never, 3, never, never] ∧
    ∃ few many fewRegisters manyRegisters,
      allocate (Pool.ofNames ["s1"]) contested = .ok (few, fewRegisters) ∧
      allocate (Pool.ofNames ["s1"] ++ [{ name := "s2" }]) contested = .ok (many, manyRegisters) ∧
      List.Forall₂ (fun a b => a.SameUse b ∧ a.spillAt ≤ b.spillAt ∧ (b.spilled → a.spilled))
        few many :=
  ⟨by decide, by decide, by decide, by decide, by decide,
    more_registers_evict_no_more _ _ _ (by decide) (by decide) (by decide)⟩

end RiscBackend.Alloc
