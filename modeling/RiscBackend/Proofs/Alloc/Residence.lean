/-
# Registers are not shared

A scan over the intervals of a block gives a register to each of them, and never
lets two values live in one register at the same time. The value of an interval is
resident from its start up to its end, or up to its eviction if that comes first.

The scan changes its state in three ways: it lets ended holdings expire, it evicts a
holding, and it lets an interval occupy a register. One invariant is kept by each of
them. It says that a placed interval without a register is gone before everything
that is still to be placed, and that the holder of a register came after every other
interval that was given the register. The second part is what makes an eviction
harmless: it moves the end of the holder and of nobody else.
-/

import Mathlib.Data.Int.ConditionallyCompleteOrder
import Mathlib.Data.List.Nodup
import Mathlib.Data.List.Perm.Subperm
import Mathlib.Data.List.TakeWhile
import Mathlib.Data.Nat.SuccPred
import Mathlib.Order.CompletePartialOrder
import RiscBackend.Alloc.LinearScan

namespace RiscBackend.Alloc

namespace Interval

/-- The positions at which the value of an interval is in its register. -/
def residence (iv : Interval) : Set Int :=
  Set.Icc iv.start (min iv.stop (iv.spillAt - 1))

theorem mem_residence {iv : Interval} {position : Int} :
    position ∈ iv.residence ↔
      iv.start ≤ position ∧ position ≤ iv.stop ∧ position < iv.spillAt := by
  rw [residence, Set.mem_Icc, Int.le_min]
  omega

/-- Whether two intervals differ at most in what an allocation decides. -/
def SameUse (a b : Interval) : Prop :=
  a.name = b.name ∧ a.start = b.start ∧ a.stop = b.stop ∧ a.liveIn = b.liveIn

/-- Whether a value is out of its register from a position on. -/
def GoneBy (iv : Interval) (position : Int) : Prop :=
  iv.stop < position ∨ iv.spillAt ≤ position

theorem SameUse.refl (a : Interval) : a.SameUse a := ⟨rfl, rfl, rfl, rfl⟩

/-- An interval that is gone when another one starts shares no position with it. -/
theorem disjoint_residence_of_goneBy {first second : Interval}
    (gone : first.GoneBy second.start) : Disjoint first.residence second.residence := by
  rw [Set.disjoint_left]
  intro position inFirst inSecond
  have upper : position ≤ first.stop ∧ position ≤ first.spillAt - 1 := Int.le_min.mp inFirst.2
  have lower : second.start ≤ position := inSecond.1
  rcases gone with ended | evicted
  · omega
  · omega

end Interval

namespace Holding

theorem insert_perm (new : Holding) (active : List Holding) :
    (insert new active).Perm (new :: active) := by
  induction active with
  | nil => exact List.Perm.refl _
  | cons h rest ih =>
    rw [insert]
    split
    · exact List.Perm.refl _
    · exact (ih.cons h).trans (List.Perm.swap new h rest)

theorem mem_insert {new h : Holding} {active : List Holding} :
    h ∈ insert new active ↔ h = new ∨ h ∈ active := by
  rw [(insert_perm new active).mem_iff, List.mem_cons]

theorem mem_of_furthest?_eq_some {active : List Holding} {h : Holding}
    (found : furthest? active = some h) : h ∈ active := by
  induction active generalizing h with
  | nil => simp [furthest?] at found
  | cons first rest ih =>
    rw [furthest?] at found
    split at found
    · simp_all
    · rename_i best isBest
      split at found
      · exact List.mem_cons_of_mem _ (ih (isBest.trans found))
      · simp_all

theorem furthest?_isSome {active : List Holding} (nonempty : active ≠ []) :
    ∃ h, furthest? active = some h := by
  cases active with
  | nil => exact absurd rfl nonempty
  | cons first rest =>
    rw [furthest?]
    split
    · exact ⟨first, rfl⟩
    · split <;> exact ⟨_, rfl⟩

/-- A slot that is found to be free is a slot of the pool that nobody holds. -/
theorem freeSlot?_eq_some {size slot : Nat} {active : List Holding}
    (found : freeSlot? size active = some slot) :
    slot < size ∧ ∀ h ∈ active, h.slot ≠ slot := by
  refine ⟨List.mem_range.mp (List.mem_of_find?_eq_some found), fun h held => ?_⟩
  have free := List.find?_some found
  simpa using List.all_eq_true.mp free h held

/-- When fewer registers are held than there are, one is free. -/
theorem freeSlot?_isSome {size : Nat} {active : List Holding} (room : active.length < size) :
    ∃ slot, freeSlot? size active = some slot := by
  rw [← Option.isSome_iff_exists, ← Option.ne_none_iff_isSome]
  intro full
  have occupied : List.range size ⊆ active.map Holding.slot := by
    intro slot inRange
    have taken := List.find?_eq_none.mp full slot inRange
    simpa using taken
  have bound := (List.nodup_range.subperm occupied).length_le
  simp only [List.length_range, List.length_map] at bound
  omega

end Holding

namespace Allocation

/-- What holds of a scan at every point: `placed` are the indices of the intervals
that were placed, and `todo` are the intervals still to be placed, with theirs. -/
structure Sound (names : List String) (given : List Interval) (placed : List Nat)
    (todo : List (Interval × Nat)) (a : Allocation) : Prop where
  length_eq : a.intervals.length = given.length
  /-- Only evictions change an interval beyond its register, and an eviction comes
  at the start of some interval, not before the interval's own. -/
  origin : ∀ (i : Nat) (iv : Interval), a.intervals[i]? = some iv → ∃ g : Interval,
    given[i]? = some g ∧ iv.SameUse g ∧
    (iv.spillAt = g.spillAt ∨ g.start ≤ iv.spillAt ∧ ∃ other ∈ given, iv.spillAt = other.start)
  ordered : ∀ i ∈ placed, ∀ iv, a.intervals[i]? = some iv → ∀ x ∈ todo, iv.start ≤ x.1.start
  slots_nodup : (a.active.map Holding.slot).Nodup
  held : ∀ h ∈ a.active, h.interval ∈ placed ∧ ∃ iv, a.intervals[h.interval]? = some iv ∧
    iv.stop = h.stop ∧ names[h.slot]? = some iv.register
  registered : ∀ i ∈ placed, ∀ iv, a.intervals[i]? = some iv → iv.register ∈ names
  released : ∀ i ∈ placed, (∀ h ∈ a.active, h.interval ≠ i) → ∀ iv, a.intervals[i]? = some iv →
    ∀ x ∈ todo, iv.GoneBy x.1.start
  latest : ∀ h ∈ a.active, ∀ iv, a.intervals[h.interval]? = some iv → ∀ j ∈ placed,
    j ≠ h.interval → ∀ jv, a.intervals[j]? = some jv → jv.register = iv.register →
    jv.GoneBy iv.start
  separated : ∀ i ∈ placed, ∀ j ∈ placed, i ≠ j → ∀ iv jv, a.intervals[i]? = some iv →
    a.intervals[j]? = some jv → iv.register = jv.register →
    iv.GoneBy jv.start ∨ jv.GoneBy iv.start

variable {names : List String} {given : List Interval} {placed : List Nat}
  {todo : List (Interval × Nat)} {a : Allocation}

/-- Before the scan nothing is placed. -/
theorem sound_start (names : List String) (given : List Interval)
    (todo : List (Interval × Nat)) : Sound names given [] todo { intervals := given } where
  length_eq := rfl
  origin i iv found := ⟨iv, found, .refl iv, .inl rfl⟩
  ordered := by simp
  slots_nodup := by simp
  held := by simp
  registered := by simp
  released := by simp
  latest := by simp
  separated := by simp

/-- The entry of a held interval ends where the holding does and has the register of its slot. -/
theorem Sound.entry_of_held (sound : Sound names given placed todo a) {h : Holding}
    (isHeld : h ∈ a.active) {iv : Interval} (found : a.intervals[h.interval]? = some iv) :
    iv.stop = h.stop ∧ names[h.slot]? = some iv.register := by
  obtain ⟨-, entry, found', ends⟩ := sound.held h isHeld
  obtain rfl : entry = iv := Option.some.inj (found'.symm.trans found)
  exact ends

/-- A holding that expires ended before the position, and what stays was there. -/
theorem mem_active_of_mem_expire {h : Holding} {position : Int}
    (stays : h ∈ (a.expire position).active) : h ∈ a.active :=
  (List.dropWhile_sublist _).subset stays

theorem stop_lt_of_not_mem_expire {h : Holding} {position : Int} (held : h ∈ a.active)
    (gone : h ∉ (a.expire position).active) : h.stop < position := by
  have split := List.takeWhile_append_dropWhile
    (p := fun h : Holding => decide (h.stop < position)) (l := a.active)
  rw [← split, List.mem_append] at held
  have dropped := held.resolve_right gone
  simpa using List.mem_takeWhile_imp dropped

/-- Expiry keeps the invariant: what loses its register has ended. -/
theorem Sound.expire {position : Int} (sound : Sound names given placed todo a)
    (later : ∀ x ∈ todo, position ≤ x.1.start) :
    Sound names given placed todo (a.expire position) where
  length_eq := sound.length_eq
  origin := sound.origin
  ordered := sound.ordered
  slots_nodup := sound.slots_nodup.sublist ((List.dropWhile_sublist _).map _)
  held h stays := sound.held h (mem_active_of_mem_expire stays)
  registered := sound.registered
  released := by
    intro i isPlaced unheld iv found x inTodo
    by_cases wasHeld : ∃ h ∈ a.active, h.interval = i
    · obtain ⟨h, held, rfl⟩ := wasHeld
      have stop_eq := (sound.entry_of_held held found).1
      have ended := stop_lt_of_not_mem_expire held fun stays => unheld h stays rfl
      have bound := later x inTodo
      exact .inl (by omega)
    · push Not at wasHeld
      exact sound.released i isPlaced wasHeld iv found x inTodo
  latest h stays := sound.latest h (mem_active_of_mem_expire stays)
  separated := sound.separated

/-- A register stands in one slot of the pool only. -/
private theorem slot_eq_of_register_eq (nodup : names.Nodup) {first second : Nat}
    {register : String} (inFirst : names[first]? = some register)
    (inSecond : names[second]? = some register) : first = second :=
  (List.getElem?_inj (List.getElem?_eq_some_iff.mp inFirst).1 nodup).mp
    (inFirst.trans inSecond.symm)

private theorem getElem?_modify_eq_some {intervals : List Interval} {change : Interval → Interval}
    {index i : Nat} {iv : Interval} :
    (intervals.modify index change)[i]? = some iv ↔
      ∃ old, intervals[i]? = some old ∧ iv = if index = i then change old else old := by
  rw [List.getElem?_modify]
  cases intervals[i]? with
  | none => simp
  | some old => simp [eq_comm]

/-- Two holdings of one slot are the same. -/
theorem Sound.eq_of_slot_eq (sound : Sound names given placed todo a) {first second : Holding}
    (inFirst : first ∈ a.active) (inSecond : second ∈ a.active)
    (same : first.slot = second.slot) : first = second :=
  List.inj_on_of_nodup_map sound.slots_nodup inFirst inSecond same

/-- An eviction keeps the invariant. Of two intervals with the register of the
victim the other one was gone before the victim started, so it does not matter that
the end of the victim moves. -/
theorem Sound.evict {victim : Holding} {position : Int} (nodup : names.Nodup)
    (sound : Sound names given placed todo a) (isHeld : victim ∈ a.active)
    (started : ∀ iv, a.intervals[victim.interval]? = some iv → iv.start ≤ position)
    (isStart : ∃ other ∈ given, position = other.start)
    (later : ∀ x ∈ todo, position ≤ x.1.start) :
    Sound names given placed todo (a.evict victim position) where
  length_eq := by simpa [Allocation.evict] using sound.length_eq
  origin := by
    intro i iv found
    obtain ⟨old, was, rfl⟩ := getElem?_modify_eq_some.mp found
    obtain ⟨g, isGiven, use, spill⟩ := sound.origin i old was
    refine ⟨g, isGiven, ?_⟩
    split
    · rename_i isVictim
      subst isVictim
      exact ⟨use, .inr ⟨use.2.1 ▸ started old was, isStart⟩⟩
    · exact ⟨use, spill⟩
  ordered := by
    intro i isPlaced iv found x inTodo
    obtain ⟨old, was, rfl⟩ := getElem?_modify_eq_some.mp found
    have bound := sound.ordered i isPlaced old was x inTodo
    split <;> exact bound
  slots_nodup := sound.slots_nodup.sublist (List.filter_sublist.map _)
  held := by
    intro h stays
    obtain ⟨isPlaced, old, found, stop_eq, register_eq⟩ :=
      sound.held h (List.mem_of_mem_filter stays)
    refine ⟨isPlaced, _, getElem?_modify_eq_some.mpr ⟨old, found, rfl⟩, ?_⟩
    split <;> exact ⟨stop_eq, register_eq⟩
  registered := by
    intro i isPlaced iv found
    obtain ⟨old, was, rfl⟩ := getElem?_modify_eq_some.mp found
    have known := sound.registered i isPlaced old was
    split <;> exact known
  released := by
    intro i isPlaced unheld iv found x inTodo
    obtain ⟨old, was, rfl⟩ := getElem?_modify_eq_some.mp found
    split
    · exact .inr (later x inTodo)
    · rename_i notVictim
      refine sound.released i isPlaced (fun h held isHolder => ?_) old was x inTodo
      have otherSlot : h.slot ≠ victim.slot := fun same =>
        notVictim (sound.eq_of_slot_eq held isHeld same ▸ isHolder)
      exact unheld h (List.mem_filter.mpr ⟨held, by simpa using otherSlot⟩) isHolder
  latest := by
    intro h stays iv found j isPlaced ne jv foundJ same
    obtain ⟨held, otherSlot⟩ := List.mem_filter.mp stays
    obtain ⟨old, was, rfl⟩ := getElem?_modify_eq_some.mp found
    obtain ⟨oldJ, wasJ, rfl⟩ := getElem?_modify_eq_some.mp foundJ
    have same' : oldJ.register = old.register := by
      split at same <;> split at same <;> exact same
    have gone := sound.latest h held old was j isPlaced ne oldJ wasJ same'
    have start_eq : (if victim.interval = h.interval then { old with spillAt := position }
        else old).start = old.start := by split <;> rfl
    rw [start_eq]
    split
    · -- The victim and the holder would stand in the same slot of the pool.
      rename_i isVictim
      subst isVictim
      have victimRegister := (sound.entry_of_held isHeld wasJ).2
      have holderRegister := (sound.entry_of_held held was).2
      rw [same'] at victimRegister
      exact absurd (slot_eq_of_register_eq nodup holderRegister victimRegister)
        (by simpa using otherSlot)
    · exact gone
  separated := by
    intro i placedI j placedJ ne iv jv foundI foundJ same
    obtain ⟨oldI, wasI, rfl⟩ := getElem?_modify_eq_some.mp foundI
    obtain ⟨oldJ, wasJ, rfl⟩ := getElem?_modify_eq_some.mp foundJ
    by_cases isI : victim.interval = i
    · subst isI
      rw [if_pos rfl, if_neg ne] at same ⊢
      exact .inr (sound.latest victim isHeld oldI wasI j placedJ (Ne.symm ne) oldJ wasJ same.symm)
    · by_cases isJ : victim.interval = j
      · subst isJ
        rw [if_pos rfl, if_neg isI] at same ⊢
        exact .inl (sound.latest victim isHeld oldJ wasJ i placedI ne oldI wasI same)
      · rw [if_neg isI, if_neg isJ] at same ⊢
        exact sound.separated i placedI j placedJ ne oldI oldJ wasI wasJ same

/-- Every given interval has an entry, which differs from it at most in what the
scan decided. -/
theorem Sound.entry (sound : Sound names given placed todo a) {index : Nat} {iv : Interval}
    (isGiven : given[index]? = some iv) :
    ∃ entry, a.intervals[index]? = some entry ∧ entry.SameUse iv := by
  have bound : index < a.intervals.length :=
    sound.length_eq ▸ (List.getElem?_eq_some_iff.mp isGiven).1
  have found := List.getElem?_eq_getElem bound
  obtain ⟨g, isGiven', use, -⟩ := sound.origin index _ found
  obtain rfl : g = iv := Option.some.inj (isGiven'.symm.trans isGiven)
  exact ⟨_, found, use⟩

/-- An interval with the register of a free slot is gone when the next one starts. -/
theorem Sound.goneBy_of_free {iv : Interval} {index slot : Nat} {register : String}
    (nodup : names.Nodup) (sound : Sound names given placed ((iv, index) :: todo) a)
    (inPool : names[slot]? = some register) (free : ∀ h ∈ a.active, h.slot ≠ slot)
    {j : Nat} (isPlaced : j ∈ placed) {jv : Interval} (found : a.intervals[j]? = some jv)
    (same : jv.register = register) : jv.GoneBy iv.start := by
  refine sound.released j isPlaced (fun h held isHolder => ?_) jv found (iv, index)
    List.mem_cons_self
  subst isHolder
  have holderRegister := (sound.entry_of_held held found).2
  rw [same] at holderRegister
  exact free h held (slot_eq_of_register_eq nodup holderRegister inPool)

/-- Giving a free register to the next interval keeps the invariant. -/
theorem Sound.occupy {iv : Interval} {index slot : Nat} {register : String}
    (nodup : names.Nodup) (sound : Sound names given placed ((iv, index) :: todo) a)
    (isGiven : given[index]? = some iv) (isNew : index ∉ placed)
    (inPool : names[slot]? = some register) (free : ∀ h ∈ a.active, h.slot ≠ slot)
    (later : ∀ x ∈ todo, iv.start ≤ x.1.start) :
    Sound names given (index :: placed) todo (a.occupy slot register index iv) := by
  obtain ⟨entry, entered, use⟩ := sound.entry isGiven
  have entered' : (a.occupy slot register index iv).intervals[index]? =
      some { entry with register } :=
    getElem?_modify_eq_some.mpr ⟨entry, entered, by rw [if_pos rfl]⟩
  -- The entries of the intervals placed before are as they were.
  have kept {j : Nat} (isPlaced : j ∈ placed) {jv : Interval} :
      (a.occupy slot register index iv).intervals[j]? = some jv ↔ a.intervals[j]? = some jv := by
    have ne : index ≠ j := fun same => isNew (same ▸ isPlaced)
    rw [Allocation.occupy, getElem?_modify_eq_some]
    simp [ne]
  have gone {j : Nat} (isPlaced : j ∈ placed) {jv : Interval} (found : a.intervals[j]? = some jv)
      (same : jv.register = register) : jv.GoneBy entry.start :=
    use.2.1 ▸ sound.goneBy_of_free nodup inPool free isPlaced found same
  constructor
  case length_eq => simpa [Allocation.occupy] using sound.length_eq
  case origin =>
    intro i jv found
    obtain ⟨old, was, rfl⟩ := getElem?_modify_eq_some.mp found
    obtain ⟨g, isGiven', use', spill⟩ := sound.origin i old was
    refine ⟨g, isGiven', ?_⟩
    split <;> exact ⟨use', spill⟩
  case ordered =>
    intro i isPlaced jv found x inTodo
    rcases List.mem_cons.mp isPlaced with rfl | isPlaced
    · obtain rfl : { entry with register } = jv := Option.some.inj (entered'.symm.trans found)
      exact use.2.1 ▸ later x inTodo
    · exact sound.ordered i isPlaced jv ((kept isPlaced).mp found) x (List.mem_cons_of_mem _ inTodo)
  case slots_nodup =>
    rw [Allocation.occupy, ((Holding.insert_perm _ a.active).map _).nodup_iff, List.map_cons,
      List.nodup_cons]
    refine ⟨fun taken => ?_, sound.slots_nodup⟩
    obtain ⟨h, held, same⟩ := List.mem_map.mp taken
    exact free h held same
  case held =>
    intro h isHeld
    rcases Holding.mem_insert.mp isHeld with rfl | isHeld
    · exact ⟨List.mem_cons_self, _, entered', use.2.2.1, inPool⟩
    · obtain ⟨isPlaced, jv, found, rest⟩ := sound.held h isHeld
      exact ⟨List.mem_cons_of_mem _ isPlaced, jv, (kept isPlaced).mpr found, rest⟩
  case registered =>
    intro i isPlaced jv found
    rcases List.mem_cons.mp isPlaced with rfl | isPlaced
    · obtain rfl : { entry with register } = jv := Option.some.inj (entered'.symm.trans found)
      exact List.mem_of_getElem? inPool
    · exact sound.registered i isPlaced jv ((kept isPlaced).mp found)
  case released =>
    intro i isPlaced unheld jv found x inTodo
    rcases List.mem_cons.mp isPlaced with rfl | isPlaced
    · exact absurd rfl (unheld _ (Holding.mem_insert.mpr (.inl rfl)))
    · exact sound.released i isPlaced (fun h held => unheld h (Holding.mem_insert.mpr (.inr held)))
        jv ((kept isPlaced).mp found) x (List.mem_cons_of_mem _ inTodo)
  case latest =>
    intro h isHeld jv found k isPlaced ne kv foundK same
    rcases Holding.mem_insert.mp isHeld with rfl | wasHeld
    · obtain rfl : { entry with register } = jv := Option.some.inj (entered'.symm.trans found)
      have isPlaced := (List.mem_cons.mp isPlaced).resolve_left ne
      exact gone isPlaced ((kept isPlaced).mp foundK) same
    · have was := (kept (sound.held h wasHeld).1).mp found
      rcases List.mem_cons.mp isPlaced with rfl | wasPlaced
      · obtain rfl : { entry with register } = kv := Option.some.inj (entered'.symm.trans foundK)
        have holderRegister := (sound.entry_of_held wasHeld was).2
        rw [← same] at holderRegister
        exact absurd (slot_eq_of_register_eq nodup holderRegister inPool) (free h wasHeld)
      · exact sound.latest h wasHeld jv was k wasPlaced ne kv ((kept wasPlaced).mp foundK) same
  case separated =>
    intro i placedI j placedJ ne jv kv foundI foundJ same
    rcases List.mem_cons.mp placedI with rfl | wasI
    · have wasJ := (List.mem_cons.mp placedJ).resolve_left (Ne.symm ne)
      obtain rfl : { entry with register } = jv := Option.some.inj (entered'.symm.trans foundI)
      exact .inr (gone wasJ ((kept wasJ).mp foundJ) same.symm)
    · rcases List.mem_cons.mp placedJ with rfl | wasJ
      · obtain rfl : { entry with register } = kv := Option.some.inj (entered'.symm.trans foundJ)
        exact .inl (gone wasI ((kept wasI).mp foundI) same)
      · exact sound.separated i wasI j wasJ ne jv kv ((kept wasI).mp foundI)
          ((kept wasJ).mp foundJ) same

/-- Placing an interval never fails while the pool has a register, and it keeps the
invariant. -/
theorem Sound.place {iv : Interval} {index : Nat} (nodup : names.Nodup) (nonempty : names ≠ [])
    (sound : Sound names given placed ((iv, index) :: todo) a)
    (isGiven : given[index]? = some iv) (isNew : index ∉ placed)
    (later : ∀ x ∈ todo, iv.start ≤ x.1.start) :
    ∃ a', a.place names index iv = .ok a' ∧ Sound names given (index :: placed) todo a' := by
  have later' : ∀ x ∈ (iv, index) :: todo, iv.start ≤ x.1.start := by
    intro x inTodo
    rcases List.mem_cons.mp inTodo with rfl | inTodo
    · exact le_refl _
    · exact later x inTodo
  have expired := sound.expire later'
  have register_eq {slot : Nat} (bound : slot < names.length) :
      names[slot]? = some (names.getD slot "") := by
    simp [List.getD_eq_getElem?_getD, List.getElem?_eq_getElem bound]
  by_cases room : (a.expire iv.start).active.length < names.length
  · obtain ⟨slot, found⟩ := Holding.freeSlot?_isSome room
    obtain ⟨bound, free⟩ := Holding.freeSlot?_eq_some found
    refine ⟨_, ?_, expired.occupy nodup isGiven isNew (register_eq bound) free later⟩
    simp only [Allocation.place, if_pos room, found]
  · have full : (a.expire iv.start).active ≠ [] := by
      intro none
      rw [none, List.length_nil, Nat.not_lt, Nat.le_zero, List.length_eq_zero_iff] at room
      exact nonempty room
    obtain ⟨victim, found⟩ := Holding.furthest?_isSome full
    have isHeld := Holding.mem_of_furthest?_eq_some found
    obtain ⟨isPlaced, entry, -, -, inPool⟩ := expired.held victim isHeld
    have evicted := expired.evict nodup isHeld
      (fun entry was => expired.ordered _ isPlaced entry was (iv, index) List.mem_cons_self)
      ⟨iv, List.mem_of_getElem? isGiven, rfl⟩ later'
    have free : ∀ h ∈ ((a.expire iv.start).evict victim iv.start).active, h.slot ≠ victim.slot :=
      fun h stays => by simpa using (List.mem_filter.mp stays).2
    have bound := (List.getElem?_eq_some_iff.mp inPool).1
    refine ⟨_, ?_, evicted.occupy nodup isGiven isNew (register_eq bound) free later⟩
    simp only [Allocation.place, if_neg room, found]

/-- A scan over intervals in the order of their starts places all of them. -/
theorem Sound.placeAll (nodup : names.Nodup) (nonempty : names ≠ [])
    (sound : Sound names given placed todo a)
    (areGiven : ∀ x ∈ todo, given[x.2]? = some x.1)
    (indices : (todo.map Prod.snd).Nodup) (areNew : ∀ x ∈ todo, x.2 ∉ placed)
    (inOrder : todo.Pairwise fun x y => x.1.start ≤ y.1.start) :
    ∃ a', placeAll names a todo = .ok a' ∧
      Sound names given ((todo.map Prod.snd).reverse ++ placed) [] a' := by
  induction todo generalizing a placed with
  | nil => exact ⟨a, rfl, by simpa using sound⟩
  | cons x rest ih =>
    obtain ⟨iv, index⟩ := x
    rw [List.map_cons, List.nodup_cons] at indices
    rw [List.pairwise_cons] at inOrder
    obtain ⟨next, placed_eq, sound'⟩ := sound.place nodup nonempty
      (areGiven _ List.mem_cons_self) (areNew _ List.mem_cons_self) inOrder.1
    have areNew' : ∀ x ∈ rest, x.2 ∉ index :: placed := by
      intro x inRest isOld
      rcases List.mem_cons.mp isOld with same | wasPlaced
      · exact indices.1 (List.mem_map.mpr ⟨x, inRest, same⟩)
      · exact areNew x (List.mem_cons_of_mem _ inRest) wasPlaced
    obtain ⟨last, all_eq, sound''⟩ := ih sound'
      (fun x inRest => areGiven x (List.mem_cons_of_mem _ inRest)) indices.2 areNew' inOrder.2
    refine ⟨last, ?_, by simpa using sound''⟩
    rw [Allocation.placeAll, placed_eq]
    exact all_eq

end Allocation

/-- The scan visits every interval with its index. -/
theorem mem_scanOrder {intervals : List Interval} {x : Interval × Nat} :
    x ∈ scanOrder intervals ↔ intervals[x.2]? = some x.1 := by
  rw [scanOrder, List.mem_mergeSort, List.mem_zipIdx_iff_getElem?]

/-- The scan visits no interval twice. -/
theorem nodup_indices_scanOrder (intervals : List Interval) :
    ((scanOrder intervals).map Prod.snd).Nodup := by
  rw [scanOrder, ((List.mergeSort_perm _ _).map _).nodup_iff, List.zipIdx_map_snd]
  exact List.nodup_range'

/-- The scan visits the intervals in the order of their starts. -/
theorem pairwise_scanOrder (intervals : List Interval) :
    (scanOrder intervals).Pairwise fun x y => x.1.start ≤ y.1.start := by
  have sorted := @List.pairwise_mergeSort _ (fun x y : Interval × Nat => x.1.start ≤ y.1.start)
    (fun x y z first second => by simp only [decide_eq_true_eq] at *; omega)
    (fun x y => by simp only [Bool.or_eq_true, decide_eq_true_eq]; omega) intervals.zipIdx
  simpa [scanOrder] using sorted

/-- What an allocation gives: every interval is in its place, with a register of the
pool, and evicted at most at the start of an interval; and two intervals with one
register are never resident at the same position. -/
structure Allocated (names : List String) (given placed : List Interval) : Prop where
  length_eq : placed.length = given.length
  origin : ∀ (i : Nat) (iv : Interval), placed[i]? = some iv → ∃ g : Interval,
    given[i]? = some g ∧ iv.SameUse g ∧ iv.register ∈ names ∧
    (iv.spillAt = g.spillAt ∨ g.start ≤ iv.spillAt ∧ ∃ other ∈ given, iv.spillAt = other.start)
  disjoint : ∀ (i j : Nat) (iv jv : Interval), i ≠ j → placed[i]? = some iv →
    placed[j]? = some jv → iv.register = jv.register → Disjoint iv.residence jv.residence

namespace Allocated

variable {names : List String} {given placed : List Interval}

/-- A placed interval comes from a given one, with a register of the pool. -/
theorem origin_of_mem (allocated : Allocated names given placed) {iv : Interval}
    (isPlaced : iv ∈ placed) :
    ∃ g ∈ given, iv.SameUse g ∧ iv.register ∈ names ∧
      (iv.spillAt = g.spillAt ∨
        g.start ≤ iv.spillAt ∧ ∃ other ∈ given, iv.spillAt = other.start) := by
  obtain ⟨index, atIndex⟩ := List.mem_iff_getElem?.mp isPlaced
  obtain ⟨g, isGiven, facts⟩ := allocated.origin index iv atIndex
  exact ⟨g, List.mem_of_getElem? isGiven, facts⟩

/-- Every given interval is placed. -/
theorem exists_placed (allocated : Allocated names given placed) {g : Interval}
    (isGiven : g ∈ given) : ∃ iv ∈ placed, iv.SameUse g := by
  obtain ⟨index, atIndex⟩ := List.mem_iff_getElem?.mp isGiven
  have bound : index < placed.length := by
    rw [allocated.length_eq]
    exact (List.getElem?_eq_some_iff.mp atIndex).1
  obtain ⟨g', isGiven', use, -⟩ :=
    allocated.origin index placed[index] (List.getElem?_eq_getElem bound)
  obtain rfl : g' = g := Option.some.inj (isGiven'.symm.trans atIndex)
  exact ⟨placed[index], List.getElem_mem bound, use⟩

/-- The intervals keep their order. -/
theorem map_name (allocated : Allocated names given placed) :
    placed.map Interval.name = given.map Interval.name := by
  refine List.ext_getElem (by simp [allocated.length_eq]) fun index inPlaced inGiven => ?_
  rw [List.length_map] at inPlaced inGiven
  obtain ⟨g, isGiven, use, -⟩ :=
    allocated.origin index placed[index] (List.getElem?_eq_getElem inPlaced)
  rw [List.getElem?_eq_getElem inGiven, Option.some_inj] at isGiven
  rw [List.getElem_map, List.getElem_map, isGiven]
  exact use.1

theorem disjoint_of_name_ne (allocated : Allocated names given placed) {iv jv : Interval}
    (isPlaced : iv ∈ placed) (isPlaced' : jv ∈ placed) (ne : iv.name ≠ jv.name)
    (same : iv.register = jv.register) : Disjoint iv.residence jv.residence := by
  obtain ⟨index, atIndex⟩ := List.mem_iff_getElem?.mp isPlaced
  obtain ⟨index', atIndex'⟩ := List.mem_iff_getElem?.mp isPlaced'
  refine allocated.disjoint index index' iv jv ?_ atIndex atIndex' same
  rintro rfl
  exact ne (by rw [Option.some.inj (atIndex.symm.trans atIndex')])

end Allocated

theorem Pool.names_ne_nil {pool : Pool} (nonempty : pool ≠ []) : pool.names ≠ [] := by
  simpa [Pool.names] using nonempty

@[simp] theorem Pool.names_ofNames (names : List String) : Pool.names (.ofNames names) = names := by
  simp [Pool.names, Pool.ofNames, Function.comp_def]

/-- An allocation from a pool of distinct registers succeeds. -/
theorem allocate_allocated (pool : Pool) (intervals : List Interval) (nonempty : pool ≠ [])
    (nodup : pool.names.Nodup) :
    ∃ placed registers, allocate pool intervals = .ok (placed, registers) ∧
      Allocated pool.names intervals placed := by
  have names_ne := Pool.names_ne_nil nonempty
  obtain ⟨a, all_eq, sound⟩ :=
    (Allocation.sound_start pool.names intervals (scanOrder intervals)).placeAll nodup names_ne
      (fun x inScan => mem_scanOrder.mp inScan) (nodup_indices_scanOrder intervals)
      (by simp) (pairwise_scanOrder intervals)
  have assigned : assign pool.names intervals = .ok a := by
    rw [assign, if_neg (by simpa using names_ne)]
    exact all_eq
  have isPlaced {i : Nat} {iv : Interval} (found : a.intervals[i]? = some iv) :
      i ∈ ((scanOrder intervals).map Prod.snd).reverse ++ [] := by
    obtain ⟨g, isGiven, -⟩ := sound.origin i iv found
    simpa using ⟨g, mem_scanOrder.mpr isGiven⟩
  refine ⟨a.intervals, _, by rw [allocate, assigned]; rfl, sound.length_eq, ?_, ?_⟩
  · intro i iv found
    obtain ⟨g, isGiven, use, spill⟩ := sound.origin i iv found
    exact ⟨g, isGiven, use, sound.registered i (isPlaced found) iv found, spill⟩
  · intro i j iv jv ne foundI foundJ same
    rcases sound.separated i (isPlaced foundI) j (isPlaced foundJ) ne iv jv foundI foundJ same
      with gone | gone
    · exact Interval.disjoint_residence_of_goneBy gone
    · exact (Interval.disjoint_residence_of_goneBy gone).symm

/-- Registers with distinct names can be allocated. -/
theorem exists_allocate {names : List String} (intervals : List Interval) (nonempty : names ≠ [])
    (nodup : names.Nodup) :
    ∃ placed pool, allocate (.ofNames names) intervals = .ok (placed, pool) ∧
      Allocated names intervals placed := by
  have allocates := allocate_allocated (.ofNames names) intervals
    (by simpa [Pool.ofNames] using nonempty) (by rwa [Pool.names_ofNames])
  rwa [Pool.names_ofNames] at allocates

/-- What is known of an allocation from registers with given names. -/
theorem allocated_of_allocate {names : List String} {intervals placed : List Interval} {pool : Pool}
    (nonempty : names ≠ []) (nodup : names.Nodup)
    (allocated : allocate (.ofNames names) intervals = .ok (placed, pool)) :
    Allocated names intervals placed := by
  obtain ⟨placed', pool', allocated', sound⟩ := exists_allocate intervals nonempty nodup
  obtain ⟨rfl, rfl⟩ : placed' = placed ∧ pool' = pool := by
    simpa using allocated'.symm.trans allocated
  exact sound

/-- A change that leaves the use of an interval alone may be made anywhere. -/
theorem forall₂_sameUse_modify {placed given : List Interval} {change : Interval → Interval}
    (keeps : ∀ iv, (change iv).SameUse iv) (same : List.Forall₂ Interval.SameUse placed given)
    (index : Nat) : List.Forall₂ Interval.SameUse (placed.modify index change) given := by
  induction same generalizing index with
  | nil => simp
  | @cons iv g placed given use _ ih =>
    cases index with
    | zero =>
      obtain ⟨name_eq, start_eq, stop_eq, liveIn_eq⟩ := use
      obtain ⟨name_eq', start_eq', stop_eq', liveIn_eq'⟩ := keeps iv
      exact .cons ⟨name_eq'.trans name_eq, start_eq'.trans start_eq, stop_eq'.trans stop_eq,
        liveIn_eq'.trans liveIn_eq⟩ ‹_›
    | succ index => exact .cons use (ih index)

theorem Allocation.sameUse_occupy {a : Allocation} {slot index : Nat} {register : String}
    {iv : Interval} {given : List Interval}
    (same : List.Forall₂ Interval.SameUse a.intervals given) :
    List.Forall₂ Interval.SameUse (a.occupy slot register index iv).intervals given := by
  rw [occupy]
  apply forall₂_sameUse_modify _ same
  intro iv
  exact ⟨rfl, rfl, rfl, rfl⟩

/-- Placing an interval decides about registers and evictions only. -/
theorem Allocation.sameUse_place {pool : List String} {a a' : Allocation} {index : Nat}
    {iv : Interval} {given : List Interval} (placed : a.place pool index iv = .ok a')
    (same : List.Forall₂ Interval.SameUse a.intervals given) :
    List.Forall₂ Interval.SameUse a'.intervals given := by
  rw [place] at placed
  split at placed
  · split at placed
    · cases placed
    · cases placed
      exact sameUse_occupy same
  · split at placed
    · cases placed
    · cases placed
      apply sameUse_occupy
      rw [evict]
      apply forall₂_sameUse_modify _ same
      intro iv
      exact ⟨rfl, rfl, rfl, rfl⟩

theorem Allocation.sameUse_placeAll {pool : List String} {order : List (Interval × Nat)}
    {a a' : Allocation} {given : List Interval} (placed : a.placeAll pool order = .ok a')
    (same : List.Forall₂ Interval.SameUse a.intervals given) :
    List.Forall₂ Interval.SameUse a'.intervals given := by
  induction order generalizing a with
  | nil =>
    cases placed
    exact same
  | cons x rest ih =>
    rw [placeAll] at placed
    split at placed
    · cases placed
    · rename_i next step
      exact ih placed (sameUse_place step same)

/-- Intervals of the same use have the same names, and each has its counterpart. -/
theorem names_and_counterparts {placed given : List Interval}
    (same : List.Forall₂ Interval.SameUse placed given) :
    placed.map Interval.name = given.map Interval.name ∧
      ∀ g ∈ given, ∃ iv ∈ placed, iv.SameUse g := by
  induction same with
  | nil => simp
  | @cons iv g placed given use _ ih =>
    constructor
    · rw [List.map_cons, List.map_cons, use.1, ih.1]
    · rw [List.forall_mem_cons]
      refine ⟨⟨iv, List.mem_cons_self, use⟩, fun g' isGiven => ?_⟩
      obtain ⟨iv', isPlaced, use'⟩ := ih.2 g' isGiven
      exact ⟨iv', List.mem_cons_of_mem _ isPlaced, use'⟩

/-- An allocation decides about registers and evictions only, whatever the pool. -/
theorem sameUse_of_allocate {pool pool' : Pool} {given placed : List Interval}
    (allocated : allocate pool given = .ok (placed, pool')) :
    List.Forall₂ Interval.SameUse placed given := by
  rw [allocate] at allocated
  cases assigned : assign pool.names given with
  | error fault =>
    rw [assigned] at allocated
    cases allocated
  | ok a =>
    rw [assigned] at allocated
    cases allocated
    rw [assign] at assigned
    split at assigned
    · cases assigned
    · apply Allocation.sameUse_placeAll assigned
      exact List.forall₂_same.mpr fun iv _ => .refl iv

/-- **No register is shared.** From a pool of distinct registers every list of
intervals gets registers, and the residences of two intervals with the same register
have no position in common. The given extents play no role: an interval may end
before it starts, and may have been evicted before. -/
theorem allocate_keeps_residences_apart (pool : Pool) (intervals : List Interval)
    (nonempty : pool ≠ []) (nodup : pool.names.Nodup) :
    ∃ placed registers, allocate pool intervals = .ok (placed, registers) ∧
      List.Forall₂ (fun given iv => iv.SameUse given ∧ iv.register ∈ pool.names)
        intervals placed ∧
      placed.Pairwise fun a b => a.register = b.register → Disjoint a.residence b.residence := by
  obtain ⟨placed, registers, allocated_eq, allocated⟩ :=
    allocate_allocated pool intervals nonempty nodup
  refine ⟨placed, registers, allocated_eq, ?_, ?_⟩
  · rw [List.forall₂_iff_get]
    refine ⟨allocated.length_eq.symm, fun i isGiven isPlaced => ?_⟩
    obtain ⟨g, found, use, inPool, -⟩ :=
      allocated.origin i placed[i] (List.getElem?_eq_getElem isPlaced)
    obtain rfl : intervals[i] = g :=
      Option.some.inj ((List.getElem?_eq_getElem isGiven).symm.trans found)
    exact ⟨use, inPool⟩
  · rw [List.pairwise_iff_getElem]
    intro i j hi hj lt same
    exact allocated.disjoint i j _ _ (Nat.ne_of_lt lt) (List.getElem?_eq_getElem hi)
      (List.getElem?_eq_getElem hj) same

/-- Three intervals that start at one position compete for a single register. -/
theorem allocate_keeps_residences_apart_single :
    Pool.ofNames ["s1"] ≠ [] ∧ (Pool.ofNames ["s1"]).names.Nodup ∧
    ∃ placed registers,
      allocate (Pool.ofNames ["s1"])
        [{ name := "a", start := 0, stop := 4 }, { name := "b", start := 0, stop := 2 },
          { name := "c", start := 0, stop := 4 }] = .ok (placed, registers) ∧
      List.Forall₂ (fun given iv => iv.SameUse given ∧ iv.register ∈ (Pool.ofNames ["s1"]).names)
        [{ name := "a", start := 0, stop := 4 }, { name := "b", start := 0, stop := 2 },
          { name := "c", start := 0, stop := 4 }] placed ∧
      placed.Pairwise fun a b => a.register = b.register → Disjoint a.residence b.residence :=
  ⟨by decide, by decide, allocate_keeps_residences_apart _ _ (by decide) (by decide)⟩

end RiscBackend.Alloc
