/-
# The plain linear scan

The scan keeps the registers in use in a list that is ordered by the ends of their
intervals, so that what has ended stands in front. The plain scan keeps no such order.
It looks at all held registers to find those that are free again, at the whole pool to
find a free one, and at all holders to find the one that ends last.

Both decide alike. The list of the scan is always the stable arrangement by ends of
what the plain scan holds, in the order of placing. Taking out a holder, wherever it
stands, and letting ended holders go commute with this arrangement. Among holders with
the same end the arrangement changes nothing, so the first of the furthest is in both
cases the one that was placed first.
-/

import Mathlib.Data.List.Induction
import Mathlib.Data.List.Sort
import RiscBackend.Proofs.Alloc.Residence

namespace RiscBackend.Alloc

/-- The state of a plain scan: the intervals with what was decided about them, and the
set of holdings. A holding stands behind those that were placed before it. -/
structure Plain where
  intervals : List Interval
  held : List Holding := []
  deriving DecidableEq, Repr

namespace Plain

/-- Whether an interval is placed before another one, or is the same: by the starts,
equal starts in the given order. -/
def Precedes (x y : Interval × Nat) : Prop :=
  x.1.start < y.1.start ∨ x.1.start = y.1.start ∧ x.2 ≤ y.2

instance : DecidableRel Precedes := fun x y =>
  inferInstanceAs (Decidable (x.1.start < y.1.start ∨ x.1.start = y.1.start ∧ x.2 ≤ y.2))

/-- The indexed intervals in the order in which they are placed. -/
def order (intervals : List Interval) : List (Interval × Nat) :=
  intervals.zipIdx.insertionSort Precedes

/-- The holder that ends last; of several, the one placed first. -/
def victim? (held : List Holding) : Option Holding :=
  held.find? fun h => held.all fun other => other.stop ≤ h.stop

/-- The first register of the pool that is not held, with its slot. -/
def free? (names : List String) (held : List Holding) : Option (String × Nat) :=
  names.zipIdx.find? fun register => held.all fun h => h.slot != register.2

/-- Take back the registers of all intervals that end before a position. -/
def release (s : Plain) (position : Int) : Plain :=
  { s with held := s.held.filter fun h => position ≤ h.stop }

/-- Give a register to an interval. -/
def occupy (s : Plain) (slot : Nat) (register : String) (x : Interval × Nat) : Plain where
  intervals := s.intervals.modify x.2 fun iv => { iv with register }
  held := s.held ++ [{ slot, interval := x.2, stop := x.1.stop }]

/-- Take the register of a holder away at a position. -/
def evict (s : Plain) (victim : Holding) (position : Int) : Plain where
  intervals := s.intervals.modify victim.interval fun iv => { iv with spillAt := position }
  held := s.held.erase victim

/-- Place an interval: in the first free register of the pool, or else in that of the
holder that ends last. -/
def place (names : List String) (s : Plain) (x : Interval × Nat) : Plain :=
  let s := s.release x.1.start
  match free? names s.held with
  | some (register, slot) => s.occupy slot register x
  | none =>
    match victim? s.held with
    | some victim =>
      (s.evict victim x.1.start).occupy victim.slot (names.getD victim.slot "") x
    | none => s

/-- The intervals after a plain scan with the registers of the given names. -/
def scan (names : List String) (intervals : List Interval) : List Interval :=
  ((order intervals).foldl (place names) { intervals }).intervals

end Plain

namespace Holding

/-- Holdings arranged by their ends, equal ends in the given order. -/
def arrange (held : List Holding) : List Holding :=
  held.foldl (fun arranged h => h.insert arranged) []

theorem arrange_concat (held : List Holding) (h : Holding) :
    arrange (held ++ [h]) = h.insert (arrange held) := by
  rw [arrange, List.foldl_append]
  rfl

theorem arrange_perm (held : List Holding) : (arrange held).Perm held := by
  induction held using List.reverseRecOn with
  | nil => exact List.Perm.refl _
  | append_singleton held h ih =>
    rw [arrange_concat]
    have inserted : (h.insert (arrange held)).Perm (h :: held) :=
      (insert_perm h (arrange held)).trans (ih.cons h)
    exact inserted.trans (List.perm_append_singleton h held).symm

theorem pairwise_insert {h : Holding} {arranged : List Holding}
    (sorted : arranged.Pairwise fun a b => a.stop ≤ b.stop) :
    (h.insert arranged).Pairwise fun a b => a.stop ≤ b.stop := by
  induction arranged with
  | nil => simp [insert]
  | cons first rest ih =>
    rw [List.pairwise_cons] at sorted
    rw [insert]
    split
    · rename_i below
      rw [List.pairwise_cons, List.pairwise_cons]
      refine ⟨fun other isLater => ?_, sorted⟩
      rcases List.mem_cons.mp isLater with rfl | inRest
      · exact below.le
      · exact below.le.trans (sorted.1 other inRest)
    · rename_i notBelow
      rw [List.pairwise_cons]
      refine ⟨fun other isLater => ?_, ih sorted.2⟩
      rcases mem_insert.mp isLater with rfl | inRest
      · exact Int.not_lt.mp notBelow
      · exact sorted.1 other inRest

theorem pairwise_arrange (held : List Holding) :
    (arrange held).Pairwise fun a b => a.stop ≤ b.stop := by
  induction held using List.reverseRecOn with
  | nil => exact List.Pairwise.nil
  | append_singleton held h ih =>
    rw [arrange_concat]
    exact pairwise_insert ih

/-- Before holdings that all end later a holding stands in front. -/
theorem insert_of_forall_lt {h : Holding} {arranged : List Holding}
    (later : ∀ other ∈ arranged, h.stop < other.stop) : h.insert arranged = h :: arranged := by
  cases arranged with
  | nil => rfl
  | cons first rest => rw [insert, if_pos (later first List.mem_cons_self)]

/-- A holding stands behind those that end no later. -/
theorem insert_append {h : Holding} {front : List Holding}
    (earlier : ∀ other ∈ front, other.stop ≤ h.stop) (back : List Holding) :
    h.insert (front ++ back) = front ++ h.insert back := by
  induction front with
  | nil => rfl
  | cons first rest ih =>
    rw [List.forall_mem_cons] at earlier
    rw [List.cons_append, insert, if_neg (Int.not_lt.mpr earlier.1), ih earlier.2]
    rfl

/-- Leaving holdings out of an arranged list before or after an insertion gives the
same list. -/
theorem filter_insert {h : Holding} {arranged : List Holding} (keep : Holding → Bool)
    (sorted : arranged.Pairwise fun a b => a.stop ≤ b.stop) :
    (h.insert arranged).filter keep =
      if keep h then h.insert (arranged.filter keep) else arranged.filter keep := by
  induction arranged with
  | nil => cases kept : keep h <;> simp [insert, kept]
  | cons first rest ih =>
    rw [List.pairwise_cons] at sorted
    rw [insert]
    split
    · rename_i below
      have later : ∀ other ∈ (first :: rest).filter keep, h.stop < other.stop := by
        intro other stays
        rcases List.mem_cons.mp (List.mem_of_mem_filter stays) with rfl | inRest
        · exact below
        · exact below.trans_le (sorted.1 other inRest)
      rw [insert_of_forall_lt later, List.filter_cons]
    · rename_i notBelow
      rw [List.filter_cons, ih sorted.2, List.filter_cons]
      cases keep first <;> cases keep h <;> simp [insert, notBelow]

/-- Leaving holdings out commutes with the arrangement. -/
theorem filter_arrange (keep : Holding → Bool) (held : List Holding) :
    (arrange held).filter keep = arrange (held.filter keep) := by
  induction held using List.reverseRecOn with
  | nil => rfl
  | append_singleton held h ih =>
    rw [arrange_concat, filter_insert keep (pairwise_arrange held), ih, List.filter_append]
    cases kept : keep h with
    | false => simp [kept]
    | true => simp [kept, arrange_concat]

/-- Holdings with the same end keep their order. -/
theorem arrange_of_stop_eq {held : List Holding} {stop : Int} (equal : ∀ h ∈ held, h.stop = stop) :
    arrange held = held := by
  induction held using List.reverseRecOn with
  | nil => rfl
  | append_singleton held h ih =>
    have equal_held : ∀ other ∈ held, other.stop = stop := fun other isHeld =>
      equal other (List.mem_append_left _ isHeld)
    have equal_h : h.stop = stop := equal h (List.mem_append_right _ List.mem_cons_self)
    have earlier : ∀ other ∈ held, other.stop ≤ h.stop := by
      intro other isHeld
      rw [equal_held other isHeld, equal_h]
    have inserted := insert_append earlier []
    rw [List.append_nil] at inserted
    rw [arrange_concat, ih equal_held]
    exact inserted

/-- In an arranged list the holdings that end before a position stand in front. -/
theorem dropWhile_eq_filter {arranged : List Holding} (position : Int)
    (sorted : arranged.Pairwise fun a b => a.stop ≤ b.stop) :
    arranged.dropWhile (fun h => h.stop < position) =
      arranged.filter fun h => position ≤ h.stop := by
  induction arranged with
  | nil => rfl
  | cons first rest ih =>
    rw [List.pairwise_cons] at sorted
    by_cases ended : first.stop < position
    · rw [List.dropWhile_cons_of_pos (by simpa using ended),
        List.filter_cons_of_neg (by simpa using ended)]
      exact ih sorted.2
    · rw [List.dropWhile_cons_of_neg (by simpa using ended), eq_comm, List.filter_eq_self]
      intro h isHeld
      rw [decide_eq_true_eq]
      rcases List.mem_cons.mp isHeld with rfl | inRest
      · exact Int.not_lt.mp ended
      · exact (Int.not_lt.mp ended).trans (sorted.1 h inRest)

/-- A holding that ends before another one does not change which of them no other one
outlasts. -/
theorem all_cons_of_outlasted {first best : Holding} {rest : List Holding} (isRest : best ∈ rest)
    (outlasted : first.stop < best.stop) (h : Holding) :
    ((first :: rest).all fun other => other.stop ≤ h.stop) =
      rest.all fun other => other.stop ≤ h.stop := by
  rw [List.all_cons, Bool.and_eq_right_iff_imp]
  intro last
  have after := List.all_eq_true.mp last best isRest
  rw [decide_eq_true_eq] at after ⊢
  omega

/-- The furthest holding is the first one that no other one outlasts. -/
theorem furthest?_eq_find? (held : List Holding) :
    furthest? held = held.find? fun h => held.all fun other => other.stop ≤ h.stop := by
  induction held with
  | nil => rfl
  | cons first rest ih =>
    rw [furthest?, List.find?_cons]
    cases found : furthest? rest with
    | none =>
      have empty : rest = [] := by
        by_contra nonempty
        obtain ⟨h, isSome⟩ := furthest?_isSome nonempty
        rw [found] at isSome
        cases isSome
      simp [empty]
    | some best =>
      rw [found] at ih
      have bounded : ∀ other ∈ rest, other.stop ≤ best.stop := by
        simpa using List.find?_some ih.symm
      have isRest : best ∈ rest := mem_of_furthest?_eq_some found
      by_cases outlasted : first.stop < best.stop
      · have notLast : (rest.all fun other => other.stop ≤ first.stop) = false := by
          rw [List.all_eq_false]
          exact ⟨best, isRest, by simpa using outlasted⟩
        simp only [all_cons_of_outlasted isRest outlasted, if_pos outlasted, notLast]
        exact ih
      · have last : ((first :: rest).all fun other => other.stop ≤ first.stop) = true := by
          rw [List.all_cons, decide_eq_true le_rfl, Bool.true_and, List.all_eq_true]
          intro other inRest
          exact decide_eq_true ((bounded other inRest).trans (Int.not_lt.mp outlasted))
        simp only [if_neg outlasted, last]

/-- The arrangement does not change which holder is evicted. -/
theorem furthest?_arrange (held : List Holding) :
    furthest? (arrange held) = Plain.victim? held := by
  have same (h : Holding) : ((arrange held).all fun other => other.stop ≤ h.stop) =
      held.all fun other => other.stop ≤ h.stop :=
    (arrange_perm held).all_eq
  rw [furthest?_eq_find?, Plain.victim?]
  simp only [same]
  rw [← List.head?_filter, ← List.head?_filter, filter_arrange]
  cases lasting : held.filter fun h => held.all fun other => other.stop ≤ h.stop with
  | nil => rfl
  | cons first rest =>
    -- Holders that no other one outlasts end at the same position.
    have equal : ∀ h ∈ first :: rest, h.stop = first.stop := by
      intro h isLast
      rw [← lasting] at isLast
      have isLast' : first ∈ held.filter fun h => held.all fun other => other.stop ≤ h.stop :=
        lasting ▸ List.mem_cons_self
      obtain ⟨isHeld, above⟩ := List.mem_filter.mp isLast
      obtain ⟨isHeld', above'⟩ := List.mem_filter.mp isLast'
      have le := List.all_eq_true.mp above' h isHeld
      have ge := List.all_eq_true.mp above first isHeld'
      simp only [decide_eq_true_eq] at le ge
      omega
    rw [arrange_of_stop_eq equal]

/-- Whether a slot is free does not depend on the arrangement. -/
theorem freeSlot?_arrange (size : Nat) (held : List Holding) :
    freeSlot? size (arrange held) = freeSlot? size held := by
  have same (slot : Nat) : ((arrange held).all fun h => h.slot != slot) =
      held.all fun h => h.slot != slot :=
    (arrange_perm held).all_eq
  simp only [freeSlot?, same]

/-- Whether every holding has a register of the pool, and no two the same. -/
structure Proper (size : Nat) (held : List Holding) : Prop where
  nodup : (held.map slot).Nodup
  inPool : ∀ h ∈ held, h.slot < size

theorem proper_nil (size : Nat) : Proper size [] where
  nodup := List.nodup_nil
  inPool h isHeld := by cases isHeld

theorem Proper.sublist {size : Nat} {held fewer : List Holding} (proper : Proper size held)
    (sub : fewer.Sublist held) : Proper size fewer where
  nodup := proper.nodup.sublist (sub.map _)
  inPool h isHeld := proper.inPool h (sub.subset isHeld)

theorem Proper.concat {size : Nat} {held : List Holding} {new : Holding}
    (proper : Proper size held) (inPool : new.slot < size)
    (free : ∀ h ∈ held, h.slot ≠ new.slot) : Proper size (held ++ [new]) where
  nodup := by
    rw [List.map_append, List.map_singleton, ← List.concat_eq_append]
    apply proper.nodup.concat
    intro taken
    obtain ⟨h, isHeld, same⟩ := List.mem_map.mp taken
    exact free h isHeld same
  inPool h isHeld := by
    rcases List.mem_append.mp isHeld with wasHeld | isNew
    · exact proper.inPool h wasHeld
    · rw [List.mem_singleton] at isNew
      exact isNew ▸ inPool

/-- When as many registers are held as there are, none is free. -/
theorem Proper.freeSlot?_eq_none {size : Nat} {held : List Holding} (proper : Proper size held)
    (full : size ≤ held.length) : freeSlot? size held = none := by
  by_contra isFree
  obtain ⟨slot, found⟩ := Option.ne_none_iff_exists'.mp isFree
  obtain ⟨bound, free⟩ := freeSlot?_eq_some found
  have distinct : (slot :: held.map Holding.slot).Nodup := by
    rw [List.nodup_cons]
    refine ⟨fun taken => ?_, proper.nodup⟩
    obtain ⟨h, isHeld, same⟩ := List.mem_map.mp taken
    exact free h isHeld same
  have slots : slot :: held.map Holding.slot ⊆ List.range size := by
    rw [List.cons_subset]
    refine ⟨List.mem_range.mpr bound, fun other taken => ?_⟩
    obtain ⟨h, isHeld, rfl⟩ := List.mem_map.mp taken
    exact List.mem_range.mpr (proper.inPool h isHeld)
  have count := (distinct.subperm slots).length_le
  simp only [List.length_cons, List.length_map, List.length_range] at count
  omega

/-- A holder is known by its slot. -/
theorem Proper.erase_eq_filter {size : Nat} {held : List Holding} {victim : Holding}
    (proper : Proper size held) (isHeld : victim ∈ held) :
    held.erase victim = held.filter fun h => h.slot != victim.slot := by
  rw [proper.nodup.of_map.erase_eq_filter]
  apply List.filter_congr
  intro h isHeld'
  have same : h.slot = victim.slot ↔ h = victim :=
    ⟨fun slot_eq => List.inj_on_of_nodup_map proper.nodup isHeld' isHeld slot_eq, congrArg slot⟩
  simp only [bne, beq_eq_decide, same]

/-- The slot of an evicted holder is free. -/
theorem Proper.slot_ne_of_mem_erase {size : Nat} {held : List Holding} {victim h : Holding}
    (proper : Proper size held) (isHeld : victim ∈ held) (stays : h ∈ held.erase victim) :
    h.slot ≠ victim.slot := by
  rw [proper.erase_eq_filter isHeld] at stays
  simpa using (List.mem_filter.mp stays).2

end Holding

namespace Plain

open Holding (Proper)

/-- A register that is free comes with its name. -/
theorem free?_eq (names : List String) (held : List Holding) :
    free? names held =
      (Holding.freeSlot? names.length held).map fun slot => (names.getD slot "", slot) := by
  have paired : names.zipIdx =
      (List.range names.length).map fun slot => (names.getD slot "", slot) := by
    apply List.ext_getElem
    · simp
    · intro slot inNames _
      have bound : slot < names.length := by simpa using inNames
      simp [bound]
  rw [free?, paired, List.find?_map]
  rfl

theorem victim?_isSome {held : List Holding} (nonempty : held ≠ []) :
    ∃ victim ∈ held, victim? held = some victim := by
  have arranged : Holding.arrange held ≠ [] := by
    intro empty
    apply nonempty
    have permuted := Holding.arrange_perm held
    rw [empty] at permuted
    exact permuted.nil_eq.symm
  obtain ⟨victim, found⟩ := Holding.furthest?_isSome arranged
  rw [Holding.furthest?_arrange] at found
  exact ⟨victim, List.mem_of_find?_eq_some found, found⟩

variable {names : List String} {s : Plain} {x : Interval × Nat}

/-- While registers are left, an interval takes a free one and nobody is evicted. -/
theorem place_of_room (room : (s.release x.1.start).held.length < names.length) :
    ∃ slot, Holding.freeSlot? names.length (s.release x.1.start).held = some slot ∧
      s.place names x = (s.release x.1.start).occupy slot (names.getD slot "") x := by
  obtain ⟨slot, found⟩ := Holding.freeSlot?_isSome room
  refine ⟨slot, found, ?_⟩
  simp only [place, free?_eq, found, Option.map_some]

/-- When all registers are held, the holder that ends last makes room. -/
theorem place_of_full (proper : Proper names.length s.held) (nonempty : names ≠ [])
    (full : names.length ≤ (s.release x.1.start).held.length) :
    ∃ victim ∈ (s.release x.1.start).held, victim? (s.release x.1.start).held = some victim ∧
      s.place names x = ((s.release x.1.start).evict victim x.1.start).occupy victim.slot
        (names.getD victim.slot "") x := by
  have someHeld : (s.release x.1.start).held ≠ [] := by
    rw [← List.length_pos_iff]
    exact (List.length_pos_iff.mpr nonempty).trans_le full
  obtain ⟨victim, isHeld, found⟩ := victim?_isSome someHeld
  have noneFree : Holding.freeSlot? names.length (s.release x.1.start).held = none :=
    (proper.sublist List.filter_sublist).freeSlot?_eq_none full
  refine ⟨victim, isHeld, found, ?_⟩
  simp only [place, free?_eq, noneFree, Option.map_none, found]

/-- No register is given to two holders. -/
theorem proper_place (proper : Proper names.length s.held) (nonempty : names ≠ [])
    (x : Interval × Nat) : Proper names.length (s.place names x).held := by
  have released : Proper names.length (s.release x.1.start).held :=
    proper.sublist List.filter_sublist
  by_cases room : (s.release x.1.start).held.length < names.length
  · obtain ⟨slot, found, placed⟩ := place_of_room room
    obtain ⟨inPool, free⟩ := Holding.freeSlot?_eq_some found
    rw [placed]
    exact released.concat inPool free
  · obtain ⟨victim, isHeld, -, placed⟩ := place_of_full proper nonempty (Nat.not_lt.mp room)
    have evicted : Proper names.length ((s.release x.1.start).evict victim x.1.start).held :=
      released.sublist List.erase_sublist
    have free (h : Holding) (stays : h ∈ ((s.release x.1.start).evict victim x.1.start).held) :
        h.slot ≠ victim.slot := released.slot_ne_of_mem_erase isHeld stays
    rw [placed]
    exact evicted.concat (released.inPool victim isHeld) free

end Plain

/-- Whether the state of a scan is that of a plain scan with its holdings arranged. -/
structure Allocation.Arranges (a : Allocation) (s : Plain) : Prop where
  intervals_eq : a.intervals = s.intervals
  active_eq : a.active = Holding.arrange s.held

namespace Allocation.Arranges

open Holding (Proper)

variable {names : List String} {a : Allocation} {s : Plain}

theorem expire (arranges : Arranges a s) (position : Int) :
    Arranges (a.expire position) (s.release position) where
  intervals_eq := arranges.intervals_eq
  active_eq := by
    rw [Allocation.expire, arranges.active_eq,
      Holding.dropWhile_eq_filter position (Holding.pairwise_arrange s.held),
      Holding.filter_arrange, Plain.release]

theorem evict {size : Nat} {victim : Holding} (arranges : Arranges a s)
    (proper : Proper size s.held) (isHeld : victim ∈ s.held) (position : Int) :
    Arranges (a.evict victim position) (s.evict victim position) where
  intervals_eq := by rw [Allocation.evict, Plain.evict, arranges.intervals_eq]
  active_eq := by
    rw [Allocation.evict, Plain.evict, arranges.active_eq, Holding.filter_arrange,
      proper.erase_eq_filter isHeld]

theorem occupy (arranges : Arranges a s) (slot : Nat) (register : String)
    (x : Interval × Nat) :
    Arranges (a.occupy slot register x.2 x.1) (s.occupy slot register x) where
  intervals_eq := by rw [Allocation.occupy, Plain.occupy, arranges.intervals_eq]
  active_eq := by
    rw [Allocation.occupy, Plain.occupy, arranges.active_eq, Holding.arrange_concat]

/-- Both scans place an interval alike. -/
theorem place (arranges : Arranges a s) (proper : Proper names.length s.held)
    (nonempty : names ≠ []) (x : Interval × Nat) :
    ∃ a', a.place names x.2 x.1 = .ok a' ∧ Arranges a' (s.place names x) := by
  have expired := arranges.expire x.1.start
  have count : (a.expire x.1.start).active.length = (s.release x.1.start).held.length := by
    rw [expired.active_eq]
    exact (Holding.arrange_perm _).length_eq
  by_cases room : (a.expire x.1.start).active.length < names.length
  · obtain ⟨slot, found, placed⟩ := Plain.place_of_room (count ▸ room)
    rw [← Holding.freeSlot?_arrange, ← expired.active_eq] at found
    rw [placed]
    refine ⟨_, ?_, expired.occupy slot (names.getD slot "") x⟩
    simp only [Allocation.place, if_pos room, found]
  · have full : names.length ≤ (s.release x.1.start).held.length := by omega
    obtain ⟨victim, isHeld, found, placed⟩ := Plain.place_of_full proper nonempty full
    rw [← Holding.furthest?_arrange, ← expired.active_eq] at found
    have evicted := expired.evict (proper.sublist List.filter_sublist) isHeld x.1.start
    rw [placed]
    refine ⟨_, ?_, evicted.occupy victim.slot (names.getD victim.slot "") x⟩
    simp only [Allocation.place, if_neg room, found]

/-- Both scans place a list of intervals alike. -/
theorem placeAll (nonempty : names ≠ []) (order : List (Interval × Nat))
    (arranges : Arranges a s) (proper : Proper names.length s.held) :
    ∃ a', a.placeAll names order = .ok a' ∧
      Arranges a' (order.foldl (Plain.place names) s) := by
  induction order generalizing a s with
  | nil => exact ⟨a, rfl, arranges⟩
  | cons x rest ih =>
    obtain ⟨next, placed, arranges'⟩ := arranges.place proper nonempty x
    obtain ⟨last, placedAll, arranges''⟩ := ih arranges' (Plain.proper_place proper nonempty x)
    refine ⟨last, ?_, arranges''⟩
    rw [Allocation.placeAll, placed]
    exact placedAll

end Allocation.Arranges

/-- The scan does not exchange intervals with the same start. -/
theorem filter_scanOrder (intervals : List Interval) (start : Int) :
    (scanOrder intervals).filter (fun x => x.1.start = start) =
      intervals.zipIdx.filter fun x => x.1.start = start := by
  have equals : (intervals.zipIdx.filter fun x => decide (x.1.start = start)).Pairwise
      fun x y => decide (x.1.start ≤ y.1.start) = true := by
    apply List.pairwise_of_forall_mem_list
    intro x inX y inY
    have startX := (List.mem_filter.mp inX).2
    have startY := (List.mem_filter.mp inY).2
    simp only [decide_eq_true_eq] at startX startY ⊢
    omega
  have kept : (intervals.zipIdx.filter fun x => decide (x.1.start = start)).Sublist
      (scanOrder intervals) :=
    List.sublist_mergeSort
      (fun x y z first second => by simp only [decide_eq_true_eq] at *; omega)
      (fun x y => by simp only [Bool.or_eq_true, decide_eq_true_eq]; omega)
      equals List.filter_sublist
  have kept' := kept.filter fun x => decide (x.1.start = start)
  rw [List.filter_filter] at kept'
  simp only [Bool.and_self] at kept'
  apply Eq.symm
  apply kept'.eq_of_length
  exact ((List.mergeSort_perm _ _).filter _).length_eq.symm

theorem Plain.pairwise_order (intervals : List Interval) :
    (Plain.order intervals).Pairwise Plain.Precedes := by
  have total : Std.Total Plain.Precedes := ⟨fun x y => by unfold Plain.Precedes; omega⟩
  have trans : IsTrans (Interval × Nat) Plain.Precedes :=
    ⟨fun x y z => by unfold Plain.Precedes; omega⟩
  exact List.pairwise_insertionSort _ _

/-- The scan places the intervals in the plain order. -/
theorem scanOrder_eq (intervals : List Interval) : scanOrder intervals = Plain.order intervals := by
  have permuted : (scanOrder intervals).Perm (Plain.order intervals) :=
    (List.mergeSort_perm _ _).trans (List.perm_insertionSort _ _).symm
  refine permuted.eq_of_pairwise ?_ ?_ (Plain.pairwise_order intervals)
  · intro x y inX inY before after
    have same : x.2 = y.2 := by unfold Plain.Precedes at before after; omega
    exact List.inj_on_of_nodup_map (nodup_indices_scanOrder intervals) inX
      (permuted.mem_iff.mpr inY) same
  · rw [List.pairwise_iff_forall_sublist]
    intro x y inOrder
    have ordered := List.pairwise_iff_forall_sublist.mp (pairwise_scanOrder intervals) inOrder
    rcases ordered.lt_or_eq with earlier | equal
    · exact .inl earlier
    · have tied := inOrder.filter fun z => decide (z.1.start = x.1.start)
      rw [filter_scanOrder] at tied
      simp only [List.filter_cons, equal, decide_true, if_true, List.filter_nil] at tied
      have indices : intervals.zipIdx.Pairwise fun a b => a.2 < b.2 := by
        rw [← List.pairwise_map, List.zipIdx_map_snd]
        exact List.pairwise_lt_range'
      exact .inr ⟨equal, (List.pairwise_iff_forall_sublist.mp indices
        (tied.trans List.filter_sublist)).le⟩

/-- The order holds every interval with its index. -/
theorem Plain.mem_order {intervals : List Interval} {x : Interval × Nat} :
    x ∈ Plain.order intervals ↔ intervals[x.2]? = some x.1 := by
  rw [← scanOrder_eq, mem_scanOrder]

/-- An assignment of registers ends in the state of the plain scan, arranged. -/
theorem exists_assign_arranges {names : List String} (nonempty : names ≠ [])
    (intervals : List Interval) :
    ∃ a, assign names intervals = .ok a ∧
      a.Arranges ((Plain.order intervals).foldl (Plain.place names) { intervals }) := by
  have start : Allocation.Arranges { intervals } { intervals } := ⟨rfl, rfl⟩
  obtain ⟨a, placed, arranges⟩ :=
    start.placeAll nonempty (scanOrder intervals) (Holding.proper_nil _)
  rw [scanOrder_eq] at arranges
  refine ⟨a, ?_, arranges⟩
  rw [assign, if_neg (by simpa using nonempty)]
  exact placed

/-- An allocation leaves the intervals as they were assigned. -/
theorem allocate_of_assign {pool : Pool} {intervals : List Interval} {a : Allocation}
    (assigned : assign pool.names intervals = .ok a) :
    ∃ registers, allocate pool intervals = .ok (a.intervals, registers) := by
  rw [allocate, assigned]
  exact ⟨_, rfl⟩

/-- **The scan refines the plain one.** From a pool that is not empty every interval
gets the register and the eviction that the plain scan decides on. -/
theorem allocate_eq_plain_scan (pool : Pool) (intervals : List Interval) (nonempty : pool ≠ []) :
    ∃ registers, allocate pool intervals = .ok (Plain.scan pool.names intervals, registers) := by
  have names_ne : pool.names ≠ [] := by simpa [Pool.names] using nonempty
  obtain ⟨a, assigned, arranges⟩ := exists_assign_arranges names_ne intervals
  rw [Plain.scan, ← arranges.intervals_eq]
  exact allocate_of_assign assigned

/-- Five intervals for two registers, not in the order of their starts. Two of them end
together while a register is needed, and one register changes its holder twice. -/
def contested : List Interval :=
  [{ name := "a", start := 0, stop := 4 }, { name := "d", start := 3, stop := 4 },
    { name := "b", start := 1, stop := 4 }, { name := "c", start := 2, stop := 3 },
    { name := "e", start := 5, stop := 6 }]

/-- Of the two that end together the one placed first is evicted first. -/
theorem allocate_eq_plain_scan_contested :
    Pool.ofNames ["s1", "s2"] ≠ [] ∧
    (∃ registers, allocate (Pool.ofNames ["s1", "s2"]) contested =
      .ok (Plain.scan (Pool.ofNames ["s1", "s2"]).names contested, registers)) ∧
    (Plain.scan (Pool.ofNames ["s1", "s2"]).names contested).map
        (fun iv => (iv.name, iv.register, iv.spillAt)) =
      [("a", "s1", 2), ("d", "s2", never), ("b", "s2", 3), ("c", "s1", never),
        ("e", "s1", never)] :=
  ⟨by decide, allocate_eq_plain_scan _ _ (by decide), by decide⟩

end RiscBackend.Alloc
