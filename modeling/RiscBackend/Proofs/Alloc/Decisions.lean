/-
# What a scan decides

A scan writes two things into an interval, the register that it gets and the position
of its eviction, and it reads neither. So a scan comes apart into a list of decisions,
which are taken from the order, the starts and the ends of the intervals and from
nothing else, and the intervals with these decisions written into them.

To the decisions the indices of the intervals are only names, and the positions are only
compared. Other indices, and other positions in the same order, lead to the same
decisions about the other indices at the other positions.
-/

import Mathlib.Data.List.Find
import RiscBackend.Proofs.Alloc.PlainScan

namespace RiscBackend.Alloc

/-- What a scan decides about an interval. -/
inductive Decision where
  | register (name : String)
  | eviction (position : Int)
  deriving DecidableEq, Repr

namespace Decision

/-- The register that is given. -/
def register? : Decision → Option String
  | register name => some name
  | eviction _ => none

/-- The position of the eviction. -/
def eviction? : Decision → Option Int
  | register _ => none
  | eviction position => some position

/-- The same decision with another count of positions. -/
def renumber (count : Int → Int) : Decision → Decision
  | register name => register name
  | eviction position => eviction (count position)

@[simp] theorem renumber_id (d : Decision) : d.renumber id = d := by
  cases d <;> rfl

end Decision

/-- An interval with a decision written into it. -/
def Interval.adopt (iv : Interval) : Decision → Interval
  | .register name => { iv with register := name }
  | .eviction position => { iv with spillAt := position }

/-- Of the decisions about an interval the last ones count. -/
theorem foldl_adopt (decisions : List Decision) (iv : Interval) :
    decisions.foldl Interval.adopt iv =
      { iv with
        register := (decisions.filterMap Decision.register?).getLastD iv.register
        spillAt := (decisions.filterMap Decision.eviction?).getLastD iv.spillAt } := by
  induction decisions using List.reverseRecOn with
  | nil => rfl
  | append_singleton decisions d ih =>
    rw [List.foldl_append, ih, List.filterMap_append, List.filterMap_append]
    cases d with
    | register name => simp [Interval.adopt, Decision.register?, Decision.eviction?]
    | eviction position => simp [Interval.adopt, Decision.register?, Decision.eviction?]

/-- To decide the same once more changes nothing. -/
theorem foldl_adopt_twice (decisions : List Decision) (iv : Interval) :
    decisions.foldl Interval.adopt (decisions.foldl Interval.adopt iv) =
      decisions.foldl Interval.adopt iv := by
  have again {α : Type} (written : List α) (old : α) :
      written.getLastD (written.getLastD old) = written.getLastD old := by
    cases written <;> simp [List.getLastD]
  simp only [foldl_adopt, again]

/-- Write decisions into the intervals with the given indices. -/
def inscribe (decisions : List (Nat × Decision)) (intervals : List Interval) : List Interval :=
  decisions.foldl (fun written d => written.modify d.1 (·.adopt d.2)) intervals

theorem inscribe_append (first second : List (Nat × Decision)) (intervals : List Interval) :
    inscribe (first ++ second) intervals = inscribe second (inscribe first intervals) := by
  rw [inscribe, List.foldl_append]
  rfl

/-- The decisions about the interval with an index. -/
def decisionsOn (index : Nat) (decisions : List (Nat × Decision)) : List Decision :=
  (decisions.filter fun d => d.1 = index).map Prod.snd

theorem mem_decisionsOn {index : Nat} {d : Decision} {decisions : List (Nat × Decision)} :
    d ∈ decisionsOn index decisions ↔ (index, d) ∈ decisions := by
  simp [decisionsOn]

/-- An interval gets the decisions about its index. -/
theorem getElem?_inscribe (decisions : List (Nat × Decision)) (intervals : List Interval)
    (index : Nat) :
    (inscribe decisions intervals)[index]? =
      intervals[index]?.map fun iv => (decisionsOn index decisions).foldl Interval.adopt iv := by
  induction decisions generalizing intervals with
  | nil => simp [inscribe, decisionsOn]
  | cons d rest ih =>
    rw [inscribe, List.foldl_cons, ← inscribe, ih, List.getElem?_modify]
    by_cases isOn : d.1 = index
    · simp [decisionsOn, isOn, Function.comp_def]
    · simp [decisionsOn, isOn]

namespace Plain

open Holding (Proper)

/-- The turn of an interval in a scan: the holdings after it, and what is decided. -/
def turn (names : List String) (held : List Holding) (x : Interval × Nat) :
    List Holding × List (Nat × Decision) :=
  let held := held.filter fun h => x.1.start ≤ h.stop
  match free? names held with
  | some (register, slot) =>
    (held ++ [{ slot, interval := x.2, stop := x.1.stop }], [(x.2, .register register)])
  | none =>
    match victim? held with
    | some victim =>
      (held.erase victim ++ [{ slot := victim.slot, interval := x.2, stop := x.1.stop }],
        [(victim.interval, .eviction x.1.start), (x.2, .register (names.getD victim.slot ""))])
    | none => (held, [])

/-- The turns of intervals one after another. -/
def turns (names : List String) :
    List Holding → List (Interval × Nat) → List Holding × List (Nat × Decision)
  | held, [] => (held, [])
  | held, x :: rest =>
    let (held, decisions) := turn names held x
    let (last, later) := turns names held rest
    (last, decisions ++ later)

variable {names : List String}

/-- Placing an interval writes down what is decided in its turn. -/
theorem place_eq_turn (names : List String) (s : Plain) (x : Interval × Nat) :
    s.place names x =
      { intervals := inscribe (turn names s.held x).2 s.intervals
        held := (turn names s.held x).1 } := by
  simp only [place, turn, release]
  cases free? names (s.held.filter fun h => decide (x.1.start ≤ h.stop)) with
  | some found => rfl
  | none =>
    cases victim? (s.held.filter fun h => decide (x.1.start ≤ h.stop)) with
    | some victim => rfl
    | none => rfl

/-- A scan writes down what is decided in its turns. -/
theorem foldl_place_eq_turns (names : List String) (order : List (Interval × Nat)) (s : Plain) :
    order.foldl (place names) s =
      { intervals := inscribe (turns names s.held order).2 s.intervals
        held := (turns names s.held order).1 } := by
  induction order generalizing s with
  | nil => rfl
  | cons x rest ih => rw [List.foldl_cons, ih, place_eq_turn, turns, inscribe_append]

theorem proper_turn {held : List Holding} (proper : Proper names.length held)
    (nonempty : names ≠ []) (x : Interval × Nat) :
    Proper names.length (turn names held x).1 := by
  have placed := proper_place (s := { intervals := [], held }) proper nonempty x
  rwa [place_eq_turn] at placed

/-- The holder of a register is one that was there, or the interval whose turn it is. -/
theorem mem_turn {held : List Holding} {x : Interval × Nat} {h : Holding}
    (isHeld : h ∈ (turn names held x).1) : h ∈ held ∨ h.interval = x.2 ∧ h.stop = x.1.stop := by
  rw [turn] at isHeld
  split at isHeld
  · rcases List.mem_append.mp isHeld with stays | isNew
    · exact .inl (List.mem_of_mem_filter stays)
    · rw [List.mem_singleton] at isNew
      exact .inr ⟨by rw [isNew], by rw [isNew]⟩
  · split at isHeld
    · rcases List.mem_append.mp isHeld with stays | isNew
      · exact .inl (List.mem_of_mem_filter (List.mem_of_mem_erase stays))
      · rw [List.mem_singleton] at isNew
        exact .inr ⟨by rw [isNew], by rw [isNew]⟩
    · exact .inl (List.mem_of_mem_filter isHeld)

/-- In the turn of an interval others are evicted at its start. -/
theorem eq_start_of_mem_turn {held : List Holding} {x : Interval × Nat} {index : Nat}
    {position : Int} (decided : (index, Decision.eviction position) ∈ (turn names held x).2) :
    position = x.1.start := by
  rw [turn] at decided
  split at decided
  · simp at decided
  · split at decided
    · rw [List.mem_cons, List.mem_singleton] at decided
      rcases decided with same | same
      · exact Decision.eviction.inj (congrArg Prod.snd same)
      · cases congrArg Prod.snd same
    · cases decided

/-- In a scan an eviction comes at the start of an interval. -/
theorem exists_start_of_mem_turns {order : List (Interval × Nat)} {held : List Holding}
    {index : Nat} {position : Int}
    (decided : (index, Decision.eviction position) ∈ (turns names held order).2) :
    ∃ x ∈ order, position = x.1.start := by
  induction order generalizing held with
  | nil => cases decided
  | cons y rest ih =>
    simp only [turns, List.mem_append] at decided
    rcases decided with now | later
    · exact ⟨y, List.mem_cons_self, eq_start_of_mem_turn now⟩
    · obtain ⟨x, inRest, isStart⟩ := ih later
      exact ⟨x, List.mem_cons_of_mem _ inRest, isStart⟩

/-- In its turn an interval gets a register. -/
theorem exists_register_turn {held : List Holding} (proper : Proper names.length held)
    (nonempty : names ≠ []) (x : Interval × Nat) :
    ∃ name, (x.2, Decision.register name) ∈ (turn names held x).2 := by
  by_cases room : (held.filter fun h => decide (x.1.start ≤ h.stop)).length < names.length
  · obtain ⟨slot, found⟩ := Holding.freeSlot?_isSome room
    refine ⟨names.getD slot "", ?_⟩
    simp [turn, free?_eq, found]
  · obtain ⟨victim, -, found, -⟩ :=
      place_of_full (s := { intervals := [], held }) (x := x) proper nonempty (Nat.not_lt.mp room)
    have noneFree := (proper.sublist List.filter_sublist).freeSlot?_eq_none (Nat.not_lt.mp room)
    refine ⟨names.getD victim.slot "", ?_⟩
    rw [release] at found
    simp only [turn, free?_eq, noneFree, Option.map_none, found]
    simp

/-- In a scan every interval gets a register. -/
theorem exists_register_turns (nonempty : names ≠ []) {order : List (Interval × Nat)}
    {held : List Holding} (proper : Proper names.length held) {x : Interval × Nat}
    (isPlaced : x ∈ order) :
    ∃ name, (x.2, Decision.register name) ∈ (turns names held order).2 := by
  induction order generalizing held with
  | nil => cases isPlaced
  | cons y rest ih =>
    simp only [turns, List.mem_append]
    rcases List.mem_cons.mp isPlaced with rfl | later
    · obtain ⟨name, decided⟩ := exists_register_turn proper nonempty x
      exact ⟨name, .inl decided⟩
    · obtain ⟨name, decided⟩ := ih (proper_turn proper nonempty y) later
      exact ⟨name, .inr decided⟩

end Plain

/-- Other indices for the intervals, and another count of positions. -/
structure Relabeling where
  index : Nat → Nat
  count : Int → Int

namespace Relabeling

open Holding (Proper)

/-- A holding with the other index and the other end. -/
def holding (r : Relabeling) (h : Holding) : Holding :=
  { h with interval := r.index h.interval, stop := r.count h.stop }

/-- A decision about the other index. -/
def decision (r : Relabeling) (d : Nat × Decision) : Nat × Decision :=
  (r.index d.1, d.2.renumber r.count)

/-- Whether an interval becomes another one. -/
structure Takes (r : Relabeling) (x y : Interval × Nat) : Prop where
  index_eq : y.2 = r.index x.2
  start_eq : y.1.start = r.count x.1.start
  stop_eq : y.1.stop = r.count x.1.stop

variable {r : Relabeling} {positions : Set Int} {names : List String}

theorem filter_holding (mono : StrictMonoOn r.count positions) {held : List Holding}
    {start : Int} (isPosition : start ∈ positions) (ends : ∀ h ∈ held, h.stop ∈ positions) :
    (held.map r.holding).filter (fun h => r.count start ≤ h.stop) =
      (held.filter fun h => start ≤ h.stop).map r.holding := by
  rw [List.filter_map]
  congr 1
  apply List.filter_congr
  intro h isHeld
  exact decide_eq_decide.mpr (mono.le_iff_le isPosition (ends h isHeld))

theorem free?_holding (r : Relabeling) (names : List String) (held : List Holding) :
    Plain.free? names (held.map r.holding) = Plain.free? names held := by
  simp only [Plain.free?, List.all_map, Function.comp_def, holding]

theorem victim?_holding (mono : StrictMonoOn r.count positions) {held : List Holding}
    (ends : ∀ h ∈ held, h.stop ∈ positions) :
    Plain.victim? (held.map r.holding) = (Plain.victim? held).map r.holding := by
  rw [Plain.victim?, Plain.victim?, List.find?_map]
  congr 1
  apply List.find?_congr
  intro h isHeld
  rw [Function.comp_apply, List.all_map, Bool.eq_iff_iff, List.all_eq_true, List.all_eq_true]
  apply forall₂_congr
  intro other isHeld'
  rw [Function.comp_apply, decide_eq_true_eq, decide_eq_true_eq]
  exact mono.le_iff_le (ends other isHeld') (ends h isHeld)

theorem erase_holding {size : Nat} {held : List Holding} (proper : Proper size held)
    {victim : Holding} (isHeld : victim ∈ held) :
    (held.map r.holding).erase (r.holding victim) = (held.erase victim).map r.holding := by
  have proper' : Proper size (held.map r.holding) := by
    constructor
    · rw [List.map_map]
      exact proper.nodup
    · intro h isHolder
      obtain ⟨old, wasHeld, rfl⟩ := List.mem_map.mp isHolder
      exact proper.inPool old wasHeld
  rw [proper'.erase_eq_filter (List.mem_map_of_mem isHeld), proper.erase_eq_filter isHeld,
    List.filter_map]
  rfl

/-- A turn depends on indices and positions only up to a relabeling. -/
theorem turn_relabel (mono : StrictMonoOn r.count positions) {held : List Holding}
    {x y : Interval × Nat} (takes : r.Takes x y) (proper : Proper names.length held)
    (ends : ∀ h ∈ held, h.stop ∈ positions) (isPosition : x.1.start ∈ positions) :
    Plain.turn names (held.map r.holding) y =
      ((Plain.turn names held x).1.map r.holding,
        (Plain.turn names held x).2.map r.decision) := by
  have ends' : ∀ h ∈ held.filter fun h => decide (x.1.start ≤ h.stop), h.stop ∈ positions :=
    fun h stays => ends h (List.mem_of_mem_filter stays)
  have proper' : Proper names.length (held.filter fun h => decide (x.1.start ≤ h.stop)) :=
    proper.sublist List.filter_sublist
  simp only [Plain.turn, takes.index_eq, takes.start_eq, takes.stop_eq,
    filter_holding mono isPosition ends, free?_holding, victim?_holding mono ends']
  cases Plain.free? names (held.filter fun h => decide (x.1.start ≤ h.stop)) with
  | some found => simp [holding, decision, Decision.renumber]
  | none =>
    cases found : Plain.victim? (held.filter fun h => decide (x.1.start ≤ h.stop)) with
    | none => simp
    | some victim =>
      have isHeld := List.mem_of_find?_eq_some found
      simp only [Option.map_some, erase_holding proper' isHeld]
      simp [holding, decision, Decision.renumber]

/-- The turns of a scan depend on indices and positions only up to a relabeling. -/
theorem turns_relabel (mono : StrictMonoOn r.count positions) (nonempty : names ≠ [])
    {order order' : List (Interval × Nat)} (takes : List.Forall₂ r.Takes order order')
    (arePositions : ∀ x ∈ order, x.1.start ∈ positions ∧ x.1.stop ∈ positions)
    {held : List Holding} (proper : Proper names.length held)
    (ends : ∀ h ∈ held, h.stop ∈ positions) :
    Plain.turns names (held.map r.holding) order' =
      ((Plain.turns names held order).1.map r.holding,
        (Plain.turns names held order).2.map r.decision) := by
  induction takes generalizing held with
  | nil => rfl
  | @cons x y rest rest' taken _ ih =>
    rw [List.forall_mem_cons] at arePositions
    have ends' : ∀ h ∈ (Plain.turn names held x).1, h.stop ∈ positions := by
      intro h isHeld
      rcases Plain.mem_turn isHeld with wasHeld | ⟨-, stop_eq⟩
      · exact ends h wasHeld
      · exact stop_eq ▸ arePositions.1.2
    simp only [Plain.turns, turn_relabel mono taken proper ends arePositions.1.1,
      ih arePositions.2 (Plain.proper_turn proper nonempty x) ends', List.map_append]

end Relabeling

/-- What a scan of intervals decides. -/
def decisions (names : List String) (intervals : List Interval) : List (Nat × Decision) :=
  (Plain.turns names [] (Plain.order intervals)).2

/-- The registers in use at the end of a scan, ordered by the ends of their holders. -/
def lastHoldings (names : List String) (intervals : List Interval) : List Holding :=
  Holding.arrange (Plain.turns names [] (Plain.order intervals)).1

/-- An assignment of registers writes down its decisions. -/
theorem assign_eq_inscribe {names : List String} (nonempty : names ≠ [])
    (intervals : List Interval) :
    assign names intervals =
      .ok { intervals := inscribe (decisions names intervals) intervals
            active := lastHoldings names intervals } := by
  obtain ⟨a, assigned, arranges⟩ := exists_assign_arranges nonempty intervals
  rw [Plain.foldl_place_eq_turns] at arranges
  rw [assigned]
  congr 1
  cases a
  exact congrArg₂ Allocation.mk arranges.intervals_eq arranges.active_eq

/-- Intervals that are changed one by one, with their starts and ends in the same order as
before, have their turns in the same order, and the same is decided about them. -/
theorem turns_order_map {names : List String} (nonempty : names ≠ []) {positions : Set Int}
    {count : Int → Int} (mono : StrictMonoOn count positions) {change : Interval → Interval}
    {intervals : List Interval}
    (arePositions : ∀ iv ∈ intervals, iv.start ∈ positions ∧ iv.stop ∈ positions)
    (changes : ∀ iv ∈ intervals,
      (change iv).start = count iv.start ∧ (change iv).stop = count iv.stop) :
    Plain.turns names [] (Plain.order (intervals.map change)) =
      ((Plain.turns names [] (Plain.order intervals)).1.map (Relabeling.mk id count).holding,
        (Plain.turns names [] (Plain.order intervals)).2.map
          (Relabeling.mk id count).decision) := by
  have given {x : Interval × Nat} (inList : x ∈ intervals.zipIdx) : x.1 ∈ intervals :=
    List.mem_of_getElem? (List.mem_zipIdx_iff_getElem?.mp inList)
  have given' {x : Interval × Nat} (inOrder : x ∈ Plain.order intervals) : x.1 ∈ intervals :=
    List.mem_of_getElem? (Plain.mem_order.mp inOrder)
  have sameOrder : Plain.order (intervals.map change) =
      (Plain.order intervals).map (Prod.map change id) := by
    rw [Plain.order, Plain.order, List.zipIdx_map]
    apply Eq.symm
    apply List.map_insertionSort
    intro x inX y inY
    have startX := (changes x.1 (given inX)).1
    have startY := (changes y.1 (given inY)).1
    have before := mono.lt_iff_lt (arePositions x.1 (given inX)).1 (arePositions y.1 (given inY)).1
    have tied := mono.injOn.eq_iff (arePositions x.1 (given inX)).1
      (arePositions y.1 (given inY)).1
    simp only [Plain.Precedes, Prod.map_fst, Prod.map_snd, id_eq, startX, startY, before, tied]
  have takes : List.Forall₂ (Relabeling.mk id count).Takes (Plain.order intervals)
      (Plain.order (intervals.map change)) := by
    rw [sameOrder, List.forall₂_map_right_iff, List.forall₂_same]
    intro x inOrder
    exact ⟨rfl, (changes x.1 (given' inOrder)).1, (changes x.1 (given' inOrder)).2⟩
  exact Relabeling.turns_relabel mono nonempty takes
    (fun x inOrder => arePositions x.1 (given' inOrder)) (Holding.proper_nil _) (by simp)

end RiscBackend.Alloc
