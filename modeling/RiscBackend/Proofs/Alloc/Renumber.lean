/-
# Another count of positions

An analysis and an allocation compare positions and do nothing else with them. When
positions are counted in another way that keeps their order, the same intervals are found
at the other positions, and the same registers are given to them. Only the positions at
which something happens have to keep their order, and the position that stands for an
eviction that never comes has to stay where it is.
-/

import RiscBackend.Proofs.Alloc.Decisions
import RiscBackend.Proofs.Alloc.Extent

namespace RiscBackend.Alloc

/-- An interval with another count of positions. -/
def Interval.renumber (count : Int → Int) (iv : Interval) : Interval :=
  { iv with start := count iv.start, stop := count iv.stop, spillAt := count iv.spillAt }

/-- An occurrence with another count of positions. -/
def Occurrence.renumber (count : Int → Int) (o : Occurrence) : Occurrence :=
  { o with position := count o.position }

/-- All positions of an interval are among the given ones. -/
structure Interval.Within (positions : Set Int) (iv : Interval) : Prop where
  start : iv.start ∈ positions
  stop : iv.stop ∈ positions
  spillAt : iv.spillAt ∈ positions

variable {positions : Set Int} {count : Int → Int}

theorem Interval.renumber_extend (mono : StrictMonoOn count positions) {iv : Interval}
    {position : Int} (within : iv.Within positions) (isPosition : position ∈ positions) :
    (iv.extend position).renumber count = (iv.renumber count).extend (count position) := by
  have longer : (iv.renumber count).stop < count position ↔ iv.stop < position :=
    mono.lt_iff_lt within.stop isPosition
  simp only [extend, longer]
  split <;> rfl

theorem Interval.Within.extend {iv : Interval} {position : Int} (within : iv.Within positions)
    (isPosition : position ∈ positions) : (iv.extend position).Within positions := by
  rw [Interval.extend]
  split
  · exact ⟨within.start, isPosition, within.spillAt⟩
  · exact within

namespace Table

/-- A table with another count of positions. -/
def renumber (count : Int → Int) (t : Table) : Table :=
  { intervals := t.intervals.map (Interval.renumber count) }

/-- All positions of a table are among the given ones. -/
def Within (positions : Set Int) (t : Table) : Prop :=
  ∀ iv ∈ t.intervals, iv.Within positions

variable {t : Table} {position : Int}

theorem Within.touch (within : t.Within positions) (isPosition : position ∈ positions)
    (never_mem : never ∈ positions) (name : String) (access : Access) :
    (t.touch position name access).Within positions := by
  intro iv isMember
  rw [Table.touch] at isMember
  split at isMember
  · obtain ⟨old, wasMember, rfl⟩ := List.mem_map.mp isMember
    split
    · exact (within old wasMember).extend isPosition
    · exact within old wasMember
  · rcases List.mem_append.mp isMember with wasMember | isNew
    · exact within iv wasMember
    · rw [List.mem_singleton] at isNew
      subst isNew
      exact ⟨isPosition, isPosition, never_mem⟩

theorem Within.holdUntil (within : t.Within positions) (isPosition : position ∈ positions)
    (names : List String) : (t.holdUntil names position).Within positions := by
  intro iv isMember
  obtain ⟨old, wasMember, rfl⟩ := List.mem_map.mp isMember
  split
  · exact (within old wasMember).extend isPosition
  · exact within old wasMember

/-- Stretching some of the intervals commutes with another count of positions. -/
theorem map_renumber_extend (mono : StrictMonoOn count positions) (within : t.Within positions)
    (isPosition : position ∈ positions) (stretched : String → Bool) :
    (t.intervals.map fun iv => if stretched iv.name then iv.extend position else iv).map
        (Interval.renumber count) =
      (t.intervals.map (Interval.renumber count)).map fun iv =>
        if stretched iv.name then iv.extend (count position) else iv := by
  rw [List.map_map, List.map_map]
  apply List.map_congr_left
  intro iv isMember
  show Interval.renumber count (if stretched iv.name then _ else iv) =
    if stretched iv.name then _ else iv.renumber count
  split
  · exact Interval.renumber_extend mono (within iv isMember) isPosition
  · rfl

theorem renumber_touch (mono : StrictMonoOn count positions) (fixed : count never = never)
    (within : t.Within positions) (isPosition : position ∈ positions) (name : String)
    (access : Access) :
    (t.touch position name access).renumber count =
      (t.renumber count).touch (count position) name access := by
  have known : ((t.renumber count).intervals.any fun iv => decide (iv.name = name)) =
      t.intervals.any fun iv => decide (iv.name = name) := by
    rw [renumber, List.any_map]
    rfl
  rw [touch, touch, known]
  split
  · have stretched := map_renumber_extend mono within isPosition fun other => other = name
    simp only [decide_eq_true_eq] at stretched
    rw [renumber, renumber, stretched]
  · simp [renumber, Interval.renumber, fixed]

theorem renumber_holdUntil (mono : StrictMonoOn count positions) (within : t.Within positions)
    (isPosition : position ∈ positions) (names : List String) :
    (t.holdUntil names position).renumber count =
      (t.renumber count).holdUntil names (count position) := by
  rw [holdUntil, renumber, map_renumber_extend mono within isPosition names.contains]
  rfl

theorem Within.record (never_mem : never ∈ positions) {occurrences : List Occurrence}
    (arePositions : ∀ o ∈ occurrences, o.position ∈ positions) (within : t.Within positions) :
    (t.record occurrences).Within positions := by
  induction occurrences generalizing t with
  | nil => exact within
  | cons o rest ih =>
    rw [List.forall_mem_cons] at arePositions
    exact ih arePositions.2 (within.touch arePositions.1 never_mem o.name o.access)

/-- Recording occurrences commutes with another count of their positions. -/
theorem renumber_record (mono : StrictMonoOn count positions) (fixed : count never = never)
    (never_mem : never ∈ positions) {occurrences : List Occurrence}
    (arePositions : ∀ o ∈ occurrences, o.position ∈ positions) (within : t.Within positions) :
    (t.record occurrences).renumber count =
      (t.renumber count).record (occurrences.map (Occurrence.renumber count)) := by
  induction occurrences generalizing t with
  | nil => rfl
  | cons o rest ih =>
    rw [List.forall_mem_cons] at arePositions
    have first := renumber_touch mono fixed within arePositions.1 o.name o.access
    have later := ih arePositions.2 (within.touch arePositions.1 never_mem o.name o.access)
    rw [first] at later
    exact later

end Table

/-- Writing decisions down commutes with another count of positions. -/
theorem inscribe_renumber (count : Int → Int) (decided : List (Nat × Decision))
    (intervals : List Interval) :
    inscribe (decided.map (Relabeling.mk id count).decision)
        (intervals.map (Interval.renumber count)) =
      (inscribe decided intervals).map (Interval.renumber count) := by
  have adopt_renumber (d : Decision) (iv : Interval) :
      (iv.renumber count).adopt (d.renumber count) = (iv.adopt d).renumber count := by
    cases d <;> rfl
  induction decided generalizing intervals with
  | nil => rfl
  | cons d rest ih =>
    have first : (intervals.map (Interval.renumber count)).modify d.1
        (·.adopt (d.2.renumber count)) =
          (intervals.modify d.1 (·.adopt d.2)).map (Interval.renumber count) := by
      apply List.ext_getElem?
      intro index
      rw [List.getElem?_modify, List.getElem?_map, List.getElem?_map, List.getElem?_modify]
      cases intervals[index]? with
      | none => rfl
      | some iv => by_cases isOn : d.1 = index <;> simp [isOn, adopt_renumber]
    have later := ih (intervals.modify d.1 (·.adopt d.2))
    rw [← first] at later
    exact later

/-- Decisions that evict within some positions keep intervals within them. -/
theorem within_inscribe {decided : List (Nat × Decision)} {intervals : List Interval}
    (evictions : ∀ index position, (index, Decision.eviction position) ∈ decided →
      position ∈ positions)
    (within : ∀ iv ∈ intervals, iv.Within positions) :
    ∀ iv ∈ inscribe decided intervals, iv.Within positions := by
  intro iv isMember
  obtain ⟨index, found⟩ := List.mem_iff_getElem?.mp isMember
  rw [getElem?_inscribe, Option.map_eq_some_iff] at found
  obtain ⟨old, wasFound, rfl⟩ := found
  have wasWithin := within old (List.mem_of_getElem? wasFound)
  rw [foldl_adopt]
  refine ⟨wasWithin.start, wasWithin.stop, ?_⟩
  dsimp only
  rcases List.mem_cons.mp List.getLastD_mem_cons with same | isEviction
  · rw [same]
    exact wasWithin.spillAt
  · obtain ⟨d, isDecided, evicts⟩ := List.mem_filterMap.mp isEviction
    cases d with
    | register name => cases evicts
    | eviction position =>
      rw [← Option.some.inj evicts]
      exact evictions index position (mem_decisionsOn.mp isDecided)

/-- **Allocation in another count of positions.** The same registers are given, and the same
intervals are evicted, at the other positions. -/
theorem allocate_renumber {names : List String} (nonempty : names ≠ [])
    {intervals : List Interval} (mono : StrictMonoOn count positions)
    (within : ∀ iv ∈ intervals, iv.Within positions) :
    ∃ placed registers registers',
      allocate (.ofNames names) intervals = .ok (placed, registers) ∧
      allocate (.ofNames names) (intervals.map (Interval.renumber count)) =
        .ok (placed.map (Interval.renumber count), registers') ∧
      ∀ iv ∈ placed, iv.Within positions := by
  have turns_eq := turns_order_map nonempty mono
    (fun iv isMember => ⟨(within iv isMember).start, (within iv isMember).stop⟩)
    (fun iv _ => ⟨rfl, rfl⟩ : ∀ iv ∈ intervals,
      (iv.renumber count).start = count iv.start ∧ (iv.renumber count).stop = count iv.stop)
  have inscribed : inscribe (decisions names (intervals.map (Interval.renumber count)))
      (intervals.map (Interval.renumber count)) =
        (inscribe (decisions names intervals) intervals).map (Interval.renumber count) := by
    rw [decisions, turns_eq]
    exact inscribe_renumber count _ _
  have evictions (index : Nat) (position : Int)
      (decided : (index, Decision.eviction position) ∈ decisions names intervals) :
      position ∈ positions := by
    obtain ⟨x, inOrder, rfl⟩ := Plain.exists_start_of_mem_turns decided
    exact (within x.1 (List.mem_of_getElem? (Plain.mem_order.mp inOrder))).start
  have assigned (given : List Interval) : assign (Pool.names (.ofNames names)) given =
      .ok { intervals := inscribe (decisions names given) given
            active := lastHoldings names given } := by
    rw [Pool.names_ofNames]
    exact assign_eq_inscribe nonempty given
  obtain ⟨registers, allocated⟩ := allocate_of_assign (assigned intervals)
  obtain ⟨registers', allocated'⟩ :=
    allocate_of_assign (assigned (intervals.map (Interval.renumber count)))
  rw [inscribed] at allocated'
  exact ⟨_, registers, registers', allocated, allocated', within_inscribe evictions within⟩

end RiscBackend.Alloc
