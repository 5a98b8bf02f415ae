/-
# Intervals in the order of discovery

The walk over a block meets positions in ascending order, so a name that is met later opens its
interval no earlier. The table of a block therefore is in the order in which the linear scan places
intervals, and it stays so when values are held longer, since that moves ends only.
-/

import Mathlib.Order.Bounds.Basic
import RiscBackend.Alloc.LinearScan
import RiscBackend.Proofs.Alloc.FirstMention
import RiscBackend.Proofs.Alloc.Indexed

namespace RiscBackend.Alloc

open IR (Instruction Block)

/-- A name occurs as a local at a position of a block. -/
def OccursAt (block : Block) (isGlobal : String → Bool) (name : String) (position : Int) : Prop :=
  ∃ done i rest, block.body = done ++ i :: rest ∧ position = done.length ∧
    MentionsLocal isGlobal done i name

section Extents

variable {block : Block} {isGlobal : String → Bool} {name : String} {position : Int}

theorem occursAt_iff :
    OccursAt block isGlobal name position ↔
      ∃ o ∈ occurrencesFrom isGlobal 0 [] block.body, o.name = name ∧ o.position = position := by
  constructor
  · rintro ⟨done, i, rest, body_eq, rfl, mentions⟩
    obtain ⟨access, isTouch⟩ := exists_mem_touchesAfter.mpr mentions
    refine ⟨⟨done.length, name, access⟩, ?_, rfl, rfl⟩
    exact mem_occurrencesFrom.mpr ⟨done, i, rest, body_eq, by simp, isTouch⟩
  · rintro ⟨o, isMember, rfl, rfl⟩
    obtain ⟨done, i, rest, body_eq, position_eq, isTouch⟩ := mem_occurrencesFrom.mp isMember
    exact ⟨done, i, rest, body_eq, by omega, exists_mem_touchesAfter.mp ⟨o.access, isTouch⟩⟩

/-- An interval goes from the first to the last occurrence of its name. -/
theorem spans_of_mem_analyze {iv : Interval} (isMember : iv ∈ (analyze block isGlobal).intervals) :
    IsLeast {p | OccursAt block isGlobal iv.name p} iv.start ∧
      IsGreatest {p | OccursAt block isGlobal iv.name p} iv.stop ∧
      iv.spillAt = never ∧ iv.register = "" := by
  have found := Table.lookup_name_of_mem (nodup_names_analyze block isGlobal) isMember
  rw [analyze_eq_record, lookup_record] at found
  obtain ⟨first, stop, isFirst, iv_eq, -, bound, last, inBlock, isLast, stop_eq⟩ :=
    extent_eq_some found
  obtain ⟨-, -, -, -, -, -, least⟩ := find?_occurrencesFrom isFirst
  have start_eq : iv.start = first.position := by rw [iv_eq]; rfl
  have stop_eq' : iv.stop = last.position := by rw [iv_eq]; exact stop_eq
  have fresh : iv.spillAt = never ∧ iv.register = "" := by rw [iv_eq]; exact ⟨rfl, rfl⟩
  have isFirstName : first.name = iv.name := by simpa using List.find?_some isFirst
  refine ⟨⟨?_, ?_⟩, ⟨?_, ?_⟩, fresh⟩
  · exact occursAt_iff.mpr ⟨first, List.mem_of_find?_eq_some isFirst, isFirstName, start_eq.symm⟩
  · intro p occurs
    obtain ⟨o, inBlock, sameName, rfl⟩ := occursAt_iff.mp occurs
    exact start_eq ▸ least o inBlock sameName
  · exact occursAt_iff.mpr ⟨last, inBlock, isLast, stop_eq'.symm⟩
  · intro p occurs
    obtain ⟨o, inBlock, sameName, rfl⟩ := occursAt_iff.mp occurs
    rw [stop_eq', ← stop_eq]
    exact bound o inBlock sameName

/-- The names with an interval are those that occur as locals. -/
theorem exists_mem_analyze_iff :
    (∃ iv ∈ (analyze block isGlobal).intervals, iv.name = name) ↔
      ∃ position, OccursAt block isGlobal name position := by
  constructor
  · rintro ⟨iv, isMember, rfl⟩
    exact ⟨iv.start, (spans_of_mem_analyze isMember).1.1⟩
  · rintro ⟨position, occurs⟩
    obtain ⟨o, inBlock, rfl, -⟩ := occursAt_iff.mp occurs
    obtain ⟨iv, found⟩ := extent_isSome_of_mem inBlock
    rw [← lookup_record, ← analyze_eq_record] at found
    exact ⟨iv, Table.mem_of_lookup found, Table.name_of_lookup found⟩

end Extents

section Order

variable {isGlobal : String → Bool}

/-- The walk meets positions in ascending order. -/
theorem pairwise_occurrencesFrom (position : Int) (declared : List String)
    (body : List Instruction) :
    (occurrencesFrom isGlobal position declared body).Pairwise
      fun a b => a.position ≤ b.position := by
  induction body generalizing position declared with
  | nil => exact .nil
  | cons i rest ih =>
    rw [occurrencesFrom, List.pairwise_append]
    refine ⟨?_, ih _ _, ?_⟩
    · exact List.pairwise_map.mpr (List.pairwise_of_forall fun _ _ => Int.le_refl position)
    · intro a isHere b isLater
      obtain ⟨touch, -, rfl⟩ := List.mem_map.mp isHere
      obtain ⟨done, -, -, -, position_eq, -⟩ := mem_occurrencesFrom.mp isLater
      dsimp only
      omega

/-- Recording an occurrence that is not before the intervals keeps their order. -/
theorem Table.pairwise_touch {t : Table} {o : Occurrence}
    (ordered : t.intervals.Pairwise fun a b => a.start ≤ b.start)
    (behind : ∀ iv ∈ t.intervals, iv.start ≤ o.position) :
    (t.touch o.position o.name o.access).intervals.Pairwise fun a b => a.start ≤ b.start := by
  rw [Table.touch]
  split
  · have sameStart (iv : Interval) :
        (if iv.name = o.name then iv.extend o.position else iv).start = iv.start := by
      split <;> simp [Interval.extend_eq]
    rw [List.pairwise_map]
    simpa only [sameStart] using ordered
  · rw [List.pairwise_append]
    refine ⟨ordered, List.pairwise_singleton _ _, ?_⟩
    intro iv isMember new isNew
    rw [List.mem_singleton.mp isNew]
    exact behind iv isMember

/-- An interval of a table that is recorded starts at an occurrence. -/
theorem exists_start_eq_of_mem_record {occurrences : List Occurrence} {iv : Interval}
    (isMember : iv ∈ (({} : Table).record occurrences).intervals) :
    ∃ o ∈ occurrences, iv.start = o.position := by
  have found := Table.lookup_name_of_mem (nodup_names_record occurrences) isMember
  rw [lookup_record] at found
  obtain ⟨first, stop, isFirst, rfl, -⟩ := extent_eq_some found
  exact ⟨first, List.mem_of_find?_eq_some isFirst, rfl⟩

theorem pairwise_record {occurrences : List Occurrence}
    (ascending : occurrences.Pairwise fun a b => a.position ≤ b.position) :
    (({} : Table).record occurrences).intervals.Pairwise fun a b => a.start ≤ b.start := by
  induction occurrences using List.reverseRecOn with
  | nil => exact .nil
  | append_singleton earlier o ih =>
    rw [List.pairwise_append] at ascending
    obtain ⟨earlierAscending, -, before⟩ := ascending
    rw [Table.record_append]
    apply Table.pairwise_touch (ih earlierAscending)
    intro iv isMember
    obtain ⟨x, isEarlier, start_eq⟩ := exists_start_eq_of_mem_record isMember
    rw [start_eq]
    exact before x isEarlier o (List.mem_singleton_self o)

/-- Intervals that are in the order of their starts are placed in that order. -/
theorem scanOrder_of_pairwise {intervals : List Interval}
    (ordered : intervals.Pairwise fun a b => a.start ≤ b.start) :
    scanOrder intervals = intervals.zipIdx := by
  apply List.mergeSort_of_pairwise
  rw [← List.zipIdx_map_fst 0 intervals, List.pairwise_map] at ordered
  simpa using ordered

end Order

/-- What the scan can rely on in a table: there is one interval per name, which is found under that
name, and the intervals are in the order in which they will be placed. -/
structure Table.InScanOrder (t : Table) : Prop where
  distinct : (t.intervals.map Interval.name).Nodup
  lookup_iff : ∀ name iv, t.lookup name = some iv ↔ iv ∈ t.intervals ∧ iv.name = name
  ascending : t.intervals.Pairwise fun a b => a.start ≤ b.start
  placed : scanOrder t.intervals = t.intervals.zipIdx

namespace Table

variable {t : Table}

theorem inScanOrder_of_ascending (distinct : (t.intervals.map Interval.name).Nodup)
    (ascending : t.intervals.Pairwise fun a b => a.start ≤ b.start) : t.InScanOrder where
  distinct := distinct
  lookup_iff _ _ := lookup_eq_some_iff distinct
  ascending := ascending
  placed := scanOrder_of_pairwise ascending

/-- Holding values moves the ends of their intervals up to a position and nothing else. -/
theorem intervals_holdUntil (t : Table) (names : List String) (position : Int) :
    (t.holdUntil names position).intervals = t.intervals.map fun iv =>
      { iv with stop := if iv.name ∈ names then max iv.stop position else iv.stop } := by
  apply List.map_congr_left
  intro iv _
  by_cases isHeld : iv.name ∈ names
  · simp [isHeld, Interval.extend_eq]
  · simp [isHeld]

theorem InScanOrder.holdUntil (inOrder : t.InScanOrder) (names : List String) (position : Int) :
    (t.holdUntil names position).InScanOrder := by
  apply inScanOrder_of_ascending
  · rw [intervals_holdUntil, List.map_map]
    exact inOrder.distinct
  · rw [intervals_holdUntil, List.pairwise_map]
    exact inOrder.ascending

end Table

theorem inScanOrder_analyze (block : Block) (isGlobal : String → Bool) :
    (analyze block isGlobal).InScanOrder := by
  apply Table.inScanOrder_of_ascending (nodup_names_analyze block isGlobal)
  rw [analyze_eq_record]
  exact pairwise_record (pairwise_occurrencesFrom 0 [] block.body)

/-- **The analysis of a block finds the extents of its locals, in scan order.** There is one
interval for every name that occurs as a local, from its first to its last occurrence, in no
register and never evicted. Holding values only moves ends upwards, so the table stays in scan
order. A table that is kept as a list with an index shows the same, in both of them. -/
theorem analyze_finds_extents_in_scan_order (block : Block) (isGlobal : String → Bool) :
    (∀ name, (∃ iv ∈ (analyze block isGlobal).intervals, iv.name = name) ↔
      ∃ position, OccursAt block isGlobal name position) ∧
    (∀ iv ∈ (analyze block isGlobal).intervals,
      IsLeast {p | OccursAt block isGlobal iv.name p} iv.start ∧
        IsGreatest {p | OccursAt block isGlobal iv.name p} iv.stop ∧
        iv.spillAt = never ∧ iv.register = "") ∧
    (analyze block isGlobal).InScanOrder ∧
    (IndexedTable.analyze block isGlobal).Agrees (analyze block isGlobal) ∧
    ∀ names position,
      ((analyze block isGlobal).holdUntil names position).intervals =
        (analyze block isGlobal).intervals.map (fun iv =>
          { iv with stop := if iv.name ∈ names then max iv.stop position else iv.stop }) ∧
      ((analyze block isGlobal).holdUntil names position).InScanOrder ∧
      ((IndexedTable.analyze block isGlobal).holdUntil names position).Agrees
        ((analyze block isGlobal).holdUntil names position) := by
  have inOrder := inScanOrder_analyze block isGlobal
  have inStep := inStep_analyze block isGlobal
  refine ⟨fun _ => exists_mem_analyze_iff, fun _ => spans_of_mem_analyze, inOrder,
    inStep.agrees, ?_⟩
  intro names position
  exact ⟨Table.intervals_holdUntil _ names position, inOrder.holdUntil names position,
    (inStep.holdUntil names position).agrees⟩

-- The global `x` becomes a local at position 1, and the global `y` never does.
example :
    (analyze { label := "entry", body := [.load "t" "x", .alloca "x", .store (.const 3) "x",
        .load "u" "x", .store (.name "u") "y", .ret (.name "u")] }
      (fun name => name = "x" || name = "y")).intervals.map
        (fun iv => (iv.name, iv.start, iv.stop)) = [("t", 0, 0), ("x", 1, 3), ("u", 3, 5)] := by
  decide

end RiscBackend.Alloc
