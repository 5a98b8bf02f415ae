/-
# Tables with an index

A table of intervals is kept as a list in the order of discovery, together with an index from
names to the same intervals: both hold addresses, and an interval is changed where it stands. The
list and the index could come apart, by an address that is entered in one of them only or by a
name that leads to the interval of another. They do not: such a table stays in step with the plain
list of intervals, and a name is looked up in the index with the result that the list gives.
-/

import Mathlib.Data.List.Nodup
import RiscBackend.Proofs.Alloc.Extent

namespace RiscBackend.Alloc

open IR (Block)

/-- Intervals at addresses, the addresses in the order of discovery, and the address of each
name. -/
structure IndexedTable where
  cells : List Interval := []
  order : List Nat := []
  byName : String → Option Nat := fun _ => none

namespace IndexedTable

/-- The interval of a name. -/
def lookup (t : IndexedTable) (name : String) : Option Interval :=
  (t.byName name).bind fun address => t.cells[address]?

/-- The intervals in the order of discovery. -/
def intervals (t : IndexedTable) : List Interval :=
  t.order.filterMap fun address => t.cells[address]?

/-- Record an occurrence of a name. A new interval is entered in the index and in the list. -/
def touch (t : IndexedTable) (position : Int) (name : String) (access : Access) : IndexedTable :=
  match t.byName name with
  | some address => { t with cells := t.cells.modify address fun iv => iv.extend position }
  | none =>
    { cells := t.cells ++
        [{ name, start := position, stop := position, liveIn := access = .read }]
      order := t.order ++ [t.cells.length]
      byName := Function.update t.byName name (some t.cells.length) }

/-- Record occurrences in order. -/
def record (t : IndexedTable) (occurrences : List Occurrence) : IndexedTable :=
  occurrences.foldl (fun t o => t.touch o.position o.name o.access) t

/-- Hold the value of the interval at an address up to a position, if its name is given. -/
def holdCell (names : List String) (position : Int) (cells : List Interval) (address : Nat) :
    List Interval :=
  cells.modify address fun iv => if names.contains iv.name then iv.extend position else iv

/-- Hold the values of the given names at least up to a position, one after another. -/
def holdUntil (t : IndexedTable) (names : List String) (position : Int) : IndexedTable :=
  { t with cells := t.order.foldl (holdCell names position) t.cells }

/-- The table of a block. -/
def analyze (block : Block) (isGlobal : String → Bool) : IndexedTable :=
  record {} (occurrencesFrom isGlobal 0 [] block.body)

/-- An indexed table and a plain one have the same intervals. All addresses are listed, and a name
leads to the place of its interval. -/
structure InStep (t : IndexedTable) (plain : Table) : Prop where
  cells : t.cells = plain.intervals
  order : t.order = List.range t.cells.length
  byName : ∀ name, t.byName name = plain.intervals.findIdx? fun iv => iv.name = name
  distinct : (plain.intervals.map Interval.name).Nodup

end IndexedTable

/-- What can be seen of an indexed table is what can be seen of a plain one: the list and the
look-ups are the same, and a name is looked up with the interval that the list has for it. -/
structure IndexedTable.Agrees (t : IndexedTable) (plain : Table) : Prop where
  intervals : t.intervals = plain.intervals
  lookup : ∀ name, t.lookup name = plain.lookup name
  lookup_iff : ∀ name iv, t.lookup name = some iv ↔ iv ∈ t.intervals ∧ iv.name = name

/-- Changing the interval at the place of a name is changing the intervals of that name. -/
theorem modify_findIdx? {intervals : List Interval} {name : String} {address : Nat}
    (distinct : (intervals.map Interval.name).Nodup)
    (found : intervals.findIdx? (fun iv => iv.name = name) = some address)
    (change : Interval → Interval) :
    intervals.modify address change =
      intervals.map fun iv => if iv.name = name then change iv else iv := by
  obtain ⟨bound, isNamed, -⟩ := List.findIdx?_eq_some_iff_getElem.mp found
  rw [decide_eq_true_eq] at isNamed
  apply List.ext_getElem?
  intro other
  rw [List.getElem?_modify, List.getElem?_map]
  cases here : intervals[other]? with
  | none => rfl
  | some iv =>
    have same_iff : address = other ↔ iv.name = name := by
      constructor
      · rintro rfl
        rw [List.getElem?_eq_getElem bound] at here
        rw [← Option.some.inj here]
        exact isNamed
      · intro sameName
        have bound' : address < (intervals.map Interval.name).length := by simpa using bound
        rw [← List.getElem?_inj bound' distinct, List.getElem?_map, List.getElem?_map, here,
          List.getElem?_eq_getElem bound, Option.map_some, Option.map_some, isNamed, sameName]
    simp [same_iff]

theorem findIdx?_map_of_names {intervals : List Interval} {change : Interval → Interval}
    (keeps : ∀ iv, (change iv).name = iv.name) (name : String) :
    (intervals.map change).findIdx? (fun iv => iv.name = name) =
      intervals.findIdx? fun iv => iv.name = name := by
  rw [List.findIdx?_map]
  simp only [Function.comp_def, keeps]

theorem getElem?_foldl_modify {α : Type} (change : α → α) (l : List α) (count i : Nat) :
    ((List.range count).foldl (fun l address => l.modify address change) l)[i]? =
      if i < count then l[i]?.map change else l[i]? := by
  induction count with
  | zero => rfl
  | succ count ih =>
    rw [List.range_succ, List.foldl_append, List.foldl_cons, List.foldl_nil, List.getElem?_modify,
      ih]
    rcases Nat.lt_trichotomy i count with before | rfl | behind
    · have differ : count ≠ i := by omega
      simp [before, differ, Nat.lt_succ_of_lt before]
    · simp
    · have differ : count ≠ i := by omega
      simp [differ, show ¬ i < count by omega, show ¬ i < count + 1 by omega]

/-- Changing every cell, address by address. -/
theorem foldl_modify_range {α : Type} (change : α → α) (l : List α) :
    (List.range l.length).foldl (fun l address => l.modify address change) l = l.map change := by
  apply List.ext_getElem?
  intro i
  rw [getElem?_foldl_modify, List.getElem?_map]
  split
  · rfl
  · rename_i outside
    rw [List.getElem?_eq_none (Nat.not_lt.mp outside)]
    rfl

/-- Reading every cell, address by address. -/
theorem filterMap_getElem?_range {α : Type} (l : List α) :
    (List.range l.length).filterMap (fun i => l[i]?) = l := by
  induction l with
  | nil => rfl
  | cons a rest ih =>
    rw [List.length_cons, List.range_succ_eq_map, List.filterMap_cons, List.filterMap_map]
    simp only [List.getElem?_cons_zero, Function.comp_def, List.getElem?_cons_succ, ih]

namespace IndexedTable.InStep

variable {t : IndexedTable} {plain : Table}

theorem empty : InStep {} {} where
  cells := rfl
  order := rfl
  byName _ := rfl
  distinct := List.nodup_nil

theorem lookup (inStep : t.InStep plain) (name : String) : t.lookup name = plain.lookup name := by
  rw [IndexedTable.lookup, inStep.byName, inStep.cells, Table.lookup,
    List.find?_eq_bind_findIdx?_getElem?]

theorem intervals (inStep : t.InStep plain) : t.intervals = plain.intervals := by
  rw [IndexedTable.intervals, inStep.order, filterMap_getElem?_range, inStep.cells]

theorem agrees (inStep : t.InStep plain) : t.Agrees plain where
  intervals := inStep.intervals
  lookup := inStep.lookup
  lookup_iff name iv := by
    rw [inStep.lookup, inStep.intervals, Table.lookup_eq_some_iff inStep.distinct]

/-- A change of the cells that is the same change of the plain intervals keeps the index. -/
theorem change (inStep : t.InStep plain) {change : Interval → Interval}
    (keeps : ∀ iv, (change iv).name = iv.name) :
    InStep { t with cells := plain.intervals.map change }
      { intervals := plain.intervals.map change } where
  cells := rfl
  order := by
    rw [inStep.order, inStep.cells, List.length_map]
  byName name := by
    rw [findIdx?_map_of_names keeps]
    exact inStep.byName name
  distinct := by
    rw [List.map_map]
    simpa only [Function.comp_def, keeps] using inStep.distinct

theorem touch (inStep : t.InStep plain) (position : Int) (name : String) (access : Access) :
    (t.touch position name access).InStep (plain.touch position name access) := by
  have known_iff : plain.intervals.any (fun iv => iv.name = name) ↔
      (t.byName name).isSome := by
    rw [inStep.byName, List.findIdx?_isSome]
  rw [IndexedTable.touch, Table.touch]
  cases found : t.byName name with
  | some address =>
    rw [if_pos (known_iff.mpr (found ▸ rfl))]
    rw [inStep.byName] at found
    dsimp only
    rw [inStep.cells, modify_findIdx? inStep.distinct found]
    apply inStep.change
    intro iv
    split <;> simp [Interval.extend_eq]
  | none =>
    have unknown : ¬ plain.intervals.any fun iv => iv.name = name := by
      rw [known_iff, found]
      simp
    rw [if_neg unknown]
    constructor
    case cells => rw [inStep.cells]
    case order => rw [inStep.order, List.length_append, List.length_singleton, List.range_succ]
    case byName =>
      intro other
      dsimp only
      rw [Function.update_apply, List.findIdx?_append, ← inStep.byName, inStep.cells]
      by_cases same : other = name
      · simp [same, found]
      · have differ : name ≠ other := fun same' => same same'.symm
        simp [same, differ]
    case distinct =>
      rw [List.map_append, List.map_singleton, ← List.concat_eq_append]
      apply List.Nodup.concat _ inStep.distinct
      simpa using unknown

theorem record (inStep : t.InStep plain) (occurrences : List Occurrence) :
    (t.record occurrences).InStep (plain.record occurrences) := by
  induction occurrences generalizing t plain with
  | nil => exact inStep
  | cons o rest ih => exact ih (inStep.touch o.position o.name o.access)

theorem holdUntil (inStep : t.InStep plain) (names : List String) (position : Int) :
    (t.holdUntil names position).InStep (plain.holdUntil names position) := by
  have cells : t.order.foldl (holdCell names position) t.cells = plain.intervals.map fun iv =>
      if names.contains iv.name then iv.extend position else iv := by
    rw [inStep.order, inStep.cells]
    exact foldl_modify_range _ plain.intervals
  rw [IndexedTable.holdUntil, cells]
  apply inStep.change
  intro iv
  split <;> simp [Interval.extend_eq]

end IndexedTable.InStep

/-- The analysis of a block with an index stays in step with the plain one. -/
theorem inStep_analyze (block : Block) (isGlobal : String → Bool) :
    (IndexedTable.analyze block isGlobal).InStep (analyze block isGlobal) := by
  rw [analyze_eq_record]
  exact IndexedTable.InStep.empty.record _

end RiscBackend.Alloc
