/-
# The plan of a block

Before a block is emitted its intervals are computed, those of crossing names are held
until the end of the block, and all of them get registers. `Planned` collects what the
emitted code relies on: where intervals open, what they cover, that two of them are
never in one register at the same position, and that no eviction lies at the end of
the block.
-/

import RiscBackend.Lower.Block
import RiscBackend.Proofs.Alloc.Discovery
import RiscBackend.Proofs.Alloc.FirstMention
import RiscBackend.Proofs.Alloc.Residence

namespace RiscBackend.Lower

open IR (Instruction Block)
open Alloc

/-- What a table of placed intervals promises about a block. -/
structure Planned (registers : List String) (isGlobal : String → Bool) (crossing : List String)
    (b : Block) (t : Table) : Prop where
  nodup : (t.intervals.map Interval.name).Nodup
  register_mem : ∀ iv ∈ t.intervals, iv.register ∈ registers
  start_le_stop : ∀ iv ∈ t.intervals, iv.start ≤ iv.stop
  start_le_spillAt : ∀ iv ∈ t.intervals, iv.start ≤ iv.spillAt
  spillAt_lt : ∀ iv ∈ t.intervals, iv.spillAt = never ∨ iv.spillAt < b.body.length
  opens : ∀ iv ∈ t.intervals, ∃ done i rest, b.body = done ++ i :: rest ∧
    iv.start = done.length ∧
    (touchesAfter isGlobal done i).find? (fun touch => touch.1 = iv.name) =
      some (iv.name, if iv.liveIn then .read else .write)
  covers : ∀ done i rest, b.body = done ++ i :: rest → ∀ touch ∈ touchesAfter isGlobal done i,
    ∃ iv ∈ t.intervals, iv.name = touch.1 ∧ iv.start ≤ done.length ∧ done.length ≤ iv.stop
  apart : ∀ iv ∈ t.intervals, ∀ jv ∈ t.intervals, iv.name ≠ jv.name →
    iv.register = jv.register → Disjoint iv.residence jv.residence
  held : fallsThrough b = true → ∀ iv ∈ t.intervals, iv.name ∈ crossing →
    b.body.length ≤ iv.stop

/-- Holding values changes the ends of intervals only, and only for crossing names
of a block that falls through. -/
theorem mem_blockTable {crossing : List String} {env : Env} {b : Block} {iv : Interval} :
    iv ∈ (blockTable crossing env b).intervals ↔
      ∃ found ∈ (analyze b env.isGlobal).intervals, iv =
        if fallsThrough b = true ∧ found.name ∈ crossing then found.extend b.body.length
        else found := by
  rw [blockTable]
  split
  · rename_i falls
    simp [Table.holdUntil, falls, eq_comm]
  · rename_i stays
    simp [stays]

/-- An interval that the analysis finds is kept up to its end at least. -/
theorem exists_mem_blockTable {crossing : List String} {env : Env} {b : Block} {found : Interval}
    (isFound : found ∈ (analyze b env.isGlobal).intervals) :
    ∃ stop, found.stop ≤ stop ∧
      ({ found with stop } : Interval) ∈ (blockTable crossing env b).intervals := by
  by_cases isHeld : fallsThrough b = true ∧ found.name ∈ crossing
  · refine ⟨max found.stop b.body.length, Int.le_max_left _ _,
      mem_blockTable.mpr ⟨found, isFound, ?_⟩⟩
    rw [if_pos isHeld, Interval.extend_eq]
  · refine ⟨found.stop, Int.le_refl _, mem_blockTable.mpr ⟨found, isFound, ?_⟩⟩
    rw [if_neg isHeld]

theorem inScanOrder_blockTable (crossing : List String) (env : Env) (b : Block) :
    (blockTable crossing env b).InScanOrder := by
  rw [blockTable]
  split
  · exact (inScanOrder_analyze b env.isGlobal).holdUntil crossing b.body.length
  · exact inScanOrder_analyze b env.isGlobal

theorem nodup_names_blockTable (crossing : List String) (env : Env) (b : Block) :
    ((blockTable crossing env b).intervals.map Interval.name).Nodup :=
  (inScanOrder_blockTable crossing env b).distinct

/-- The intervals of a block need no sorting. The sort does not reduce, so closed runs are
computed after a rewrite with this equation. -/
theorem scanOrder_blockTable (crossing : List String) (env : Env) (b : Block) :
    scanOrder (blockTable crossing env b).intervals =
      (blockTable crossing env b).intervals.zipIdx :=
  (inScanOrder_blockTable crossing env b).placed

/-- The intervals of a block keep the position, the name and the flag that the
analysis found. -/
theorem blockTable_opens {crossing : List String} {env : Env} {b : Block} {iv : Interval}
    (isMember : iv ∈ (blockTable crossing env b).intervals) :
    iv.spillAt = never ∧ (fallsThrough b = true → iv.name ∈ crossing → b.body.length ≤ iv.stop) ∧
      ∃ done i rest, b.body = done ++ i :: rest ∧ iv.start = done.length ∧
        (touchesAfter env.isGlobal done i).find? (fun touch => touch.1 = iv.name) =
          some (iv.name, if iv.liveIn then .read else .write) := by
  obtain ⟨found, isFound, rfl⟩ := mem_blockTable.mp isMember
  obtain ⟨fresh, opens⟩ := analyze_opens isFound
  split
  · rw [Interval.extend_eq]
    exact ⟨fresh, fun _ _ => Int.le_max_right _ _, opens⟩
  · rename_i notHeld
    exact ⟨fresh, fun falls crosses => absurd ⟨falls, crosses⟩ notHeld, opens⟩

theorem start_le_stop_of_mem_blockTable {crossing : List String} {env : Env} {b : Block}
    {iv : Interval} (isMember : iv ∈ (blockTable crossing env b).intervals) :
    iv.start ≤ iv.stop := by
  obtain ⟨found, isFound, rfl⟩ := mem_blockTable.mp isMember
  have ordered := start_le_stop_of_mem_analyze isFound
  split
  · rw [Interval.extend_eq]
    exact Int.le_trans ordered (Int.le_max_left _ _)
  · exact ordered

theorem start_lt_of_mem_blockTable {crossing : List String} {env : Env} {b : Block}
    {iv : Interval} (isMember : iv ∈ (blockTable crossing env b).intervals) :
    iv.start < b.body.length := by
  obtain ⟨-, -, done, i, rest, body_eq, start_eq, -⟩ := blockTable_opens isMember
  rw [start_eq, body_eq, List.length_append, List.length_cons]
  omega

/-- **Every block of usual length has a plan.** The bound on the length keeps the
positions of the block apart from the one that stands for no eviction. -/
theorem planned_of_allocate {registers crossing : List String} {env : Env} {b : Block}
    {placed : List Interval} {pool : Pool} (nonempty : registers ≠ []) (nodup : registers.Nodup)
    (short : (b.body.length : Int) < never)
    (allocated : allocate (.ofNames registers) (blockTable crossing env b).intervals =
      .ok (placed, pool)) :
    Planned registers env.isGlobal crossing b { intervals := placed } := by
  have sound := allocated_of_allocate nonempty nodup allocated
  exact
    { nodup := by
        rw [sound.map_name]
        exact nodup_names_blockTable crossing env b
      register_mem := by
        intro iv isPlaced
        obtain ⟨-, -, -, isRegister, -⟩ := sound.origin_of_mem isPlaced
        exact isRegister
      start_le_stop := by
        intro iv isPlaced
        obtain ⟨given, isGiven, ⟨-, start_eq, stop_eq, -⟩, -⟩ := sound.origin_of_mem isPlaced
        rw [start_eq, stop_eq]
        exact start_le_stop_of_mem_blockTable isGiven
      start_le_spillAt := by
        intro iv isPlaced
        obtain ⟨given, isGiven, ⟨-, start_eq, -⟩, -, kept | ⟨le, -⟩⟩ :=
          sound.origin_of_mem isPlaced
        · have bound := start_lt_of_mem_blockTable isGiven
          rw [kept, (blockTable_opens isGiven).1, start_eq]
          omega
        · rw [start_eq]
          exact le
      spillAt_lt := by
        intro iv isPlaced
        obtain ⟨given, isGiven, -, -, kept | ⟨-, other, isOther, evicted⟩⟩ :=
          sound.origin_of_mem isPlaced
        · exact .inl (kept.trans (blockTable_opens isGiven).1)
        · exact .inr (evicted ▸ start_lt_of_mem_blockTable isOther)
      opens := by
        intro iv isPlaced
        obtain ⟨given, isGiven, ⟨name_eq, start_eq, -, liveIn_eq⟩, -⟩ :=
          sound.origin_of_mem isPlaced
        rw [name_eq, start_eq, liveIn_eq]
        exact (blockTable_opens isGiven).2.2
      covers := by
        intro done i rest body_eq touch isTouch
        obtain ⟨found, isFound, name_eq, start_le, le_stop⟩ := analyze_covers body_eq isTouch
        obtain ⟨stop, stop_le, isGiven⟩ := exists_mem_blockTable isFound
        obtain ⟨iv, isPlaced, iv_name, iv_start, iv_stop, -⟩ := sound.exists_placed isGiven
        refine ⟨iv, isPlaced, iv_name.trans name_eq, ?_, ?_⟩
        · rw [iv_start]
          exact start_le
        · rw [iv_stop]
          exact Int.le_trans le_stop stop_le
      apart := fun iv isPlaced jv isPlaced' => sound.disjoint_of_name_ne isPlaced isPlaced'
      held := by
        intro falls iv isPlaced crosses
        obtain ⟨given, isGiven, ⟨name_eq, -, stop_eq, -⟩, -⟩ := sound.origin_of_mem isPlaced
        rw [stop_eq]
        exact (blockTable_opens isGiven).2.1 falls (name_eq ▸ crosses) }

end RiscBackend.Lower
