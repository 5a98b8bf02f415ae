/-
# How lowering can fail

The lowering has faults for what it cannot do: an operand or a result that is missing, an operation
that it does not know, a register that is not to be had, a frame without room. When the
instructions are checked and the registers are distinct, of all these only the last remains.
`FailsOnly` says that a step has no other faults than those of a kind, and there is one rule for
each way to compose steps.
-/

import RiscBackend.Proofs.Alloc.Residence
import RiscBackend.Proofs.IR.Checked
import RiscBackend.Proofs.Lower.Tasks

namespace RiscBackend.Lower

open IR (Operand Instruction Block Func Global Module)
open Alloc (Interval)
open Asm (Line Instr)
open Emit

namespace Emit

variable {α β : Type} {kind kind' : BlockFault → Prop} {step : Emit α}

/-- All faults of a step are of a kind. -/
def FailsOnly (kind : BlockFault → Prop) (step : Emit α) : Prop :=
  ∀ env fault, (step.run env).outcome = .error fault → kind fault

/-- A step without faults. -/
theorem failsOnly_of_ok (succeeds : ∀ env, ∃ a, (step.run env).outcome = .ok a) :
    FailsOnly kind step := by
  intro env fault fails
  obtain ⟨a, outcome⟩ := succeeds env
  cases fails.symm.trans outcome

theorem failsOnly_pure (a : α) : FailsOnly kind (pure a) :=
  failsOnly_of_ok fun _ => ⟨a, rfl⟩

theorem failsOnly_line (l : Line) : FailsOnly kind (line l) :=
  failsOnly_of_ok fun _ => ⟨(), rfl⟩

theorem failsOnly_instr (i : Instr) : FailsOnly kind (instr i) :=
  failsOnly_line _

theorem failsOnly_diagnose (d : Diagnostic) : FailsOnly kind (diagnose d) :=
  failsOnly_of_ok fun _ => ⟨(), rfl⟩

theorem failsOnly_modifyEnv (update : Env → Env) : FailsOnly kind (modifyEnv update) :=
  failsOnly_of_ok fun _ => ⟨(), rfl⟩

theorem FailsOnly.mono (fails : FailsOnly kind step) (wider : ∀ fault, kind fault → kind' fault) :
    FailsOnly kind' step :=
  fun env fault outcome => wider fault (fails env fault outcome)

theorem FailsOnly.bind {next : α → Emit β} (first : FailsOnly kind step)
    (second : ∀ a, FailsOnly kind (next a)) : FailsOnly kind (step >>= next) := by
  intro env fault fails
  cases outcome : (step.run env).outcome with
  | error fault' =>
    rw [run_bind_of_error outcome] at fails
    cases fails
    exact first env fault outcome
  | ok a =>
    rw [run_bind_of_ok outcome] at fails
    exact second a _ fault fails

theorem failsOnly_getEnv_bind {next : Env → Emit β} (goesOn : ∀ env, FailsOnly kind (next env)) :
    FailsOnly kind (getEnv >>= next) :=
  fun env => goesOn env env

theorem FailsOnly.ite {c : Prop} [Decidable c] {other : Emit α} (first : FailsOnly kind step)
    (second : FailsOnly kind other) : FailsOnly kind (if c then step else other) := by
  split
  · exact first
  · exact second

theorem failsOnly_forEach {body : α → Emit Unit} {members : List α}
    (each : ∀ a ∈ members, FailsOnly kind (body a)) : FailsOnly kind (forEach body members) :=
  forEach_of_forall_mem (failsOnly_pure ()) (fun first second => first.bind fun _ => second) each

end Emit

/-- The frame of a function has no room, which is found in one of its blocks. -/
inductive BlockFault.Exhausted (function block : String) : BlockFault → Prop
  | intro (name : String) (size : Int64) :
      Exhausted function block ⟨function, block, .placement (.exhausted name size)⟩

/-- A slot is refused when the frame is full. -/
theorem Env.slotFor_eq_error {env : Env} {name : String} {fault : PlacementFault}
    (refused : env.slotFor name = .error fault) : fault = .exhausted name env.frame.size := by
  rw [Env.slotFor, Frame.slotFor] at refused
  split at refused
  · cases refused
  · rw [Frame.allocate] at refused
    dsimp only at refused
    split at refused
    · cases refused
      rfl
    · cases refused

namespace Site

variable {site : Site}

/-- The frame is all that can refuse a slot. -/
theorem failsOnly_slotFor (name : String) :
    FailsOnly (BlockFault.Exhausted site.function site.block) (site.slotFor name) := by
  intro env fault fails
  cases given : env.slotFor name with
  | ok slot =>
    rw [run_slotFor_of_ok given] at fails
    cases fails
  | error refusal =>
    rw [run_slotFor_of_error given] at fails
    cases fails
    rw [Env.slotFor_eq_error given]
    exact .intro name env.frame.size

theorem failsOnly_unresolved {kind : BlockFault → Prop} (fault : PlacementFault) :
    FailsOnly kind (site.unresolved fault) :=
  failsOnly_of_ok fun env => ⟨(), by rw [run_unresolved_eq]⟩

theorem failsOnly_spill (iv : Interval) :
    FailsOnly (BlockFault.Exhausted site.function site.block) (site.spill iv) := by
  refine .ite (failsOnly_pure ()) ?_
  refine (failsOnly_slotFor iv.name).bind fun offset => (failsOnly_line _).bind fun _ => ?_
  exact .ite (failsOnly_diagnose _) (failsOnly_pure ())

theorem failsOnly_reload {kind : BlockFault → Prop} (iv : Interval) :
    FailsOnly kind (site.reload iv) := by
  refine .ite (failsOnly_pure ()) (failsOnly_getEnv_bind fun env => ?_)
  split
  · exact failsOnly_unresolved _
  · exact failsOnly_line _

theorem failsOnly_writeBack (iv : Interval) :
    FailsOnly (BlockFault.Exhausted site.function site.block) (site.writeBack iv) :=
  .ite (failsOnly_pure ()) ((failsOnly_slotFor iv.name).bind fun _ => failsOnly_line _)

theorem failsOnly_loadLocal {kind : BlockFault → Prop} (rd name : String) :
    FailsOnly kind (site.loadLocal rd name) := by
  rw [loadLocal]
  split
  · exact (failsOnly_unresolved _).bind fun _ => failsOnly_instr _
  · refine .ite (failsOnly_instr _) (failsOnly_getEnv_bind fun env => ?_)
    split
    · exact failsOnly_instr _
    · exact (failsOnly_unresolved _).bind fun _ => failsOnly_instr _

theorem failsOnly_loadOperand {kind : BlockFault → Prop} (rd : String) (operand : Operand) :
    FailsOnly kind (site.loadOperand rd operand) := by
  cases operand with
  | const value => exact failsOnly_instr _
  | hole => exact failsOnly_pure ()
  | name name =>
    refine failsOnly_getEnv_bind fun env => .ite ?_ (failsOnly_loadLocal rd name)
    exact (failsOnly_instr _).bind fun _ => failsOnly_instr _

theorem failsOnly_storeLocal (name rs : String) :
    FailsOnly (BlockFault.Exhausted site.function site.block) (site.storeLocal name rs) := by
  rw [storeLocal]
  split
  · exact failsOnly_unresolved _
  · exact .ite (failsOnly_instr _) ((failsOnly_slotFor name).bind fun _ => failsOnly_instr _)

end Site

/-- A task fails for want of room only. -/
theorem Task.failsOnly (t : Task) :
    FailsOnly (BlockFault.Exhausted t.site.function t.site.block) t.emit := by
  obtain ⟨site, action⟩ := t
  cases action with
  | spill iv => exact site.failsOnly_spill iv
  | reload iv => exact site.failsOnly_reload iv
  | writeBack iv => exact site.failsOnly_writeBack iv
  | read rd operand => exact site.failsOnly_loadOperand rd operand
  | compute op => exact failsOnly_instr _
  | write name => exact site.failsOnly_storeLocal name _
  | assign name =>
    refine failsOnly_getEnv_bind fun env => .ite ?_ (site.failsOnly_storeLocal name _)
    exact (failsOnly_instr _).bind fun _ => failsOnly_instr _
  | declare name => exact failsOnly_modifyEnv _

variable {config : Config}

/-- A block can be entered when there are distinct registers. -/
theorem exists_ofBlock (nonempty : config.registers ≠ []) (nodup : config.registers.Nodup)
    (function : String) (crossing : List String) (env : Env) (b : Block) :
    ∃ site, Site.ofBlock config function crossing env b = .ok site := by
  obtain ⟨placed, pool, allocated, -⟩ :=
    Alloc.exists_allocate (blockTable crossing env b).intervals nonempty nodup
  rw [Site.ofBlock, allocated]
  exact ⟨_, rfl⟩

/-- A block of checked instructions fails for want of room only. -/
theorem failsOnly_lowerBlock (nonempty : config.registers ≠ []) (nodup : config.registers.Nodup)
    (function : String) (crossing : List String) {b : Block}
    (wellFormed : ∀ i ∈ b.body, i.WellFormed) :
    FailsOnly (BlockFault.Exhausted function b.label) (lowerBlock config function crossing b) := by
  rw [lowerBlock_eq wellFormed]
  refine (failsOnly_line _).bind fun _ => failsOnly_getEnv_bind fun env => ?_
  obtain ⟨site, entered⟩ := exists_ofBlock nonempty nodup function crossing env b
  rw [entered]
  obtain ⟨intervals, pool, -, rfl⟩ := Site.ofBlock_eq_ok entered
  refine failsOnly_forEach fun t isTask => ?_
  have fails := t.failsOnly
  rcases Site.mem_blockTasks isTask with ⟨done, i, rest, -, site_eq, -⟩ | ⟨site_eq, -⟩ <;>
  · rw [site_eq] at fails
    exact fails

/-- A function of checked instructions fails for want of room in one of its blocks. -/
theorem failsOnly_lowerFunc (nonempty : config.registers ≠ []) (nodup : config.registers.Nodup)
    {f : Func} (wellFormed : ∀ b ∈ f.blocks, ∀ i ∈ b.body, i.WellFormed) :
    FailsOnly (fun fault => ∃ b ∈ f.blocks, fault.Exhausted f.name b.label)
      (lowerFunc config f) := by
  refine (failsOnly_modifyEnv _).bind fun _ => (failsOnly_line _).bind fun _ => ?_
  refine (failsOnly_instr _).bind fun _ => FailsOnly.bind ?_ fun _ => ?_
  · refine failsOnly_forEach fun b inFunc => ?_
    exact (failsOnly_lowerBlock nonempty nodup _ _ (wellFormed b inFunc)).mono
      fun fault exhausted => ⟨b, inFunc, exhausted⟩
  · refine (failsOnly_instr _).bind fun _ => (failsOnly_instr _).bind fun _ => ?_
    refine (failsOnly_instr _).bind fun _ => failsOnly_getEnv_bind fun env => ?_
    exact .ite (failsOnly_diagnose _) (failsOnly_pure ())

end RiscBackend.Lower
