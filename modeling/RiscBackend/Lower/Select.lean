/-
# Instruction selection

Every operation is computed in the scratch registers. Operands are brought there
from wherever they are: a constant, the word of a global, a register, or a slot of
the stack frame. The result is moved to the register of its name, or to its slot
once the name has been evicted.
-/

import RiscBackend.Alloc.Liveness
import RiscBackend.Config.Basic
import RiscBackend.Lower.Emission

namespace RiscBackend.Lower

open IR (Operand Instruction)
open Asm (Instr Line)

/-- A point of the program being lowered: the block with its intervals, and
the position within it. -/
structure Site where
  config : Config
  function : String
  block : String
  table : Alloc.Table
  /-- The names that other blocks of the function mention too. -/
  crossing : List String
  position : Nat := 0

namespace Site

/-- How diagnostics name the point. -/
def place (site : Site) : String :=
  s!"{site.function}/{site.block}:{site.position}"

/-- Stop at this point. -/
def fail {α : Type} (site : Site) (cause : CodeFault) : Emit α :=
  Emit.fail { function := site.function, block := site.block, cause }

/-- Report a name that has no place: as an error in strict mode, and otherwise
as a warning if such warnings are on. -/
def unresolved (site : Site) (fault : PlacementFault) : Emit Unit :=
  if site.config.feature .strict then
    Emit.diagnose { severity := .error, place := site.place, message := fault.message }
  else if site.config.warning .unresolved then
    Emit.diagnose
      { severity := .warning, place := site.place, flag := "unresolved", message := fault.message }
  else pure ()

/-- The home slot of a name, which is given out on first use. -/
def slotFor (site : Site) (name : String) : Emit Int64 := do
  match (← Emit.getEnv).slotFor name with
  | .ok (offset, env) =>
    Emit.modifyEnv fun _ => env
    return offset
  | .error fault => site.fail (.placement fault)

/-- The operand at an index. -/
def operandAt (site : Site) (i : Instruction) (index : Nat) : Emit Operand :=
  match i.args[index]? with
  | some arg => pure arg
  | none => site.fail (.missingOperand index)

/-- The result of an instruction. -/
def resultOf (site : Site) (i : Instruction) : Emit String :=
  match i.result with
  | some name => pure name
  | none => site.fail .missingResult

/-- Load the word of a global. -/
def loadGlobal (rd name : String) : Emit Unit := do
  Emit.instr (.la rd name)
  Emit.instr (.lw rd 0 rd)

/-- Bring the value of a local into a register. A name without a place gives a
report and a default. -/
def loadLocal (site : Site) (rd name : String) : Emit Unit := do
  match site.table.lookup name with
  | none =>
    site.unresolved (.noInterval name)
    Emit.instr (.li rd 0)
  | some iv =>
    if iv.inRegister site.position then Emit.instr (.mv rd iv.register)
    else
      match (← Emit.getEnv).frame.resolve name with
      | .ok offset => Emit.instr (.lw rd offset site.config.stackRegister)
      | .error fault =>
        site.unresolved fault
        Emit.instr (.lw rd 0 site.config.stackRegister)

/-- Bring an operand into a register. -/
def loadOperand (site : Site) (rd : String) : Operand → Emit Unit
  | .const value => Emit.instr (.li rd value)
  | .name name => do
    if (← Emit.getEnv).isGlobal name then loadGlobal rd name else site.loadLocal rd name
  | .hole => pure ()

/-- Move a computed value from a register to the place of a local. -/
def storeLocal (site : Site) (name rs : String) : Emit Unit := do
  match site.table.lookup name with
  | none => site.unresolved (.noInterval name)
  | some iv =>
    if iv.inRegister site.position then Emit.instr (.mv iv.register rs)
    else
      let offset ← site.slotFor name
      Emit.instr (.sw rs offset site.config.stackRegister)

/-- Lower one instruction. -/
def select (site : Site) (i : Instruction) : Emit Unit := do
  let (s0, s1) := site.config.scratch
  match i.opcode with
  | .arith op =>
    site.loadOperand s0 (← site.operandAt i 0)
    site.loadOperand s1 (← site.operandAt i 1)
    Emit.instr (.arith op s0 s0 s1)
    site.storeLocal (← site.resultOf i) s0
  | .ret =>
    match i.args with
    | [value] => site.loadOperand site.config.returnRegister value
    | _ => pure ()
  | .alloca =>
    let name ← site.resultOf i
    Emit.modifyEnv fun env => env.hide name
  | .load =>
    let source ← site.operandAt i 0
    let name := source.name?.getD ""
    if (← Emit.getEnv).isGlobal name then loadGlobal s0 name else site.loadOperand s0 source
    site.storeLocal (← site.resultOf i) s0
  | .store =>
    let target := (← site.operandAt i 1).name?.getD ""
    site.loadOperand s0 (← site.operandAt i 0)
    if (← Emit.getEnv).isGlobal target then
      Emit.instr (.la s1 target)
      Emit.instr (.sw s0 0 s1)
    else site.storeLocal target s0
  | .other => pure ()
  | .unlisted _ => site.fail (.unhandledOpcode i.opcode)

end Site

end RiscBackend.Lower
