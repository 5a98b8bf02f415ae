/-
# Well-formed modules

An instruction is well formed when it has the operands and the result that its
operation requires. A module is valid when its globals have distinct non-empty
names, its functions have distinct names, the labels within a function are
distinct, and every instruction is well formed. The order of use and definition
is not checked.
-/

import RiscBackend.IR.Basic

namespace RiscBackend.IR

/-- What is wrong with an instruction. -/
inductive InstructionFault where
  | emptyOperand (opcode : Opcode)
  | operandCount (opcode : Opcode) (want got : Nat)
  | returnOperandCount (got : Nat)
  | resultMissing (opcode : Opcode)
  | resultForbidden (opcode : Opcode)
  | loadSource
  | storeTarget
  | unknownOpcode (opcode : Opcode)
  deriving DecidableEq, Repr

/-- The wording of an instruction's fault. -/
def InstructionFault.message : InstructionFault → String
  | emptyOperand opcode => opcode.name ++ " has a nil operand"
  | operandCount opcode want got => s!"{opcode.name} takes {want} operand(s), got {got}"
  | returnOperandCount got => s!"ret takes at most 1 operand, got {got}"
  | resultMissing opcode => opcode.name ++ " requires a result"
  | resultForbidden opcode => opcode.name ++ " cannot produce a result"
  | loadSource => "load source must be a name"
  | storeTarget => "store destination must be a name"
  | unknownOpcode opcode => "unknown opcode " ++ opcode.name

namespace Instruction

/-- Check the number of operands. -/
def checkCount (i : Instruction) (want : Nat) : Except InstructionFault Unit :=
  if i.args.length = want then .ok ()
  else .error (.operandCount i.opcode want i.args.length)

/-- Check that there is a result. -/
def checkResult (i : Instruction) : Except InstructionFault Unit :=
  if i.result.isSome then .ok () else .error (.resultMissing i.opcode)

/-- Check that there is no result. -/
def checkNoResult (i : Instruction) : Except InstructionFault Unit :=
  if i.result.isSome then .error (.resultForbidden i.opcode) else .ok ()

/-- Check that the operand at an index is a name. -/
def checkName (i : Instruction) (index : Nat) (fault : InstructionFault) :
    Except InstructionFault Unit :=
  if (i.args[index]?.bind Operand.name?).isSome then .ok () else .error fault

/-- Check an instruction against the needs of its operation. -/
def check (i : Instruction) : Except InstructionFault Unit := do
  if i.args.contains .hole then throw (.emptyOperand i.opcode)
  match i.opcode with
  | .ret =>
    if 1 < i.args.length then throw (.returnOperandCount i.args.length)
    i.checkNoResult
  | .arith _ =>
    i.checkCount 2
    i.checkResult
  | .alloca =>
    i.checkCount 0
    i.checkResult
  | .load =>
    i.checkCount 1
    i.checkName 0 .loadSource
    i.checkResult
  | .store =>
    i.checkCount 2
    i.checkName 1 .storeTarget
    i.checkNoResult
  | .other => return
  | .unlisted _ => throw (.unknownOpcode i.opcode)

end Instruction

/-- What is wrong with a module. -/
inductive ModuleFault where
  | emptyGlobalName
  | duplicateGlobal (name : String)
  | duplicateFunction (name : String)
  | duplicateLabel (function label : String)
  | instruction (function label : String) (position : Nat) (fault : InstructionFault)
  deriving DecidableEq, Repr

/-- The wording of a module's fault. -/
def ModuleFault.message : ModuleFault → String
  | emptyGlobalName => "global with empty name"
  | duplicateGlobal name => s!"duplicate global '{name}'"
  | duplicateFunction name => s!"duplicate function '{name}'"
  | duplicateLabel function label => s!"{function}: duplicate block label '{label}'"
  | instruction function label position fault =>
    s!"{function}/{label}:{position}: {fault.message}"

/-- Check the instructions of a block from a position on. -/
def checkBody (function label : String) : Nat → List Instruction → Except ModuleFault Unit
  | _, [] => .ok ()
  | position, i :: rest =>
    match i.check with
    | .error fault => .error (.instruction function label position fault)
    | .ok () => checkBody function label (position + 1) rest

/-- Check the blocks of a function after those with the labels `seen`. -/
def checkBlocks (function : String) (seen : List String) : List Block → Except ModuleFault Unit
  | [] => .ok ()
  | b :: rest => do
    if seen.contains b.label then throw (.duplicateLabel function b.label)
    checkBody function b.label 0 b.body
    checkBlocks function (b.label :: seen) rest

/-- Check the functions after those with the names `seen`. -/
def checkFuncs (seen : List String) : List Func → Except ModuleFault Unit
  | [] => .ok ()
  | f :: rest => do
    if seen.contains f.name then throw (.duplicateFunction f.name)
    checkBlocks f.name [] f.blocks
    checkFuncs (f.name :: seen) rest

/-- Check the globals after those with the names `seen`. -/
def checkGlobals (seen : List String) : List Global → Except ModuleFault Unit
  | [] => .ok ()
  | g :: rest => do
    if g.name = "" then throw .emptyGlobalName
    if seen.contains g.name then throw (.duplicateGlobal g.name)
    checkGlobals (g.name :: seen) rest

/-- Check a module; the first fault in textual order, globals first, is reported. -/
def Module.validate (m : Module) : Except ModuleFault Unit := do
  checkGlobals [] m.globals
  checkFuncs [] m.funcs

end RiscBackend.IR
