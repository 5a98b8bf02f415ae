/-
# Emitting code

Lowering a piece of a program yields lines of assembly and diagnostics, changes
the environment, and either gives a value or stops at a fault. What was emitted
before a fault is kept. The pieces are composed by appending their lines and
diagnostics, so the code of a sequence is the code of its parts in order.
-/

import RiscBackend.Alloc.LinearScan
import RiscBackend.Asm.Line
import RiscBackend.Diagnostic
import RiscBackend.Lower.Env

namespace RiscBackend.Lower

open Asm (Line Instr)

/-- Why lowering stops. The missing parts of an instruction are found only when
the module was not validated. -/
inductive CodeFault where
  | placement (fault : PlacementFault)
  | allocation (fault : Alloc.AllocationFault)
  | unhandledOpcode (opcode : IR.Opcode)
  | missingOperand (index : Nat)
  | missingResult
  deriving DecidableEq, Repr

/-- The wording of such a fault. -/
def CodeFault.message : CodeFault → String
  | placement fault => fault.message
  | allocation fault => "register allocation: " ++ fault.message
  | unhandledOpcode opcode => "unhandled opcode " ++ opcode.name
  | missingOperand index => s!"missing operand {index}"
  | missingResult => "missing result"

/-- A fault and the block in which it arose. -/
structure BlockFault where
  function : String
  block : String
  cause : CodeFault
  deriving DecidableEq, Repr

/-- The wording of a fault in a block. -/
def BlockFault.message (f : BlockFault) : String :=
  s!"function '{f.function}': block '{f.block}': {f.cause.message}"

/-- What lowering a piece of a program yields. -/
structure Emission (α : Type) where
  lines : List Line
  diagnostics : Diagnostics
  env : Env
  outcome : Except BlockFault α

/-- A lowering step. -/
def Emit (α : Type) : Type :=
  Env → Emission α

namespace Emit

/-- Run a step in an environment. -/
def run {α : Type} (step : Emit α) (env : Env) : Emission α :=
  step env

instance : Monad Emit where
  pure a := fun env => { lines := [], diagnostics := [], env, outcome := .ok a }
  bind step next := fun env =>
    let first := step env
    match first.outcome with
    | .error fault =>
      { lines := first.lines, diagnostics := first.diagnostics, env := first.env
        outcome := .error fault }
    | .ok a =>
      let second := next a first.env
      { lines := first.lines ++ second.lines
        diagnostics := first.diagnostics ++ second.diagnostics
        env := second.env
        outcome := second.outcome }

/-- The current environment. -/
def getEnv : Emit Env := fun env =>
  { lines := [], diagnostics := [], env, outcome := .ok env }

/-- Change the environment. -/
def modifyEnv (change : Env → Env) : Emit Unit := fun env =>
  { lines := [], diagnostics := [], env := change env, outcome := .ok () }

/-- Emit a line. -/
def line (l : Line) : Emit Unit := fun env =>
  { lines := [l], diagnostics := [], env, outcome := .ok () }

/-- Emit an instruction. -/
def instr (i : Instr) : Emit Unit :=
  line (.ofInstr i)

/-- Emit a label. -/
def label (name : String) : Emit Unit :=
  line { stmt := .label name }

/-- Report a diagnostic. -/
def diagnose (d : Diagnostic) : Emit Unit := fun env =>
  { lines := [], diagnostics := [d], env, outcome := .ok () }

/-- Stop at a fault. -/
def fail {α : Type} (fault : BlockFault) : Emit α := fun env =>
  { lines := [], diagnostics := [], env, outcome := .error fault }

/-- Do something for every member of a list, in order. -/
def forEach {α : Type} (step : α → Emit Unit) : List α → Emit Unit
  | [] => pure ()
  | a :: rest => do
    step a
    forEach step rest

end Emit

end RiscBackend.Lower
