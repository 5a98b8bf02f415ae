/-
# Lowering to QBE

Locals become temporaries, so writing a local is a copy, and QBE is left to
choose registers. A declaration starts its local at zero and hides a global of the
same name for the rest of the function. The last block returns zero unless it
ends in a return.
-/

import RiscBackend.Config.Basic
import RiscBackend.IR.Check
import RiscBackend.Lower.Env
import RiscBackend.Qbe.Text

namespace RiscBackend.Qbe

open IR (Operand Instruction Block Module)
open Lower (Env)

/-- Why no program can be made. The missing parts of an instruction are found
only when the module was not validated. -/
inductive Fault where
  | invalidModule (fault : IR.ModuleFault)
  | missingOperand (index : Nat)
  | missingResult
  deriving DecidableEq, Repr

/-- The wording of a fault. -/
def Fault.message : Fault → String
  | invalidModule fault => "invalid module: " ++ fault.message
  | missingOperand index => s!"missing operand {index}"
  | missingResult => "missing result"

/-- The statements that must precede the use of an operand, and the operand. -/
def operand (env : Env) : Operand → List Stmt × Value
  | .const value => ([], .const value)
  | .name name =>
    if env.isGlobal name then ([.loadw (.ofGlobal name) name], .temp (.ofGlobal name))
    else ([], .temp (.ofLocal name))
  | .hole => ([], .blank)

/-- The operand at an index. -/
def operandAt (i : Instruction) (index : Nat) : Except Fault Operand :=
  match i.args[index]? with
  | some arg => .ok arg
  | none => .error (.missingOperand index)

/-- The result of an instruction. -/
def resultOf (i : Instruction) : Except Fault String :=
  match i.result with
  | some name => .ok name
  | none => .error .missingResult

/-- Lower one instruction; a declaration changes the environment. -/
def lowerInstruction (env : Env) (i : Instruction) : Except Fault (List Stmt × Env) := do
  match i.opcode with
  | .arith op =>
    let target ← resultOf i
    let (loadA, a) := operand env (← operandAt i 0)
    let (loadB, b) := operand env (← operandAt i 1)
    return (loadA ++ loadB ++ [.arith (.ofLocal target) op a b], env)
  | .ret =>
    match i.args with
    | [value] =>
      let (load, value) := operand env value
      return (load ++ [.ret value], env)
    | _ => return ([.ret (.const 0)], env)
  | .alloca =>
    let target ← resultOf i
    return ([.copy (.ofLocal target) (.const 0)], env.hide target)
  | .load =>
    let target ← resultOf i
    let (load, value) := operand env (← operandAt i 0)
    return (load ++ [.copy (.ofLocal target) value], env)
  | .store =>
    let target := (← operandAt i 1).name?.getD ""
    let (load, value) := operand env (← operandAt i 0)
    if env.isGlobal target then return (load ++ [.storew value target], env)
    return (load ++ [.copy (.ofLocal target) value], env)
  | .other | .unlisted _ => return ([], env)

/-- Lower instructions in order. -/
def lowerBody (env : Env) : List Instruction → Except Fault (List Stmt × Env)
  | [] => .ok ([], env)
  | i :: rest => do
    let (first, env) ← lowerInstruction env i
    let (later, env) ← lowerBody env rest
    return (first ++ later, env)

/-- Lower blocks in order; the last of them must return. -/
def lowerBlocks (env : Env) : List Block → Except Fault (List Stmt × Env)
  | [] => .ok ([], env)
  | b :: rest => do
    let (body, env) ← lowerBody env b.body
    let ending := if rest.isEmpty && !b.terminates then [Stmt.ret (.const 0)] else []
    let (later, env) ← lowerBlocks env rest
    return (.label b.label :: body ++ ending ++ later, env)

/-- Lower a function in the environment of the module. A function without blocks
returns zero. -/
def lowerFunc (env : Env) (f : IR.Func) : Except Fault Func := do
  let (body, _) ← lowerBlocks env.beginFunction f.blocks
  let empty := if f.blocks.isEmpty then [Stmt.label "start", .ret (.const 0)] else []
  return { name := f.name, body := body ++ empty }

/-- Lower a module. -/
def lower (config : Config) (m : Module) : Except Fault Program := do
  if config.feature .validate then
    match m.validate with
    | .error fault => throw (.invalidModule fault)
    | .ok () => pure ()
  let env := m.globals.foldl Env.define (.ofFrameSize config.frameSize)
  let funcs ← m.funcs.mapM (lowerFunc env)
  return { data := env.globals, funcs }

end RiscBackend.Qbe
