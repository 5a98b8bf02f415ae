/-
# Running a module

The meaning of a function is given by running its instructions in order over named
32-bit words. A name means a global when the module has one of that name and no
declaration of the name was run before in the function; otherwise it means a local.
A result is always written to the local, and a store writes whatever its target
means.

Two things have no value: a local that was never written, and a division by zero. A
run that needs such a value has no outcome, so statements about outcomes never
speak about it. What a declaration leaves in its local is a parameter: nothing, for
code that reserves a place without clearing it, or a word.
-/

import Mathlib.Logic.Function.Basic
import RiscBackend.IR.Basic

namespace RiscBackend.IR

/-- The value of an operation. Division truncates towards zero and wraps; by zero
it has no value. -/
def ArithOp.eval? : ArithOp → Int32 → Int32 → Option Int32
  | .add, a, b => some (a + b)
  | .sub, a, b => some (a - b)
  | .mul, a, b => some (a * b)
  | .sdiv, a, b => if b = 0 then none else some (a / b)
  | .srem, a, b => if b = 0 then none else some (a % b)

/-- What a running function can read and write. -/
structure Store where
  globals : String → Int32
  /-- The words of the locals; a local that was not written has none. -/
  locals : String → Option Int32 := fun _ => none
  /-- The names declared so far in the function, the latest first. -/
  declared : List String := []

namespace Store

/-- Whether a name means a global at this point. -/
def denotesGlobal (m : Module) (s : Store) (name : String) : Bool :=
  (m.findGlobal? name).isSome && !s.declared.contains name

/-- The value of an operand. -/
def read? (m : Module) (s : Store) : Operand → Option Int32
  | .const value => some value
  | .name name => if s.denotesGlobal m name then some (s.globals name) else s.locals name
  | .hole => none

/-- Write a local. -/
def setLocal (s : Store) (name : String) (value : Int32) : Store :=
  { s with locals := Function.update s.locals name (some value) }

/-- Write whatever a name means. -/
def write (m : Module) (s : Store) (name : String) (value : Int32) : Store :=
  if s.denotesGlobal m name then
    { s with globals := Function.update s.globals name value }
  else s.setLocal name value

/-- Declare a local, which then holds what a fresh place holds. -/
def declare (s : Store) (name : String) (fresh : Option Int32) : Store :=
  { s with
    locals := Function.update s.locals name fresh
    declared := name :: s.declared }

end Store

/-- How far a run has come. -/
inductive Progress where
  | running (s : Store)
  | returned (value : Int32) (s : Store)

namespace Module

/-- The store before the first instruction of a function. -/
def initialStore (m : Module) : Store :=
  { globals := fun name => ((m.findGlobal? name).map Global.value).getD 0 }

/-- Run one instruction. -/
def step? (m : Module) (fresh : Option Int32) (s : Store) (i : Instruction) : Option Progress :=
  match i.opcode, i.result, i.args with
  | .arith op, some name, [a, b] => do
    let value ← op.eval? (← s.read? m a) (← s.read? m b)
    return .running (s.setLocal name value)
  | .ret, _, [] => some (.returned 0 s)
  | .ret, _, [a] => do return .returned (← s.read? m a) s
  | .alloca, some name, _ => some (.running (s.declare name fresh))
  | .load, some name, [a] => do return .running (s.setLocal name (← s.read? m a))
  | .store, _, [a, .name target] => do return .running (s.write m target (← s.read? m a))
  | .other, _, _ => some (.running s)
  | _, _, _ => none

/-- Run instructions in order, up to the first return. -/
def runCode? (m : Module) (fresh : Option Int32) : Store → List Instruction → Option Progress
  | s, [] => some (.running s)
  | s, i :: rest =>
    match m.step? fresh s i with
    | some (.running s) => runCode? m fresh s rest
    | stopped => stopped

end Module

/-- The instructions of a function in the order in which they are run. -/
def Func.code (f : Func) : List Instruction :=
  f.blocks.flatMap Block.body

/-- What a run of a function comes to. -/
structure Outcome where
  value : Int32
  globals : String → Int32

/-- The outcome of a run. Without a return the value is zero. -/
def Progress.outcome : Progress → Outcome
  | running s => ⟨0, s.globals⟩
  | returned value s => ⟨value, s.globals⟩

/-- Run a function from the initial words of the globals. -/
def Module.run? (m : Module) (fresh : Option Int32) (f : Func) : Option Outcome :=
  (m.runCode? fresh m.initialStore f.code).map Progress.outcome

end RiscBackend.IR
