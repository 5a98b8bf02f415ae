/-
# The machine

Emitted code is straight-line code over named registers, the words of the stack and
one word per symbol of the data section. Addresses are kept apart from numbers: the
address of a symbol is only good for reaching its word, and a stack address only for
reaching the words around it. So no assumption about the layout of the memory is
needed. A machine that meets an instruction without a meaning here stops.
-/

import Mathlib.Logic.Function.Basic
import RiscBackend.Asm.Line
import RiscBackend.Proofs.IR.Interpreter

namespace RiscBackend.Asm

/-- What a register or a word of memory holds. -/
inductive Value where
  | word (value : Int32)
  | symbol (name : String)
  | stack (address : Int)
  deriving DecidableEq

/-- The state of the machine. A name that is no symbol of the data section has no
word. -/
structure Machine where
  registers : String → Value
  stack : Int → Value
  data : String → Option Value

namespace Machine

/-- Write a register. -/
def set (m : Machine) (register : String) (value : Value) : Machine :=
  { m with registers := Function.update m.registers register value }

/-- Read the word at an offset from an address. -/
def load? (m : Machine) (base : Value) (offset : Int64) : Option Value :=
  match base with
  | .stack address => some (m.stack (address + offset.toInt))
  | .symbol name => if offset = 0 then m.data name else none
  | .word _ => none

/-- Write the word at an offset from an address. -/
def store? (m : Machine) (base : Value) (offset : Int64) (value : Value) : Option Machine :=
  match base with
  | .stack address =>
    some { m with stack := Function.update m.stack (address + offset.toInt) value }
  | .symbol name =>
    if offset = 0 && (m.data name).isSome then
      some { m with data := Function.update m.data name (some value) }
    else none
  | .word _ => none

/-- Execute an instruction other than the exit. -/
def execute? (m : Machine) : Instr → Option Machine
  | .li rd value => some (m.set rd (.word value))
  | .la rd symbol => if (m.data symbol).isSome then some (m.set rd (.symbol symbol)) else none
  | .mv rd rs => some (m.set rd (m.registers rs))
  | .lw rd offset base => do return m.set rd (← m.load? (m.registers base) offset)
  | .sw rs offset base => m.store? (m.registers base) offset (m.registers rs)
  | .addi rd rs value =>
    match m.registers rs with
    | .stack address => some (m.set rd (.stack (address + value.toInt)))
    | .word w => some (m.set rd (.word (w + value.toInt32)))
    | .symbol _ => none
  | .arith op rd rs1 rs2 =>
    match m.registers rs1, m.registers rs2 with
    | .word a, .word b => do return m.set rd (.word (← op.eval? a b))
    | _, _ => none
  | .ecall => none
  | .plain _ _ => none

/-- Execute the instructions of lines that hold no exit. -/
def executeAll? : Machine → List Line → Option Machine
  | m, [] => some m
  | m, line :: rest =>
    match line.stmt with
    | .instr i => do executeAll? (← m.execute? i) rest
    | _ => executeAll? m rest

/-- Execute lines up to the first exit. Code that runs out before it has no
result. -/
def runToExit? : Machine → List Line → Option Machine
  | _, [] => none
  | m, line :: rest =>
    match line.stmt with
    | .instr .ecall => some m
    | .instr i => do runToExit? (← m.execute? i) rest
    | _ => runToExit? m rest

end Machine

end RiscBackend.Asm
