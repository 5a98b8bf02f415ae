/-
# The intermediate representation

A module holds named 32-bit globals and functions; a function is a sequence of
labelled blocks; a block is a straight line of instructions over constants and
names. Whether a name means a global or a local is not part of the operand: it
depends on the globals of the module and on the allocations executed so far.
-/

namespace RiscBackend.IR

/-- The two-operand integer operations. -/
inductive ArithOp where
  | add
  | sub
  | mul
  | sdiv
  | srem
  deriving DecidableEq, Repr

/-- The name of an operation in the textual form. -/
def ArithOp.name : ArithOp → String
  | .add => "add"
  | .sub => "sub"
  | .mul => "mul"
  | .sdiv => "sdiv"
  | .srem => "srem"

/-- Operation codes. `other` stands for every operation that is read but not
lowered, `unlisted` for a code number that belongs to no operation. -/
inductive Opcode where
  | ret
  | arith (op : ArithOp)
  | alloca
  | load
  | store
  | other
  | unlisted (code : Int)
  deriving DecidableEq, Repr

namespace Opcode

/-- The known operations in the order of their code numbers. -/
def listed : List Opcode :=
  [ret, arith .add, arith .sub, arith .mul, arith .sdiv, arith .srem, alloca, load, store, other]

/-- The operation with a given code number. -/
def ofCode (code : Int) : Opcode :=
  if code < 0 then unlisted code else listed.getD code.toNat (unlisted code)

/-- The name of an operation. -/
def name : Opcode → String
  | ret => "ret"
  | arith op => op.name
  | alloca => "alloca"
  | load => "load"
  | store => "store"
  | other => "other"
  | unlisted code => s!"op({code})"

/-- The operation with a given name in the textual form. Unknown names, and the
name of `other` itself, give `other`. -/
def ofName : String → Opcode
  | "ret" => ret
  | "add" => arith .add
  | "sub" => arith .sub
  | "mul" => arith .mul
  | "sdiv" => arith .sdiv
  | "srem" => arith .srem
  | "alloca" => alloca
  | "load" => load
  | "store" => store
  | _ => other

/-- Whether an operation is one of the two-operand integer operations. -/
def isArith : Opcode → Bool
  | arith _ => true
  | _ => false

end Opcode

/-- An operand: a constant, a name, or a place that was left empty. A text never
produces an empty place; a module built by other means can hold one. -/
inductive Operand where
  | const (value : Int32)
  | name (name : String)
  | hole
  deriving DecidableEq, Repr

namespace Operand

/-- The name that an operand refers to. -/
def name? : Operand → Option String
  | name n => some n
  | _ => none

/-- The text of an operand; an empty place has none. -/
def text? : Operand → Option String
  | const value => some (toString value.toInt)
  | name n => some n
  | hole => none

end Operand

/-- One instruction. -/
structure Instruction where
  opcode : Opcode
  /-- The name of the local that receives the value, if there is one. -/
  result : Option String := none
  args : List Operand := []
  deriving DecidableEq, Repr

namespace Instruction

/-- The text of an instruction: its result, its operation and its operands. An
instruction with an empty place has no text. -/
def text? (i : Instruction) : Option String := do
  let args ← i.args.mapM Operand.text?
  let result := match i.result with
    | some name => name ++ " = "
    | none => ""
  let operands := if args.isEmpty then "" else " " ++ ", ".intercalate args
  return result ++ i.opcode.name ++ operands

/-- Return a value, or nothing when the place is empty. -/
def ret (value : Operand) : Instruction :=
  match value with
  | .hole => { opcode := .ret }
  | value => { opcode := .ret, args := [value] }

/-- Compute a value from two operands. -/
def binary (opcode : Opcode) (result : String) (a b : Operand) : Instruction :=
  { opcode, result := some result, args := [a, b] }

/-- Declare a local. -/
def alloca (name : String) : Instruction :=
  { opcode := .alloca, result := some name }

/-- Read a variable. -/
def load (result source : String) : Instruction :=
  { opcode := .load, result := some result, args := [.name source] }

/-- Write a variable. -/
def store (value : Operand) (target : String) : Instruction :=
  { opcode := .store, args := [value, .name target] }

end Instruction

/-- A labelled straight line of instructions. -/
structure Block where
  label : String
  body : List Instruction := []
  deriving DecidableEq, Repr

/-- Whether a block ends in a return. -/
def Block.terminates (b : Block) : Bool :=
  match b.body.getLast? with
  | some last => last.opcode = .ret
  | none => false

/-- A function: blocks that are run in order. -/
structure Func where
  name : String
  blocks : List Block := []
  deriving DecidableEq, Repr

/-- A named word with its initial value. -/
structure Global where
  name : String
  value : Int32 := 0
  deriving DecidableEq, Repr

/-- A unit of compilation. -/
structure Module where
  globals : List Global := []
  funcs : List Func := []
  deriving DecidableEq, Repr

namespace Module

/-- The first function with a given name. -/
def findFunc? (m : Module) (name : String) : Option Func :=
  m.funcs.find? fun f => f.name = name

/-- The first global with a given name. -/
def findGlobal? (m : Module) (name : String) : Option Global :=
  m.globals.find? fun g => g.name = name

/-- Two modules, one after the other. -/
def append (m n : Module) : Module where
  globals := m.globals ++ n.globals
  funcs := m.funcs ++ n.funcs

/-- A listing of a module for readers. -/
def dump (m : Module) : String :=
  let instruction (i : Instruction) := "\t" ++ i.text?.getD "" ++ "\n"
  let block (b : Block) := b.label ++ ":\n" ++ String.join (b.body.map instruction)
  let func (f : Func) := "\nfunc " ++ f.name ++ "\n" ++ String.join (f.blocks.map block)
  let global (g : Global) := "global " ++ g.name ++ " = " ++ toString g.value.toInt ++ "\n"
  String.join (m.globals.map global) ++ String.join (m.funcs.map func)

end Module

end RiscBackend.IR
