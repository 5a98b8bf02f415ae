/-
# Lines of assembly

Assembly is kept as statements, not as text: directives, labels and instructions
over named registers, each with its trailing comments. The text is made from
them at the end. Instructions and directives are indented by two spaces.
-/

import RiscBackend.IR.Basic
import RiscBackend.Text.Blank
import RiscBackend.Text.Cut

namespace RiscBackend.Asm

/-- The mnemonic of a three-register operation. -/
def arithMnemonic : IR.ArithOp → String
  | .add => "add"
  | .sub => "sub"
  | .mul => "mul"
  | .sdiv => "div"
  | .srem => "rem"

/-- Instructions. Beside those that lowering emits there is a general form
for any mnemonic with any operands. -/
inductive Instr where
  | li (rd : String) (value : Int32)
  | la (rd symbol : String)
  | mv (rd rs : String)
  | lw (rd : String) (offset : Int64) (base : String)
  | sw (rs : String) (offset : Int64) (base : String)
  | addi (rd rs : String) (value : Int64)
  | arith (op : IR.ArithOp) (rd rs1 rs2 : String)
  | ecall
  | plain (mnemonic : String) (operands : List String)
  deriving DecidableEq, Repr

namespace Instr

/-- A memory operand. -/
def memory (offset : Int64) (base : String) : String :=
  toString offset ++ "(" ++ base ++ ")"

/-- The mnemonic of an instruction. -/
def mnemonic : Instr → String
  | li .. => "li"
  | la .. => "la"
  | mv .. => "mv"
  | lw .. => "lw"
  | sw .. => "sw"
  | addi .. => "addi"
  | arith op .. => arithMnemonic op
  | ecall => "ecall"
  | plain mnemonic _ => mnemonic

/-- The operands of an instruction in the order in which they are written. -/
def operands : Instr → List String
  | li rd value => [rd, toString value.toInt]
  | la rd symbol => [rd, symbol]
  | mv rd rs => [rd, rs]
  | lw rd offset base => [rd, memory offset base]
  | sw rs offset base => [rs, memory offset base]
  | addi rd rs value => [rd, rs, toString value]
  | arith _ rd rs1 rs2 => [rd, rs1, rs2]
  | ecall => []
  | plain _ operands => operands

end Instr

/-- Statements of an assembly program. -/
inductive Stmt where
  | directive (name : String) (params : List String)
  | word (value : Int32)
  | label (name : String)
  | instr (i : Instr)
  deriving DecidableEq, Repr

/-- A head followed by its comma separated parts. -/
def withParts (head : String) (parts : List String) : String :=
  if parts.isEmpty then head else head ++ " " ++ ", ".intercalate parts

/-- The text of a statement. -/
def Stmt.text : Stmt → String
  | directive name params => withParts ("  ." ++ name) params
  | word value => withParts "  .word" [toString value.toInt]
  | label name => name ++ ":"
  | instr i => withParts ("  " ++ i.mnemonic) i.operands

/-- A statement and its trailing comments. -/
structure Line where
  stmt : Stmt
  notes : List String := []
  deriving DecidableEq, Repr

namespace Line

/-- A line that holds an instruction. -/
def ofInstr (i : Instr) : Line :=
  { stmt := .instr i }

/-- The text of a line. -/
def text (l : Line) : String :=
  l.stmt.text ++ String.join (l.notes.map fun note => " # " ++ note)

end Line

/-- The instruction or directive name at the front of a line of text. Only
indented lines have one. -/
def mnemonicOf (line : String) : String :=
  if Text.hasStart "  " line then (Text.words line).headD "" else ""

end RiscBackend.Asm
