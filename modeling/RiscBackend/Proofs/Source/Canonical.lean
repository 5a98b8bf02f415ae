/-
# The canonical text of a module

A module is written line by line: its globals, then its functions, and in a function the
label of each block and one instruction per line. A name is written after a sigil, bare if
it is a run of name characters and in quotes otherwise.

The module does not say everything about its text. The sigil of an operand carries no
meaning, and an instruction that is not lowered has lost its operation. A `Spelling` fills
in both, for each instruction on its own.

The tokens of each kind of line are listed here as well; that the text has just these
tokens is shown elsewhere.
-/

import Mathlib.Tactic.MkIffOfInductiveProp
import RiscBackend.Proofs.IR.WellFormed
import RiscBackend.Proofs.Source.Rows

namespace RiscBackend

open IR (Operand Opcode Instruction Block Func Global)

namespace Source

/-- A text that is one token by itself. -/
def IsToken (kind : TokenKind) (text : String) : Prop :=
  lexemes text.toList = [.plain kind text text.toList]

instance (kind : TokenKind) (text : String) : Decidable (IsToken kind text) :=
  inferInstanceAs (Decidable (_ = _))

/-- What the text of an instruction adds to it: the sigils of its operands and, if it is
not lowered, a word that is no known operation. -/
structure Spelling where
  sigil : Nat → Sigil
  operation : String
  isToken : IsToken .ident operation
  unknown : Opcode.ofName operation = .other

/-- A name that can stand in quotes. -/
def Quotable (name : String) : Prop :=
  '"' ∉ name.toList ∧ '\n' ∉ name.toList

instance (name : String) : Decidable (Quotable name) :=
  inferInstanceAs (Decidable (_ ∧ _))

/-- A name after its sigil. -/
def nameText (sigil : Sigil) (name : String) : String :=
  if name ≠ "" ∧ name.toList.all isNameChar = true then
    String.singleton sigil.char ++ name
  else String.singleton sigil.char ++ "\"" ++ name ++ "\""

def operandText (sigil : Sigil) : Operand → String
  | .const value => toString value.toInt
  | .name name => nameText sigil name
  | .hole => ""

/-- The result of an instruction, if it has one. -/
def resultText : Option String → String
  | some name => nameText .ofLocal name ++ " = "
  | none => ""

def operationText (spelling : Spelling) : Opcode → String
  | .other => spelling.operation
  | opcode => opcode.name

/-- What follows the operation: types and operands. -/
def argsText (spelling : Spelling) (i : Instruction) : String :=
  match i.opcode, i.args with
  | .ret, [] => " void"
  | .ret, [a] => " i32 " ++ operandText (spelling.sigil 0) a
  | .arith _, [a, b] =>
    " i32 " ++ operandText (spelling.sigil 0) a ++ ", " ++ operandText (spelling.sigil 1) b
  | .alloca, _ => " i32"
  | .load, [a] => " i32, i32* " ++ operandText (spelling.sigil 0) a
  | .store, [a, b] =>
    " i32 " ++ operandText (spelling.sigil 0) a ++ ", i32* " ++ operandText (spelling.sigil 1) b
  | _, _ => ""

def instructionText (spelling : Spelling) (i : Instruction) : String :=
  "  " ++ resultText i.result ++ operationText spelling i.opcode ++ argsText spelling i

/-- The lines of a block, with a spelling for each of its instructions. -/
def blockLines (style : Nat → Spelling) (b : Block) : List String :=
  (b.label ++ ":") :: b.body.mapIdx fun k i => instructionText (style k) i

def funcLines (style : Nat → Nat → Spelling) (f : Func) : List String :=
  ("define i32 " ++ nameText .ofGlobal f.name ++ "() \x7b") ::
    (f.blocks.mapIdx fun k b => blockLines (style k) b).flatten ++ ["\x7d"]

def globalText (g : Global) : String :=
  nameText .ofGlobal g.name ++ " = global i32 " ++ toString g.value.toInt

def moduleLines (style : Nat → Nat → Nat → Spelling) (m : IR.Module) : List String :=
  m.globals.map globalText ++ (m.funcs.mapIdx fun k f => funcLines (style k) f).flatten

/-- The text of a module, with a spelling for each instruction by function, block and
position. -/
def moduleText (style : Nat → Nat → Nat → Spelling) (m : IR.Module) : String :=
  String.join ((moduleLines style m).map (· ++ "\n"))

/-- The token of an operand. -/
def operandTag (sigil : Sigil) : Operand → Tag
  | .const value => (.number, toString value.toInt)
  | .name name => (sigil.kind, name)
  | .hole => (.endOfFile, "")

/-- The tokens after an operation. -/
def argsTags (spelling : Spelling) (i : Instruction) : List Tag :=
  match i.opcode, i.args with
  | .ret, [] => [(.void, "void")]
  | .ret, [a] => [(.i32, "i32"), operandTag (spelling.sigil 0) a]
  | .arith _, [a, b] =>
    [(.i32, "i32"), operandTag (spelling.sigil 0) a, (.comma, ""), operandTag (spelling.sigil 1) b]
  | .alloca, _ => [(.i32, "i32")]
  | .load, [a] =>
    [(.i32, "i32"), (.comma, ""), (.i32, "i32"), (.star, ""), operandTag (spelling.sigil 0) a]
  | .store, [a, b] =>
    [(.i32, "i32"), operandTag (spelling.sigil 0) a, (.comma, ""), (.i32, "i32"), (.star, ""),
      operandTag (spelling.sigil 1) b]
  | _, _ => []

/-- The tokens of a result. -/
def resultTags : Option String → List Tag
  | some name => [(.localName, name), (.equals, "")]
  | none => []

/-- The tokens of an instruction. -/
def instructionTags (spelling : Spelling) (i : Instruction) : List Tag :=
  resultTags i.result ++ (.ident, operationText spelling i.opcode) :: argsTags spelling i

/-- The tokens of the first line of a function. -/
def headerTags (name : String) : List Tag :=
  [(.define, "define"), (.i32, "i32"), (.globalName, name), (.leftParen, ""), (.rightParen, ""),
    (.leftBrace, "")]

/-- The tokens of the definition of a global. -/
def globalTags (g : Global) : List Tag :=
  [(.globalName, g.name), (.equals, ""), (.global, "global"), (.i32, "i32"),
    (.number, toString g.value.toInt)]

end Source

namespace IR

/-- What a text can say about an instruction: it passes the check, it has no operands if it
is not lowered, and no name in it holds a quote or a line break. -/
@[mk_iff]
structure Instruction.Printable (i : Instruction) : Prop where
  checked : i.check = .ok ()
  others : i.opcode = .other → i.args = []
  names : ∀ name ∈ i.names, Source.Quotable name

instance (i : Instruction) : Decidable i.Printable :=
  decidable_of_iff' _ i.printable_iff

/-- The label of a block is an identifier or a number. -/
@[mk_iff]
structure Block.Printable (b : Block) : Prop where
  label : Source.IsToken .ident b.label ∨ Source.IsToken .number b.label
  body : ∀ i ∈ b.body, i.Printable

instance (b : Block) : Decidable b.Printable :=
  decidable_of_iff' _ b.printable_iff

@[mk_iff]
structure Func.Printable (f : Func) : Prop where
  name : Source.Quotable f.name
  blocks : ∀ b ∈ f.blocks, b.Printable

instance (f : Func) : Decidable f.Printable :=
  decidable_of_iff' _ f.printable_iff

@[mk_iff]
structure Module.Printable (m : IR.Module) : Prop where
  globals : ∀ g ∈ m.globals, Source.Quotable g.name
  funcs : ∀ f ∈ m.funcs, f.Printable

instance (m : IR.Module) : Decidable m.Printable :=
  decidable_of_iff' _ m.printable_iff

end IR

end RiscBackend
