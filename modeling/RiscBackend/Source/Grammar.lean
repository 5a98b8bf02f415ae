/-
# The textual form of modules

The grammar is line oriented. At the top level a line defines a global, starts a
function, or is passed over. Inside a function every line is a label or an
instruction; what follows the operands of an instruction on its line is passed
over. Instructions that are not lowered keep their result and lose their operands.
-/

import RiscBackend.Source.Parser
import RiscBackend.Text.Decimal

namespace RiscBackend.Source

open IR (Operand Opcode Instruction Block Func Global Module)

namespace Parser

/-- Read over type names and pointer stars. -/
def skipTypes : Parser Unit :=
  skipWhile fun t => t.kind.isValueType || t.kind = .star

/-- The 32-bit word written as the digits of a token. Signed and unsigned words
are both accepted; a value that is neither gives a complaint. -/
def word (token : Token) : Parser (Option Int32) := do
  match Text.readInt token.text with
  | some value =>
    if -2147483648 ≤ value && value ≤ 4294967295 then return some (Int32.ofInt value)
    report token (.integerRange token.text)
    return none
  | none =>
    report token (.integerRange token.text)
    return none

/-- Read an operand, which must stand on the given line. -/
def operand (line : Int) : Parser (Option Operand) := do
  if !(← onLine line) then
    report (← previous) .operandMissing
    return none
  let token ← current
  match token.kind with
  | .number =>
    match ← word token with
    | some value =>
      advance
      return some (.const value)
    | none => return none
  | .localName | .globalName =>
    advance
    return some (.name token.text)
  | found =>
    report token (.operandKind found)
    return none

/-- Read an operand after its type. -/
def typedOperand (line : Int) : Parser (Option Operand) := do
  skipTypes
  operand line

/-- Read two operands with a comma between them. -/
def operandPair (first second : Parser (Option Operand)) (comma : Requirement) :
    Parser (Option (List Operand)) := do
  match ← first with
  | none => return none
  | some a =>
    if !(← require comma) then return none
    match ← second with
    | none => return none
    | some b => return some [a, b]

/-- Read the operands that an operation takes. -/
def operands (line : Int) : Opcode → Parser (Option (List Operand))
  | .ret => do
    if ← accept (· = .void) then return some []
    return (← typedOperand line).map ([·])
  | .load => do
    skipTypes
    if !(← require .commaAfterLoadType) then return none
    return (← typedOperand line).map ([·])
  | .store => operandPair (typedOperand line) (typedOperand line) .commaInStore
  | .arith _ => do
    skipWhile fun t => t.kind = .ident
    operandPair (typedOperand line) (operand line) .commaInArith
  | .alloca | .other | .unlisted _ => return some []

/-- Read the rest of an instruction after its operation. -/
def operation (line : Int) (result : Option String) (token : Token) :
    Parser (Option Instruction) := do
  let opcode := Opcode.ofName token.text
  match ← operands line opcode with
  | none => return none
  | some args =>
    let i : Instruction := { opcode, result, args }
    match i.check with
    | .ok () => return some i
    | .error fault =>
      report token (.instruction fault)
      return none

/-- Read an instruction after its first token. -/
def instructionParts (start : Token) : Parser (Option Instruction) := do
  match start.kind with
  | .localName =>
    if !(← require .equalsAfterResult) then return none
    let token ← current
    if token.kind = .ident then
      advance
      operation start.line (some start.text) token
    else
      report token .opcode
      return none
  | .ident => operation start.line none start
  | _ =>
    report start .opcode
    return none

/-- Read an instruction and what remains on its line. -/
def instruction (start : Token) : Parser (Option Instruction) := do
  let i ← instructionParts start
  skipLine start.line
  return i

end Parser

/-- A line of a function's body. -/
inductive BodyItem where
  | label (name : String)
  | instruction (i : Option Instruction)
  deriving Repr

namespace BodyItem

/-- Read one line of a function's body after its first token. -/
def read (start : Token) : Parser BodyItem := do
  let next ← Parser.current
  if (start.kind = .ident || start.kind = .number) &&
      next.kind = .colon && next.line = start.line then
    Parser.advance
    return .label start.text
  return .instruction (← Parser.instruction start)

/-- The instructions before the first label, and the blocks from there on. -/
def split : List BodyItem → List Instruction × List Block
  | [] => ([], [])
  | .label name :: rest =>
    let (body, blocks) := split rest
    ([], { label := name, body } :: blocks)
  | .instruction i :: rest =>
    let (body, blocks) := split rest
    (i.toList ++ body, blocks)

/-- The blocks of a function. Instructions before the first label form an entry
block named after the function. -/
def blocks (function : String) (items : List BodyItem) : List Block :=
  let (body, blocks) := split items
  if body.isEmpty then blocks else { label := function ++ "Entry", body } :: blocks

end BodyItem

namespace Parser

/-- Read the definition of a global after its name. -/
def globalParts (name : Token) : Parser (Option Global) := do
  if !(← require .equalsAfterGlobal) then return none
  skipWhile fun t => t.line = name.line && t.kind != .global && t.kind != .constant
  if !(← accept fun kind => kind = .global || kind = .constant) then
    report name (.definitionWord name.text)
    return none
  skipTypes
  let token ← current
  if token.kind = .number then
    match ← word token with
    | none => return none
    | some value =>
      advance
      return some { name := name.text, value }
  if token.kind = .ident && token.text = "zeroinitializer" then
    advance
    return some { name := name.text }
  report token (.initializer name.text)
  return none

/-- Read a function after the word that starts its definition. -/
def func (start : Token) : Parser (Option Func) := do
  skipWhile fun t => t.kind != .globalName && t.line = start.line
  let name ← current
  if name.kind != .globalName then
    report start .functionName
    skipLine start.line
    return none
  advance
  skipWhile fun t => t.kind != .leftBrace
  if !(← require .openBody) then return none
  let items ← each (fun t => t.kind = .rightBrace) BodyItem.read
  let _ ← require .closeBody
  return some { name := name.text, blocks := BodyItem.blocks name.text items }

end Parser

/-- Read one item of the top level after its first token: the part of the module
that it contributes. -/
def topItem (start : Token) : Parser Module := do
  match start.kind with
  | .globalName =>
    let g ← Parser.globalParts start
    Parser.skipLine start.line
    return { globals := g.toList }
  | .define => return { funcs := (← Parser.func start).toList }
  | _ =>
    Parser.skipLine start.line
    return {}

/-- Read a module from tokens. What follows the first end of a file is not read;
without one, the input ends after the last token. -/
def parseTokens (tokens : List Token) : Except (List Complaint) Module :=
  let final := (tokens.find? fun t => t.kind = .endOfFile).getD {}
  let stream : Stream := { rest := tokens.takeWhile fun t => t.kind != .endOfFile }
  let (items, left) := (Parser.each (fun _ => false) topItem).run final stream
  if left.complaints.isEmpty then
    .ok { globals := items.flatMap Module.globals, funcs := items.flatMap Module.funcs }
  else .error left.complaints

/-- Read a module from the text of a file. Complaints about the spelling of
tokens hide those about the grammar. -/
def parse (file : Int) (text : String) : Except (List Complaint) Module :=
  let lexed := lex file text
  if lexed.complaints.isEmpty then parseTokens lexed.tokens else .error lexed.complaints

end RiscBackend.Source
