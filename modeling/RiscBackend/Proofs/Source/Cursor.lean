/-
# Reading tokens by position

This is the grammar once more, for a reader that keeps a position in a list of tokens. A token
outside of the list cannot be looked at, and a loop goes on for as long as its test says so. The
number of rounds that a loop may take is given from outside. A walk that looks at a token which is
not there, or in which a loop takes more rounds, has no outcome. So a loop without an end leaves a
walk without an outcome, however many rounds are given, and it has to be shown that there is one.

The list is made to end in an end of a file, and advancing from its last token does nothing. The
two places that look beyond the current token are `advance` and `label?`.
-/

import RiscBackend.Source.Grammar

namespace RiscBackend.Source

open IR (Operand Opcode Instruction Func Global Module)

/-- Where a reader stands, with the token there, the one before, and the complaints so far. -/
structure Cursor where
  position : Nat := 0
  current : Token
  previous : Token := {}
  complaints : List Complaint := []

/-- What a reader is given: a list of tokens, and the rounds that a loop may take. -/
structure Tape where
  tokens : List Token
  rounds : Nat

/-- What a reader does with a tape from a position on. -/
abbrev Walk (α : Type) : Type :=
  ReaderT Tape (StateT Cursor Option) α

namespace Walk

variable {α : Type}

/-- The value and the cursor to which a walk comes, if it comes to an end. -/
def outcome? (w : Walk α) (tape : Tape) (c : Cursor) : Option (α × Cursor) :=
  (ReaderT.run w tape).run c

/-- The token at a position, if there is one. -/
def tokenAt (position : Nat) : Walk Token := fun tape c =>
  (tape.tokens[position]?).map fun t => (t, c)

/-- The token at the cursor. -/
def current : Walk Token :=
  return (← get).current

/-- The token from which the cursor was moved last. -/
def previous : Walk Token :=
  return (← get).previous

/-- Record a complaint. -/
def report (token : Token) (fault : SyntaxFault) : Walk Unit :=
  modify fun c => { c with complaints := c.complaints ++ [{ token, fault }] }

/-- Move to the next token, unless the cursor is at the last one. -/
def advance : Walk Unit := do
  let c ← get
  if c.position + 1 < (← read).tokens.length then
    let next ← tokenAt (c.position + 1)
    set { c with position := c.position + 1, current := next, previous := c.current }

/-- Advance while the current token satisfies a test, in the given number of rounds. -/
def skipRounds (test : Token → Bool) : Nat → Walk Unit
  | 0 => failure
  | rounds + 1 => do
    if test (← current) then
      advance
      skipRounds test rounds

/-- Advance while the current token satisfies a test. -/
def skipWhile (test : Token → Bool) : Walk Unit := do
  skipRounds test (← read).rounds

/-- Read items while the current token satisfies a test, in the given number of rounds. -/
def eachRound (goesOn : Token → Bool) (item : Walk α) : Nat → Walk (List α)
  | 0 => failure
  | rounds + 1 => do
    if goesOn (← current) then
      let first ← item
      let later ← eachRound goesOn item rounds
      return first :: later
    return []

/-- Read items while the current token satisfies a test. -/
def each (goesOn : Token → Bool) (item : Walk α) : Walk (List α) := do
  eachRound goesOn item (← read).rounds

/-- Advance over a token of an accepted class. -/
def accept (test : TokenKind → Bool) : Walk Bool := do
  if test (← current).kind then
    advance
    return true
  return false

/-- Advance over a required mark, or complain about what stands in its place. -/
def require (what : Requirement) : Walk Bool := do
  let found ← current
  if found.kind = what.kind then
    advance
    return true
  report found (.required what found.kind)
  return false

/-- Whether a token is on a given line. The end of a file is on no line. -/
def onLine (line : Int) (t : Token) : Bool :=
  t.kind != .endOfFile && t.line = line

/-- Advance over what remains on a line. -/
def skipLine (line : Int) : Walk Unit :=
  skipWhile (onLine line)

/-- Advance over type names and pointer stars. -/
def skipTypes : Walk Unit :=
  skipWhile fun t => t.kind.isValueType || t.kind = .star

/-- The word that a token stands for. -/
def word (token : Token) : Walk (Option Int32) := do
  match Text.readInt token.text with
  | some value =>
    if -2147483648 ≤ value && value ≤ 4294967295 then return some (Int32.ofInt value)
    report token (.integerRange token.text)
    return none
  | none =>
    report token (.integerRange token.text)
    return none

/-- An operand, which must stand on the given line. -/
def operand (line : Int) : Walk (Option Operand) := do
  if !onLine line (← current) then
    report (← previous) .operandMissing
    return none
  let token ← current
  match token.kind with
  | .number =>
    match ← word token with
    | some value =>
      advance
      return some (.const value)
    | none => return none
  | .localName | .globalName =>
    advance
    return some (.name token.text)
  | found =>
    report token (.operandKind found)
    return none

/-- An operand after its type. -/
def typedOperand (line : Int) : Walk (Option Operand) := do
  skipTypes
  operand line

/-- Two operands with a comma between them. -/
def operandPair (first second : Walk (Option Operand)) (comma : Requirement) :
    Walk (Option (List Operand)) := do
  match ← first with
  | none => return none
  | some a =>
    if !(← require comma) then return none
    match ← second with
    | none => return none
    | some b => return some [a, b]

/-- The operands that an operation takes. -/
def operands (line : Int) : Opcode → Walk (Option (List Operand))
  | .ret => do
    if ← accept (· = .void) then return some []
    return (← typedOperand line).map ([·])
  | .load => do
    skipTypes
    if !(← require .commaAfterLoadType) then return none
    return (← typedOperand line).map ([·])
  | .store => operandPair (typedOperand line) (typedOperand line) .commaInStore
  | .arith _ => do
    skipWhile fun t => t.kind = .ident
    operandPair (typedOperand line) (operand line) .commaInArith
  | .alloca | .other | .unlisted _ => return some []

/-- The rest of an instruction after its operation. -/
def operation (line : Int) (result : Option String) (token : Token) :
    Walk (Option Instruction) := do
  let opcode := Opcode.ofName token.text
  match ← operands line opcode with
  | none => return none
  | some args =>
    let i : Instruction := { opcode, result, args }
    match i.check with
    | .ok () => return some i
    | .error fault =>
      report token (.instruction fault)
      return none

/-- The parts of an instruction, from its first token on. A token that cannot start one is
complained about and left for the end of the line. -/
def instructionParts (start : Token) : Walk (Option Instruction) := do
  match start.kind with
  | .localName =>
    advance
    if !(← require .equalsAfterResult) then return none
    let token ← current
    if token.kind = .ident then
      advance
      operation start.line (some start.text) token
    else
      report token .opcode
      return none
  | .ident =>
    advance
    operation start.line none start
  | _ =>
    report start .opcode
    return none

/-- An instruction and what remains on its line. -/
def instruction : Walk (Option Instruction) := do
  let start ← current
  let i ← instructionParts start
  skipLine start.line
  return i

/-- A label: a name or a number with a colon after it on the same line. It takes a look at the
token after the current one. -/
def label? : Walk (Option String) := do
  let start ← current
  if start.kind = .ident || start.kind = .number then
    let next ← tokenAt ((← get).position + 1)
    if next.kind = .colon && next.line = start.line then
      advance
      advance
      return some start.text
  return none

/-- A line of a function's body. -/
def bodyItem : Walk BodyItem := do
  match ← label? with
  | some name => return .label name
  | none => return .instruction (← instruction)

/-- Advance over one of the words that define a global. -/
def definitionWord : Walk Bool := do
  if ← accept (· = .global) then return true
  accept (· = .constant)

/-- The definition of a global after its name. -/
def globalParts (name : Token) : Walk (Option Global) := do
  if !(← require .equalsAfterGlobal) then return none
  skipWhile fun t => onLine name.line t && t.kind != .global && t.kind != .constant
  if !(← definitionWord) then
    report name (.definitionWord name.text)
    return none
  skipTypes
  let token ← current
  if token.kind = .number then
    match ← word token with
    | none => return none
    | some value =>
      advance
      return some { name := name.text, value }
  if token.kind = .ident && token.text = "zeroinitializer" then
    advance
    return some { name := name.text }
  report token (.initializer name.text)
  return none

/-- A function, from the word that starts its definition on. -/
def func : Walk (Option Func) := do
  let start ← current
  advance
  skipWhile fun t => t.kind != .globalName && onLine start.line t
  let name ← current
  if name.kind != .globalName then
    report start .functionName
    skipLine start.line
    return none
  advance
  skipWhile fun t => t.kind != .leftBrace && t.kind != .endOfFile
  if !(← require .openBody) then return none
  let items ← each (fun t => t.kind != .rightBrace && t.kind != .endOfFile) bodyItem
  let _ ← require .closeBody
  return some { name := name.text, blocks := BodyItem.blocks name.text items }

/-- An item of the top level: the part of the module that it contributes. -/
def topItem : Walk Module := do
  let start ← current
  match start.kind with
  | .globalName =>
    advance
    let g ← globalParts start
    skipLine start.line
    return { globals := g.toList }
  | .define => return { funcs := (← func).toList }
  | _ =>
    skipLine start.line
    return {}

/-- A whole module. -/
def wholeModule : Walk Module := do
  let items ← each (fun t => t.kind != .endOfFile) topItem
  return { globals := items.flatMap Module.globals, funcs := items.flatMap Module.funcs }

end Walk

/-- Tokens with an end of a file behind them, unless they end in one. -/
def padded (tokens : List Token) : List Token :=
  if tokens.getLast?.any (·.kind = .endOfFile) then tokens else tokens ++ [({} : Token)]

/-- Walk over tokens from the first one on, where no loop takes more than the given rounds. -/
def walkTokens? (rounds : Nat) (tokens : List Token) : Option (Module × Cursor) :=
  ((padded tokens)[0]?).bind fun first =>
    Walk.wholeModule.outcome? ⟨padded tokens, rounds⟩ { current := first }

end RiscBackend.Source
