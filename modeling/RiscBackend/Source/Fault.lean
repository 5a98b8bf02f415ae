/-
# Syntax faults

Everything that can be wrong with a source text, as causes, with the wording in
one place. A complaint is a fault at a token.
-/

import RiscBackend.Diagnostic
import RiscBackend.IR.Check

namespace RiscBackend.Source

/-- A punctuation mark that the grammar requires at some point. -/
inductive Requirement where
  | equalsAfterGlobal
  | openBody
  | closeBody
  | equalsAfterResult
  | commaAfterLoadType
  | commaInStore
  | commaInArith
  deriving DecidableEq, Repr

namespace Requirement

/-- The class of the required mark. -/
def kind : Requirement → TokenKind
  | equalsAfterGlobal | equalsAfterResult => .equals
  | openBody => .leftBrace
  | closeBody => .rightBrace
  | commaAfterLoadType | commaInStore | commaInArith => .comma

/-- How the requirement is named in messages. -/
def describe : Requirement → String
  | equalsAfterGlobal => "expected '=' after global name"
  | openBody => "expected '\x7b' to open function body"
  | closeBody => "expected '\x7d' to close function body"
  | equalsAfterResult => "expected '=' after result name"
  | commaAfterLoadType => "expected ',' after load type"
  | commaInStore => "expected ',' between store operands"
  | commaInArith => "expected ',' between operands"

end Requirement

/-- What is wrong with a source text. -/
inductive SyntaxFault where
  | unexpectedCharacter (c : Char)
  | unterminatedName
  | missingName
  | required (what : Requirement) (found : TokenKind)
  | definitionWord (name : String)
  | initializer (name : String)
  | integerRange (digits : String)
  | functionName
  | opcode
  | operandMissing
  | operandKind (found : TokenKind)
  | instruction (fault : IR.InstructionFault)
  deriving DecidableEq, Repr

/-- The wording of a syntax fault. -/
def SyntaxFault.message : SyntaxFault → String
  | unexpectedCharacter c => "unexpected character: '" ++ c.toString ++ "'"
  | unterminatedName => "unterminated quoted name"
  | missingName => "expected a name after sigil"
  | required what found => what.describe ++ " (found " ++ found.describe ++ ")"
  | definitionWord name => "expected 'global' or 'constant' in definition of '@" ++ name ++ "'"
  | initializer name => "expected an integer initializer for '@" ++ name ++ "'"
  | integerRange digits => "integer constant '" ++ digits ++ "' does not fit in 32 bits"
  | functionName => "expected a function name after 'define'"
  | opcode => "expected an opcode"
  | operandMissing => "expected an operand"
  | operandKind found => "expected an operand (found " ++ found.describe ++ ")"
  | instruction fault => fault.message

/-- A fault at a token. -/
structure Complaint where
  token : Token
  fault : SyntaxFault
  deriving DecidableEq, Repr

/-- A complaint as a diagnostic. -/
def Complaint.diagnostic (c : Complaint) : Diagnostic :=
  .errorAt c.token c.fault.message

end RiscBackend.Source
