/-
# Assembly programs

A program is a sequence of lines. Its text, its size and its digest are functions
of the lines alone.
-/

import RiscBackend.Asm.Line
import RiscBackend.Text.Digest

namespace RiscBackend.Asm

/-- A sequence of lines. -/
structure Program where
  lines : List Line := []
  deriving DecidableEq, Repr

namespace Program

/-- Add a statement at the end. -/
def push (p : Program) (stmt : Stmt) : Program :=
  { lines := p.lines ++ [{ stmt }] }

/-- Add a comment to the last line, if there is one. -/
def note (p : Program) (text : String) : Program :=
  { lines := p.lines.modify (p.lines.length - 1) fun l => { l with notes := l.notes ++ [text] } }

/-- The texts of the lines. -/
def lineTexts (p : Program) : List String :=
  p.lines.map Line.text

/-- The text of a program, every line with its end. -/
def text (p : Program) : String :=
  String.join (p.lineTexts.map fun line => line ++ "\n")

/-- The number of lines whose front word is a given mnemonic. -/
def count (p : Program) (mnemonic : String) : Nat :=
  (p.lineTexts.filter fun line => mnemonicOf line = mnemonic).length

/-- The digest of a program's text. -/
def digest (p : Program) : UInt64 :=
  Text.Digest.ofText p.text

end Program

end RiscBackend.Asm
