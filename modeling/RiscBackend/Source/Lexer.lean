/-
# Placed tokens

Lexemes become tokens by walking through the text with a line and a column.
Blanks and comments only move the place, a stray character is a complaint, and
after the last lexeme comes one token for the end of the file.
-/

import RiscBackend.Source.Lexeme

namespace RiscBackend.Source

/-- A place in a text, counted from one. -/
structure Position where
  line : Nat := 1
  column : Nat := 1
  deriving DecidableEq, Repr

namespace Position

/-- The place after one character. -/
def next (p : Position) (c : Char) : Position :=
  if c = '\n' then { line := p.line + 1, column := 1 } else { p with column := p.column + 1 }

/-- The place after a run of characters. -/
def after (p : Position) (cs : List Char) : Position :=
  cs.foldl next p

/-- A token that starts at a place. -/
def token (p : Position) (file : Int) (kind : TokenKind) (text : String) (length : Nat) : Token :=
  { kind, text, file, line := p.line, column := p.column, length }

end Position

/-- The outcome of cutting a text into tokens. -/
structure Lexed where
  tokens : List Token
  complaints : List Complaint
  deriving Repr

/-- Place lexemes in a file, the first of them at `p`. -/
def placeLexemes (file : Int) (p : Position) : List Lexeme → Lexed
  | [] => { tokens := [p.token file .endOfFile "" 0], complaints := [] }
  | lexeme :: rest =>
    let later := placeLexemes file (p.after lexeme.chars) rest
    match lexeme.form with
    | .blank | .comment => later
    | .token kind text fault =>
      let token := p.token file kind text lexeme.chars.length
      { tokens := token :: later.tokens
        complaints := (fault.map fun fault => { token, fault }).toList ++ later.complaints }
    | .stray c =>
      let token := p.token file .endOfFile "" lexeme.chars.length
      { later with complaints := { token, fault := .unexpectedCharacter c } :: later.complaints }

/-- The tokens of a text and the complaints about it. -/
def lex (file : Int) (text : String) : Lexed :=
  placeLexemes file {} (lexemes text.toList)

end RiscBackend.Source
