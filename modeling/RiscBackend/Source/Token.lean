/-
# Tokens

A token is a classified piece of source text together with its place: the index
of its file, the line and column of its first character, counted from one, and
its length in characters. A token whose line is zero has no place in any file.
-/

namespace RiscBackend.Source

/-- The classes of tokens. Every keyword and every punctuation mark is a class
of its own; `unlisted` is a class number that belongs to no known class. -/
inductive TokenKind where
  | endOfFile
  | ident
  | globalName
  | localName
  | number
  | define
  | declare
  | global
  | constant
  | label
  | void
  | i1
  | i32
  | ptr
  | equals
  | comma
  | colon
  | star
  | leftParen
  | rightParen
  | leftBrace
  | rightBrace
  | leftBracket
  | rightBracket
  | unlisted (code : Int)
  deriving DecidableEq, Repr

namespace TokenKind

/-- The known classes in the order of their class numbers. -/
def listed : List TokenKind :=
  [endOfFile, ident, globalName, localName, number, define, declare, global, constant, label,
   void, i1, i32, ptr, equals, comma, colon, star, leftParen, rightParen, leftBrace, rightBrace,
   leftBracket, rightBracket]

/-- The class with a given number. -/
def ofCode (code : Int) : TokenKind :=
  if code < 0 then unlisted code else listed.getD code.toNat (unlisted code)

/-- The number of a class. -/
def code : TokenKind → Int
  | unlisted code => code
  | kind => listed.idxOf kind

/-- The class of a word: a keyword, or else an identifier. -/
def ofWord (word : String) : TokenKind :=
  match word with
  | "define" => define
  | "declare" => declare
  | "global" => global
  | "constant" => constant
  | "label" => label
  | "void" => void
  | "i1" => i1
  | "i32" => i32
  | "ptr" => ptr
  | _ => ident

/-- The class of a punctuation mark. -/
def ofMark? : Char → Option TokenKind
  | '=' => some equals
  | ',' => some comma
  | ':' => some colon
  | '*' => some star
  | '(' => some leftParen
  | ')' => some rightParen
  | '{' => some leftBrace
  | '}' => some rightBrace
  | '[' => some leftBracket
  | ']' => some rightBracket
  | _ => none

/-- How a class is named in messages. -/
def describe : TokenKind → String
  | endOfFile => "end of file"
  | ident => "identifier"
  | globalName => "global name"
  | localName => "local name"
  | number => "number"
  | define => "'define'"
  | declare => "'declare'"
  | global => "'global'"
  | constant => "'constant'"
  | label => "'label'"
  | void => "'void'"
  | i1 => "'i1'"
  | i32 => "'i32'"
  | ptr => "'ptr'"
  | equals => "'='"
  | comma => "','"
  | colon => "':'"
  | star => "'*'"
  | leftParen => "'('"
  | rightParen => "')'"
  | leftBrace => "'\x7b'"
  | rightBrace => "'\x7d'"
  | leftBracket => "'['"
  | rightBracket => "']'"
  | unlisted code => s!"token({code})"

/-- Whether a class names a value type. -/
def isValueType : TokenKind → Bool
  | void | i1 | i32 | ptr => true
  | _ => false

end TokenKind

/-- A token and its place in the source. The default token is the end of a file
that has no place. -/
structure Token where
  /-- The class. -/
  kind : TokenKind := .endOfFile
  /-- The word, name or digits; empty for punctuation. -/
  text : String := ""
  /-- The index of the file among the sources of the run. -/
  file : Int := 0
  /-- The line, from one. -/
  line : Int := 0
  /-- The column, from one. -/
  column : Int := 0
  /-- The number of characters covered. -/
  length : Int := 0
  deriving DecidableEq, Repr, Inhabited

end RiscBackend.Source
