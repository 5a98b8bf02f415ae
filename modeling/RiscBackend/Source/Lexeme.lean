/-
# Lexemes

A source text is cut into lexemes: blanks, comments, tokens and stray characters.
The cut loses nothing: the characters of the lexemes, one after another, are the
source text. Places in the text are assigned afterwards, by adding up what the
earlier lexemes cover.
-/

import RiscBackend.Source.Fault
import RiscBackend.Text.Digit
import RiscBackend.Text.Letter

namespace RiscBackend.Source

/-- Whether a character may stand in a bare name. -/
def isNameChar (c : Char) : Bool :=
  Text.isLetter c || Text.isDigit c || c = '_' || c = '.' || c = '$' || c = '-'

/-- Whether a character starts a word. -/
def isWordStart (c : Char) : Bool :=
  Text.isLetter c || c = '_'

/-- Whether a character continues a word. -/
def isWordChar (c : Char) : Bool :=
  isNameChar c && c != '-'

/-- What a lexeme is. A token may carry a fault of its own spelling. -/
inductive LexemeForm where
  | blank
  | comment
  | token (kind : TokenKind) (text : String) (fault : Option SyntaxFault)
  | stray (c : Char)
  deriving DecidableEq, Repr

/-- A piece of source text and what it is. -/
structure Lexeme where
  form : LexemeForm
  chars : List Char
  deriving DecidableEq, Repr

namespace Lexeme

/-- A token without a fault. -/
def plain (kind : TokenKind) (text : String) (chars : List Char) : Lexeme :=
  { form := .token kind text none, chars }

/-- A word, which is a keyword or an identifier. -/
def word (chars : List Char) : Lexeme :=
  plain (.ofWord (String.ofList chars)) (String.ofList chars) chars

/-- A number. -/
def number (chars : List Char) : Lexeme :=
  plain .number (String.ofList chars) chars

/-- Whether a character can stand between the quotes of a name. -/
def isQuotedChar (c : Char) : Bool :=
  c != '"' && c != '\n'

/-- Cut the name after a sigil off the text. A quoted name ends at the closing
quote or, with a fault, at the end of its line; a bare name is a run of name
characters and must not be empty. -/
def cutName (kind : TokenKind) (sigil : Char) (rest : List Char) : Lexeme × List Char :=
  match rest with
  | '"' :: quotedText =>
    let body := quotedText.takeWhile isQuotedChar
    match quotedText.dropWhile isQuotedChar with
    | '"' :: after => (plain kind (String.ofList body) (sigil :: '"' :: body ++ ['"']), after)
    | after =>
      ({ form := .token kind (String.ofList body) (some .unterminatedName)
         chars := sigil :: '"' :: body }, after)
  | _ =>
    let body := rest.takeWhile isNameChar
    let fault := if body.isEmpty then some .missingName else none
    ({ form := .token kind (String.ofList body) fault, chars := sigil :: body },
      rest.dropWhile isNameChar)

/-- Cut the lexeme that starts with `c` off the text `c :: rest`. -/
def cut (c : Char) (rest : List Char) : Lexeme × List Char :=
  if c = ' ' || c = '\t' || c = '\n' || c = '\r' then ({ form := .blank, chars := [c] }, rest)
  else if c = ';' then
    ({ form := .comment, chars := c :: rest.takeWhile (· != '\n') }, rest.dropWhile (· != '\n'))
  else if isWordStart c then
    (word (c :: rest.takeWhile isWordChar), rest.dropWhile isWordChar)
  else if Text.isDigit c || (c = '-' && rest.head?.any Text.isDigit) then
    (number (c :: rest.takeWhile Text.isDigit), rest.dropWhile Text.isDigit)
  else if c = '@' then cutName .globalName c rest
  else if c = '%' then cutName .localName c rest
  else match TokenKind.ofMark? c with
    | some kind => (plain kind "" [c], rest)
    | none => ({ form := .stray c, chars := [c] }, rest)

/-- Cutting a name leaves no more text than there was. -/
theorem cutName_rest_length_le (kind : TokenKind) (sigil : Char) (rest : List Char) :
    (cutName kind sigil rest).2.length ≤ rest.length := by
  unfold cutName
  split
  · next quotedText =>
    have shorter : (quotedText.dropWhile isQuotedChar).length ≤ quotedText.length :=
      (List.dropWhile_suffix _).length_le
    dsimp only
    split
    · next after found =>
      rw [found] at shorter
      simp only [List.length_cons] at shorter ⊢
      omega
    · simp only [List.length_cons]
      omega
  · exact (List.dropWhile_suffix _).length_le

/-- Cutting a lexeme leaves no more text than followed its first character. -/
theorem cut_rest_length_le (c : Char) (rest : List Char) :
    (cut c rest).2.length ≤ rest.length := by
  unfold cut
  repeat' split
  all_goals first
    | exact Nat.le_refl _
    | exact (List.dropWhile_suffix _).length_le
    | exact cutName_rest_length_le _ _ _

end Lexeme

/-- The lexemes of a text. -/
def lexemes : List Char → List Lexeme
  | [] => []
  | c :: rest => (Lexeme.cut c rest).1 :: lexemes (Lexeme.cut c rest).2
termination_by cs => cs.length
decreasing_by
  have bound := Lexeme.cut_rest_length_le c rest
  simp only [List.length_cons]
  omega

end RiscBackend.Source
