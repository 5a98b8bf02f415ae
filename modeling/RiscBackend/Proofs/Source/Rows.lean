/-
# Rows of tokens

A line of text is made of blanks, marks, words, numbers and names. If words, numbers and
bare names are followed by something that cannot belong to them, the line is cut into
just these tokens, all of them on that line. So a text of such lines becomes rows of
tokens, one row per line, with nothing to complain about.
-/

import Mathlib.Data.List.Forall2
import RiscBackend.Proofs.Text.Cut
import RiscBackend.Source.Lexer

namespace RiscBackend.Source

/-- The class and the text of a token. -/
abbrev Tag := TokenKind × String

/-- The text does not go on with a character that a name could hold. -/
def Delimited (cs : List Char) : Prop :=
  ∀ c ∈ cs.head?, isNameChar c = false

theorem isNameChar_of_isWordChar {c : Char} (isWord : isWordChar c = true) :
    isNameChar c = true := by
  rw [isWordChar, Bool.and_eq_true] at isWord
  exact isWord.1

theorem isNameChar_of_isDigit {c : Char} (isDigit : Text.isDigit c = true) :
    isNameChar c = true := by
  simp [isNameChar, isDigit]

/-- What a name could not hold does not go on with a run inside a name. -/
theorem Delimited.ends {test : Char → Bool} {cs : List Char} (delimited : Delimited cs)
    (inName : ∀ c, test c = true → isNameChar c = true) : ∀ c ∈ cs.head?, test c = false := by
  intro c isHead
  by_contra isTest
  rw [Bool.not_eq_false] at isTest
  cases (delimited c isHead).symm.trans (inName c isTest)

/-- The sign in front of a name. -/
inductive Sigil where
  | ofGlobal
  | ofLocal
  deriving DecidableEq, Repr

namespace Sigil

def char : Sigil → Char
  | ofGlobal => '@'
  | ofLocal => '%'

/-- The class of the names with this sign. -/
def kind : Sigil → TokenKind
  | ofGlobal => .globalName
  | ofLocal => .localName

end Sigil

/-- The characters start like a number, and not like a word. -/
structure StartsNumber (c : Char) (rest : List Char) : Prop where
  not_word : isWordStart c = false
  digits : Text.isDigit c = true ∨ c = '-' ∧ rest.head?.any Text.isDigit = true

/-- A line spells tokens. -/
inductive Spells : List Char → List Tag → Prop
  | nil : Spells [] []
  | gap {cs : List Char} {tags : List Tag} (later : Spells cs tags) : Spells (' ' :: cs) tags
  | mark {c : Char} {kind : TokenKind} {cs : List Char} {tags : List Tag}
      (isMark : TokenKind.ofMark? c = some kind) (later : Spells cs tags) :
      Spells (c :: cs) ((kind, "") :: tags)
  | word {c : Char} {run cs : List Char} {tags : List Tag} (starts : isWordStart c = true)
      (continues : ∀ x ∈ run, isWordChar x = true) (delimited : Delimited cs)
      (later : Spells cs tags) :
      Spells (c :: (run ++ cs)) ((.ofWord (.ofList (c :: run)), .ofList (c :: run)) :: tags)
  | number {c : Char} {run cs : List Char} {tags : List Tag} (starts : StartsNumber c run)
      (continues : ∀ x ∈ run, Text.isDigit x = true) (delimited : Delimited cs)
      (later : Spells cs tags) :
      Spells (c :: (run ++ cs)) ((.number, .ofList (c :: run)) :: tags)
  | bare (sigil : Sigil) {run cs : List Char} {tags : List Tag} (nonempty : run ≠ [])
      (continues : ∀ x ∈ run, isNameChar x = true) (delimited : Delimited cs)
      (later : Spells cs tags) :
      Spells (sigil.char :: (run ++ cs)) ((sigil.kind, .ofList run) :: tags)
  | quoted (sigil : Sigil) {run cs : List Char} {tags : List Tag}
      (continues : ∀ x ∈ run, Lexeme.isQuotedChar x = true) (later : Spells cs tags) :
      Spells (sigil.char :: '"' :: (run ++ '"' :: cs)) ((sigil.kind, .ofList run) :: tags)

section Cut

variable {c : Char} {run cs : List Char}

/-- A word is cut off as a whole. -/
theorem cut_word (starts : isWordStart c = true) (continues : ∀ x ∈ run, isWordChar x = true)
    (ends : ∀ x ∈ cs.head?, isWordChar x = false) :
    Lexeme.cut c (run ++ cs) = (.word (c :: run), cs) := by
  have ne {d : Char} (other : isWordStart d = false) : c ≠ d := by
    rintro rfl
    cases starts.symm.trans other
  obtain ⟨taken, dropped⟩ := Text.span_of_ends continues ends
  rw [Lexeme.cut, if_neg, if_neg, if_pos starts, taken, dropped]
  · exact ne (by decide)
  · simp [ne (show isWordStart ' ' = false by decide), ne (show isWordStart '\t' = false by decide),
      ne (show isWordStart '\n' = false by decide), ne (show isWordStart '\r' = false by decide)]

/-- A number is cut off as a whole. -/
theorem cut_number (starts : StartsNumber c run) (continues : ∀ x ∈ run, Text.isDigit x = true)
    (ends : ∀ x ∈ cs.head?, Text.isDigit x = false) :
    Lexeme.cut c (run ++ cs) = (.number (c :: run), cs) := by
  have ne {d : Char} (notDigit : Text.isDigit d = false) (notMinus : d ≠ '-') : c ≠ d := by
    rintro rfl
    rcases starts.digits with isDigit | ⟨isMinus, -⟩
    · cases isDigit.symm.trans notDigit
    · exact notMinus isMinus
  have isNumber : (Text.isDigit c || (c = '-' && (run ++ cs).head?.any Text.isDigit)) = true := by
    rcases starts.digits with isDigit | ⟨rfl, isDigit⟩
    · rw [isDigit, Bool.true_or]
    · cases run with
      | nil => cases isDigit
      | cons x rest => simpa using .inr isDigit
  obtain ⟨taken, dropped⟩ := Text.span_of_ends continues ends
  rw [Lexeme.cut, if_neg, if_neg, if_neg (by simp [starts.not_word]), if_pos isNumber, taken,
    dropped]
  · exact ne (by decide) (by decide)
  · simp [ne (show Text.isDigit ' ' = false by decide) (by decide),
      ne (show Text.isDigit '\t' = false by decide) (by decide),
      ne (show Text.isDigit '\n' = false by decide) (by decide),
      ne (show Text.isDigit '\r' = false by decide) (by decide)]

theorem cut_sigil (sigil : Sigil) (rest : List Char) :
    Lexeme.cut sigil.char rest = Lexeme.cutName sigil.kind sigil.char rest := by
  cases sigil with
  | ofGlobal => rfl
  | ofLocal => rfl

/-- A bare name is cut off as a whole, and an empty one is at fault. -/
theorem cutName_unquoted (kind : TokenKind) (continues : ∀ x ∈ run, isNameChar x = true)
    (delimited : Delimited cs) (unquoted : run = [] → cs.head? ≠ some '"') :
    Lexeme.cutName kind c (run ++ cs) =
      ({ form := .token kind (.ofList run) (if run.isEmpty then some .missingName else none)
         chars := c :: run }, cs) := by
  obtain ⟨taken, dropped⟩ := Text.span_of_ends continues delimited
  rw [Lexeme.cutName, taken, dropped]
  rintro quotedText isQuoted
  cases run with
  | nil => exact unquoted rfl (by rw [← List.nil_append cs, isQuoted]; rfl)
  | cons x rest =>
    obtain rfl : x = '"' := (List.cons.inj isQuoted).1
    have isName := continues '"' List.mem_cons_self
    cases isName.symm.trans (show isNameChar '"' = false by decide)

theorem cutName_bare (kind : TokenKind) (nonempty : run ≠ [])
    (continues : ∀ x ∈ run, isNameChar x = true) (delimited : Delimited cs) :
    Lexeme.cutName kind c (run ++ cs) = (.plain kind (.ofList run) (c :: run), cs) := by
  rw [cutName_unquoted kind continues delimited fun isEmpty => absurd isEmpty nonempty,
    if_neg (by simpa using nonempty)]
  rfl

/-- A quoted name is cut off with its quotes. -/
theorem cutName_quoted (kind : TokenKind) (continues : ∀ x ∈ run, Lexeme.isQuotedChar x = true) :
    Lexeme.cutName kind c ('"' :: (run ++ '"' :: cs)) =
      (.plain kind (.ofList run) (c :: '"' :: run ++ ['"']), cs) := by
  have closes : ¬ Lexeme.isQuotedChar '"' = true := by decide
  rw [Lexeme.cutName, List.takeWhile_append_of_pos continues,
    List.dropWhile_append_of_pos continues, List.takeWhile_cons_of_neg closes,
    List.dropWhile_cons_of_neg closes, List.append_nil]
  rfl

/-- A mark is cut off alone. -/
theorem cut_mark {kind : TokenKind} (isMark : TokenKind.ofMark? c = some kind) (cs : List Char) :
    Lexeme.cut c cs = (.plain kind "" [c], cs) := by
  unfold TokenKind.ofMark? at isMark
  split at isMark
  all_goals
    cases isMark
  all_goals rfl

/-- Marks are of classes of their own. -/
theorem kind_of_mark {kind : TokenKind} (isMark : TokenKind.ofMark? c = some kind) :
    kind ≠ .endOfFile ∧ kind ≠ .ident ∧ kind ≠ .number := by
  unfold TokenKind.ofMark? at isMark
  split at isMark
  all_goals
    cases isMark
  all_goals decide

end Cut

theorem ofWord_ne_endOfFile (word : String) : TokenKind.ofWord word ≠ .endOfFile := by
  rw [TokenKind.ofWord.eq_def]
  split <;> simp

/-- A line does not spell the end of the file. -/
theorem Spells.ne_endOfFile {cs : List Char} {tags : List Tag} (spells : Spells cs tags) :
    ∀ tag ∈ tags, tag.1 ≠ .endOfFile := by
  induction spells with
  | nil => simp
  | gap _ ih => exact ih
  | mark isMark _ ih => exact List.forall_mem_cons.mpr ⟨(kind_of_mark isMark).1, ih⟩
  | word _ _ _ _ ih => exact List.forall_mem_cons.mpr ⟨ofWord_ne_endOfFile _, ih⟩
  | number _ _ _ _ ih => exact List.forall_mem_cons.mpr ⟨by simp, ih⟩
  | bare sigil _ _ _ _ ih =>
    exact List.forall_mem_cons.mpr ⟨by cases sigil <;> simp [Sigil.kind], ih⟩
  | quoted sigil _ _ ih =>
    exact List.forall_mem_cons.mpr ⟨by cases sigil <;> simp [Sigil.kind], ih⟩

/-- A token with a class and a text, on a line. -/
structure Token.Is (line : Int) (tag : Tag) (t : Token) : Prop where
  kind_eq : t.kind = tag.1
  text_eq : t.text = tag.2
  line_eq : t.line = line

theorem exists_tag_of_mem {line : Int} {tags : List Tag} {row : List Token} {t : Token}
    (spelled : List.Forall₂ (Token.Is line) tags row) (isToken : t ∈ row) :
    ∃ tag ∈ tags, t.Is line tag := by
  induction spelled with
  | nil => simp at isToken
  | cons is _ ih =>
    rcases List.mem_cons.mp isToken with rfl | isLater
    · exact ⟨_, List.mem_cons_self, is⟩
    · obtain ⟨tag, isTag, is'⟩ := ih isLater
      exact ⟨tag, List.mem_cons_of_mem _ isTag, is'⟩

theorem Position.line_after {cs : List Char} (oneLine : '\n' ∉ cs) (p : Position) :
    (p.after cs).line = p.line := by
  induction cs generalizing p with
  | nil => rfl
  | cons c rest ih =>
    rw [List.mem_cons, not_or] at oneLine
    show ((p.next c).after rest).line = p.line
    rw [ih oneLine.2, Position.next, if_neg (Ne.symm oneLine.1)]

theorem Position.is_token (p : Position) (file : Int) (kind : TokenKind) (text : String)
    (length : Nat) : (p.token file kind text length).Is p.line (kind, text) :=
  ⟨rfl, rfl, rfl⟩

/-- Tokens before what comes of the text after them. -/
def Lexed.prepend (row : List Token) (later : Lexed) : Lexed :=
  { later with tokens := row ++ later.tokens }

theorem placeLexemes_plain (file : Int) (p : Position) (kind : TokenKind) (text : String)
    (chars : List Char) (rest : List Lexeme) :
    placeLexemes file p (.plain kind text chars :: rest) =
      (placeLexemes file (p.after chars) rest).prepend
        [p.token file kind text chars.length] := rfl

theorem Delimited.append_newline {cs : List Char} (delimited : Delimited cs) (rest : List Char) :
    Delimited (cs ++ '\n' :: rest) := by
  cases cs with
  | nil =>
    rintro c ⟨⟩
    decide
  | cons c cs => exact delimited

/-- No name, word or number holds a line break. -/
theorem newline_not_mem {test : Char → Bool} {run : List Char} (holds : ∀ x ∈ run, test x = true)
    (breaks : test '\n' = false) : '\n' ∉ run := by
  intro isMember
  cases (holds _ isMember).symm.trans breaks

/-- The text starts with the tokens of a line, wherever that line is, and the rest of the
text is on the lines below. -/
def StartsRow (file : Int) (rest : List Char) (text : List Char) (tags : List Tag) : Prop :=
  ∀ p : Position, ∃ row, List.Forall₂ (Token.Is p.line) tags row ∧
    placeLexemes file p (lexemes text) =
      (placeLexemes file { line := p.line + 1 } (lexemes rest)).prepend row

/-- A token that is cut off goes in front of the row of the rest of its line. -/
theorem StartsRow.cons {file : Int} {rest left after chars : List Char} {tags : List Tag}
    {kind : TokenKind} {text : String} {c : Char} (starts : StartsRow file rest left tags)
    (cut_eq : Lexeme.cut c after = (.plain kind text chars, left)) (oneLine : '\n' ∉ chars) :
    StartsRow file rest (c :: after) ((kind, text) :: tags) := by
  intro p
  obtain ⟨row, spelled, placed⟩ := starts (p.after chars)
  rw [Position.line_after oneLine] at spelled placed
  refine ⟨p.token file kind text chars.length :: row, .cons (p.is_token ..) spelled, ?_⟩
  rw [lexemes, cut_eq, placeLexemes_plain, placed]
  rfl

/-- **A line becomes a row of tokens.** -/
theorem Spells.startsRow {cs : List Char} {tags : List Tag} (spells : Spells cs tags)
    (file : Int) (rest : List Char) : StartsRow file rest (cs ++ '\n' :: rest) tags := by
  induction spells with
  | nil =>
    intro p
    refine ⟨[], .nil, ?_⟩
    rw [List.nil_append, lexemes]
    rfl
  | gap _ ih =>
    intro p
    rw [List.cons_append, lexemes]
    exact ih (p.next ' ')
  | mark isMark _ ih =>
    apply ih.cons (cut_mark isMark _)
    rw [List.mem_singleton]
    rintro rfl
    cases isMark
  | word starts continues delimited _ ih =>
    rw [List.cons_append, List.append_assoc]
    apply ih.cons (cut_word starts continues
      ((delimited.append_newline rest).ends fun _ => isNameChar_of_isWordChar))
    rw [List.mem_cons, not_or]
    refine ⟨?_, newline_not_mem continues (by decide)⟩
    rintro rfl
    cases starts.symm.trans (show isWordStart '\n' = false by decide)
  | number starts continues delimited _ ih =>
    rw [List.cons_append, List.append_assoc]
    apply ih.cons (cut_number starts continues
      ((delimited.append_newline rest).ends fun _ => isNameChar_of_isDigit))
    rw [List.mem_cons, not_or]
    refine ⟨?_, newline_not_mem continues (by decide)⟩
    rintro rfl
    rcases starts.digits with isDigit | ⟨isMinus, -⟩
    · cases isDigit.symm.trans (show Text.isDigit '\n' = false by decide)
    · cases isMinus
  | bare sigil nonempty continues delimited _ ih =>
    have cut_eq := cutName_bare (c := sigil.char) sigil.kind nonempty continues
      (delimited.append_newline rest)
    rw [List.cons_append, List.append_assoc]
    apply ih.cons ((cut_sigil sigil _).trans cut_eq)
    rw [List.mem_cons, not_or]
    exact ⟨by cases sigil <;> decide, newline_not_mem continues (by decide)⟩
  | @quoted sigil run cs tags continues _ ih =>
    have cut_eq : Lexeme.cutName sigil.kind sigil.char
        ('"' :: (run ++ '"' :: (cs ++ '\n' :: rest))) = _ := cutName_quoted sigil.kind continues
    rw [List.cons_append, List.cons_append, List.append_assoc, List.cons_append]
    apply ih.cons ((cut_sigil sigil _).trans cut_eq)
    have inside := newline_not_mem continues (by decide)
    cases sigil <;> simp [Sigil.char, inside]

/-- Rows of tokens on the lines from one on. -/
inductive Rows : Nat → List (List Tag) → List Token → Prop
  | nil (line : Nat) : Rows line [] []
  | cons {line : Nat} {tags : List Tag} {lines : List (List Tag)} {row later : List Token}
      (spelled : List.Forall₂ (Token.Is line) tags row) (below : Rows (line + 1) lines later) :
      Rows line (tags :: lines) (row ++ later)

/-- **A text of lines becomes rows of tokens and the end of the file.** -/
theorem exists_rows {lines : List (List Char)} {tags : List (List Tag)}
    (spelled : List.Forall₂ Spells lines tags) (file : Int) (line : Nat) :
    ∃ tokens last, Rows line tags tokens ∧ (∀ t ∈ tokens, t.kind ≠ .endOfFile) ∧
      last.kind = .endOfFile ∧
      placeLexemes file { line } (lexemes (lines.flatMap (· ++ ['\n']))) =
        { tokens := tokens ++ [last], complaints := [] } := by
  induction spelled generalizing line with
  | nil =>
    refine ⟨[], Position.token { line } file .endOfFile "" 0, .nil line, by simp, rfl, ?_⟩
    rw [List.flatMap_nil, lexemes]
    rfl
  | cons spells _ ih =>
    obtain ⟨later, last, rows, goOn, isLast, placed⟩ := ih (line + 1)
    rw [List.flatMap_cons, List.append_assoc, List.singleton_append]
    obtain ⟨row, onLine, row_eq⟩ := spells.startsRow file _ { line }
    refine ⟨row ++ later, last, .cons onLine rows, ?_, isLast, ?_⟩
    · refine List.forall_mem_append.mpr ⟨fun t isToken => ?_, goOn⟩
      obtain ⟨tag, isTag, is⟩ := exists_tag_of_mem onLine isToken
      rw [is.kind_eq]
      exact spells.ne_endOfFile tag isTag
    · rw [row_eq, placed, List.append_assoc]
      rfl

end RiscBackend.Source
