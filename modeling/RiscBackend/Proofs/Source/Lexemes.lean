/-
# What a lexeme can be

A text is cut into lexemes one after another. What a lexeme is depends on its own
characters and on the character after it: a word, a number or a bare name goes on as
long as it can, and a quoted name without its closing quote goes on to the end of the
line. Nothing is lost between two lexemes, and no token crosses the end of a line.
-/

import RiscBackend.Proofs.Source.Rows

namespace RiscBackend.Source

/-- The characters of a token of a given class and text, the fault of its spelling, and
the text that can follow. -/
inductive FormsToken :
    TokenKind → String → Option SyntaxFault → List Char → List Char → Prop
  | word {text : String} {c : Char} {run rest : List Char} (spelled : text.toList = c :: run)
      (starts : isWordStart c = true) (continues : ∀ x ∈ run, isWordChar x = true)
      (ends : ∀ x ∈ rest.head?, isWordChar x = false) :
      FormsToken (.ofWord text) text none text.toList rest
  | number {text : String} {c : Char} {run rest : List Char} (spelled : text.toList = c :: run)
      (starts : StartsNumber c run) (continues : ∀ x ∈ run, Text.isDigit x = true)
      (ends : ∀ x ∈ rest.head?, Text.isDigit x = false) :
      FormsToken .number text none text.toList rest
  | bare (sigil : Sigil) {text : String} {rest : List Char}
      (continues : ∀ x ∈ text.toList, isNameChar x = true) (delimited : Delimited rest)
      (unquoted : text = "" → rest.head? ≠ some '"') :
      FormsToken sigil.kind text (if text = "" then some .missingName else none)
        (sigil.char :: text.toList) rest
  | quoted (sigil : Sigil) {text : String} {rest : List Char}
      (continues : ∀ x ∈ text.toList, Lexeme.isQuotedChar x = true) :
      FormsToken sigil.kind text none (sigil.char :: '"' :: text.toList ++ ['"']) rest
  | unterminated (sigil : Sigil) {text : String} {rest : List Char}
      (continues : ∀ x ∈ text.toList, Lexeme.isQuotedChar x = true)
      (ends : ∀ x ∈ rest.head?, x = '\n') :
      FormsToken sigil.kind text (some .unterminatedName) (sigil.char :: '"' :: text.toList) rest
  | mark {kind : TokenKind} {c : Char} {rest : List Char}
      (isMark : TokenKind.ofMark? c = some kind) : FormsToken kind "" none [c] rest

namespace FormsToken

variable {kind : TokenKind} {text : String} {fault : Option SyntaxFault} {chars rest : List Char}

theorem chars_ne_nil (forms : FormsToken kind text fault chars rest) : chars ≠ [] := by
  cases forms with
  | word spelled => simp [spelled]
  | number spelled => simp [spelled]
  | bare | quoted | unterminated | mark => simp

/-- The end of the file is not spelled. -/
theorem kind_ne_endOfFile (forms : FormsToken kind text fault chars rest) :
    kind ≠ .endOfFile := by
  cases forms with
  | word => exact ofWord_ne_endOfFile _
  | number => simp
  | bare sigil | quoted sigil | unterminated sigil => cases sigil <;> simp [Sigil.kind]
  | mark isMark => exact (kind_of_mark isMark).1

/-- A token stays on its line. -/
theorem oneLine (forms : FormsToken kind text fault chars rest) : '\n' ∉ chars := by
  cases forms with
  | word spelled starts continues =>
    rw [spelled, List.mem_cons, not_or]
    refine ⟨?_, newline_not_mem continues (by decide)⟩
    rintro rfl
    cases starts.symm.trans (show isWordStart '\n' = false by decide)
  | number spelled starts continues =>
    rw [spelled, List.mem_cons, not_or]
    refine ⟨?_, newline_not_mem continues (by decide)⟩
    rintro rfl
    rcases starts.digits with isDigit | ⟨isMinus, -⟩
    · cases isDigit.symm.trans (show Text.isDigit '\n' = false by decide)
    · cases isMinus
  | bare sigil continues =>
    have inside := newline_not_mem continues (by decide)
    cases sigil <;> simp [Sigil.char, inside]
  | quoted sigil continues | unterminated sigil continues =>
    have inside := newline_not_mem continues (by decide)
    cases sigil <;> simp [Sigil.char, inside]
  | mark isMark =>
    rw [List.mem_singleton]
    rintro rfl
    cases isMark

end FormsToken

/-- Whether a character separates tokens and means nothing else. -/
def IsBlank (c : Char) : Prop :=
  c = ' ' ∨ c = '\t' ∨ c = '\n' ∨ c = '\r'

/-- Whether a character, before the rest of its text, starts nothing that is known. -/
structure Unexpected (c : Char) (rest : List Char) : Prop where
  not_blank : ¬ IsBlank c
  not_comment : c ≠ ';'
  not_word : isWordStart c = false
  not_number : ¬ StartsNumber c rest
  not_sigil : ∀ sigil : Sigil, c ≠ sigil.char
  not_mark : TokenKind.ofMark? c = none

namespace Lexeme

/-- What a lexeme can be before the rest of its text. -/
inductive Fits : Lexeme → List Char → Prop
  | blank {c : Char} {rest : List Char} (isBlank : IsBlank c) :
      Fits { form := .blank, chars := [c] } rest
  | comment {run rest : List Char} (oneLine : '\n' ∉ run) (ends : ∀ x ∈ rest.head?, x = '\n') :
      Fits { form := .comment, chars := ';' :: run } rest
  | token {kind : TokenKind} {text : String} {fault : Option SyntaxFault}
      {chars rest : List Char} (forms : FormsToken kind text fault chars rest) :
      Fits { form := .token kind text fault, chars } rest
  | stray {c : Char} {rest : List Char} (unexpected : Unexpected c rest) :
      Fits { form := .stray c, chars := [c] } rest

theorem Fits.chars_ne_nil {lexeme : Lexeme} {rest : List Char} (fits : lexeme.Fits rest) :
    lexeme.chars ≠ [] := by
  cases fits with
  | token forms => exact forms.chars_ne_nil
  | blank | comment | stray => simp

theorem continues_takeWhile (test : Char → Bool) (cs : List Char) :
    ∀ x ∈ cs.takeWhile test, test x = true :=
  fun _ => List.mem_takeWhile_imp

/-- A longest run is empty only if the text does not go on with it. -/
theorem head?_takeWhile_any (test : Char → Bool) (cs : List Char) :
    (cs.takeWhile test).head?.any test = cs.head?.any test := by
  cases cs with
  | nil => rfl
  | cons x later => by_cases holds : test x = true <;> simp [holds]

/-- A cut is good if it loses nothing and what is cut off fits what is left. -/
def Splits (text : List Char) (cutOff : Lexeme × List Char) : Prop :=
  cutOff.1.chars ++ cutOff.2 = text ∧ cutOff.1.Fits cutOff.2

theorem splits_cutName (sigil : Sigil) (rest : List Char) :
    Splits (sigil.char :: rest) (cutName sigil.kind sigil.char rest) := by
  unfold cutName
  split
  · next quotedText =>
    have whole := List.takeWhile_append_dropWhile (p := isQuotedChar) (l := quotedText)
    have continues := continues_takeWhile isQuotedChar quotedText
    have stops := Text.ends_dropWhile isQuotedChar quotedText
    generalize quotedText.takeWhile isQuotedChar = body at whole continues ⊢
    rw [← String.toList_ofList (l := body)] at continues
    dsimp only
    split
    · next after found =>
      rw [found] at whole
      refine ⟨by simp [plain, ← whole], .token ?_⟩
      simpa only [String.toList_ofList] using FormsToken.quoted sigil continues
    · next after isOpen =>
      -- What ends the run is neither a quote nor inside the name, so it ends the line.
      have ends : ∀ x ∈ (quotedText.dropWhile isQuotedChar).head?, x = '\n' := by
        intro x isHead
        have outside := stops x isHead
        obtain ⟨later, found⟩ := List.head?_eq_some_iff.mp isHead
        have notQuote : x ≠ '"' := by
          rintro rfl
          exact isOpen later found
        simpa [isQuotedChar, notQuote] using outside
      refine ⟨congrArg (sigil.char :: '"' :: ·) whole, .token ?_⟩
      simpa only [String.toList_ofList] using FormsToken.unterminated sigil continues ends
  · next isBare =>
    have whole := List.takeWhile_append_dropWhile (p := isNameChar) (l := rest)
    have continues := continues_takeWhile isNameChar rest
    have delimited : Delimited (rest.dropWhile isNameChar) := Text.ends_dropWhile isNameChar rest
    generalize rest.takeWhile isNameChar = body at whole continues ⊢
    have unquoted : String.ofList body = "" → (rest.dropWhile isNameChar).head? ≠ some '"' := by
      intro isEmpty isQuote
      obtain rfl : body = [] := by simpa using isEmpty
      obtain ⟨later, found⟩ := List.head?_eq_some_iff.mp isQuote
      exact isBare later (whole.symm.trans found)
    rw [← String.toList_ofList (l := body)] at continues
    refine ⟨congrArg (sigil.char :: ·) whole, .token ?_⟩
    simpa [List.isEmpty_iff] using FormsToken.bare sigil continues delimited unquoted

theorem splits_cut (c : Char) (rest : List Char) : Splits (c :: rest) (cut c rest) := by
  unfold cut
  split_ifs with isBlank isComment isWord isNumber isGlobal isLocal
  · refine ⟨rfl, .blank ?_⟩
    simpa [IsBlank, or_assoc] using isBlank
  · subst isComment
    refine ⟨by simp, .comment ?_ ?_⟩
    · exact newline_not_mem (continues_takeWhile (· != '\n') rest) (by decide)
    · intro x isHead
      simpa using Text.ends_dropWhile (· != '\n') rest x isHead
  · refine ⟨by simp [word, plain], .token ?_⟩
    simpa only [String.toList_ofList] using
      FormsToken.word String.toList_ofList isWord (continues_takeWhile isWordChar rest)
        (Text.ends_dropWhile isWordChar rest)
  · have starts : StartsNumber c (rest.takeWhile Text.isDigit) := by
      refine ⟨by simpa using isWord, ?_⟩
      rw [Bool.or_eq_true, Bool.and_eq_true, decide_eq_true_eq] at isNumber
      refine isNumber.imp_right fun isNegative => ⟨isNegative.1, ?_⟩
      rw [head?_takeWhile_any]
      exact isNegative.2
    refine ⟨by simp [number, plain], .token ?_⟩
    simpa only [String.toList_ofList] using
      FormsToken.number String.toList_ofList starts (continues_takeWhile Text.isDigit rest)
        (Text.ends_dropWhile Text.isDigit rest)
  · subst isGlobal
    exact splits_cutName .ofGlobal rest
  · subst isLocal
    exact splits_cutName .ofLocal rest
  · split
    · next kind isMark => exact ⟨rfl, .token (.mark isMark)⟩
    · next notMark =>
      refine ⟨rfl, .stray ?_⟩
      constructor
      · simpa [IsBlank, or_assoc] using isBlank
      · exact isComment
      · simpa using isWord
      · intro starts
        apply isNumber
        rcases starts.digits with isDigit | ⟨rfl, isDigit⟩
        · simp [isDigit]
        · simp [isDigit]
      · rintro (_ | _)
        · exact isGlobal
        · exact isLocal
      · exact notMark

/-- What does not start like a word, a blank, a comment, a number or a name is a mark or stray. -/
theorem cut_of_unexpected {c : Char} {rest : List Char} (unexpected : Unexpected c rest) :
    cut c rest = ({ form := .stray c, chars := [c] }, rest) := by
  have notBlank := unexpected.not_blank
  have notGlobal : c ≠ '@' := unexpected.not_sigil .ofGlobal
  have notLocal : c ≠ '%' := unexpected.not_sigil .ofLocal
  have notNumber : ¬ (Text.isDigit c || (c = '-' && rest.head?.any Text.isDigit)) = true := by
    intro isNumber
    rw [Bool.or_eq_true, Bool.and_eq_true, decide_eq_true_eq] at isNumber
    exact unexpected.not_number ⟨unexpected.not_word, isNumber⟩
  rw [cut, if_neg (by simpa [IsBlank, or_assoc] using notBlank), if_neg unexpected.not_comment,
    if_neg (by simp [unexpected.not_word]), if_neg notNumber,
    if_neg notGlobal, if_neg notLocal, unexpected.not_mark]

/-- A name without its closing quote is cut off at the end of the line. -/
theorem cutName_unterminated (kind : TokenKind) {sigil : Char} {run rest : List Char}
    (continues : ∀ x ∈ run, isQuotedChar x = true) (ends : ∀ x ∈ rest.head?, x = '\n') :
    cutName kind sigil ('"' :: (run ++ rest)) =
      ({ form := .token kind (.ofList run) (some .unterminatedName)
         chars := sigil :: '"' :: run }, rest) := by
  have stops : ∀ x ∈ rest.head?, isQuotedChar x = false := by
    intro x isHead
    rw [ends x isHead]
    decide
  obtain ⟨taken, dropped⟩ := Text.span_of_ends continues stops
  rw [cutName, taken, dropped]
  cases rest with
  | nil => rfl
  | cons x later =>
    obtain rfl : x = '\n' := ends x rfl
    rfl

theorem exists_cut_of_forms {kind : TokenKind} {text : String} {fault : Option SyntaxFault}
    {chars rest : List Char} (forms : FormsToken kind text fault chars rest) :
    ∃ c run, chars = c :: run ∧
      cut c (run ++ rest) = ({ form := .token kind text fault, chars }, rest) := by
  cases forms with
  | @word text c run _ spelled starts continues ends =>
    obtain rfl : text = .ofList (c :: run) := by rw [← spelled, String.ofList_toList]
    refine ⟨c, run, spelled, ?_⟩
    rw [cut_word starts continues ends, spelled]
    rfl
  | @number text c run _ spelled starts continues ends =>
    obtain rfl : text = .ofList (c :: run) := by rw [← spelled, String.ofList_toList]
    refine ⟨c, run, spelled, ?_⟩
    rw [cut_number starts continues ends, spelled]
    rfl
  | bare sigil continues delimited unquoted =>
    refine ⟨sigil.char, _, rfl, ?_⟩
    rw [cut_sigil, cutName_unquoted _ continues delimited (by simpa using unquoted)]
    simp
  | @quoted sigil text _ continues =>
    refine ⟨sigil.char, '"' :: (text.toList ++ ['"']), rfl, ?_⟩
    have cut_eq := @cutName_quoted sigil.char _ rest sigil.kind continues
    rw [cut_sigil, List.cons_append, List.append_assoc, List.singleton_append, cut_eq,
      String.ofList_toList]
    rfl
  | unterminated sigil continues ends =>
    refine ⟨sigil.char, _, rfl, ?_⟩
    rw [cut_sigil, List.cons_append, cutName_unterminated _ continues ends, String.ofList_toList]
  | mark isMark => exact ⟨_, [], rfl, cut_mark isMark _⟩

/-- What fits before the rest of a text is what is cut off there. -/
theorem Fits.exists_cut {lexeme : Lexeme} {rest : List Char} (fits : lexeme.Fits rest) :
    ∃ c run, lexeme.chars = c :: run ∧ cut c (run ++ rest) = (lexeme, rest) := by
  cases fits with
  | @blank c _ isBlank =>
    refine ⟨c, [], rfl, ?_⟩
    rw [cut, if_pos (by simpa [IsBlank, or_assoc] using isBlank)]
    rfl
  | @comment run _ oneLine ends =>
    refine ⟨';', run, rfl, ?_⟩
    have continues : ∀ x ∈ run, (x != '\n') = true := by
      intro x isMember
      rw [bne_iff_ne]
      rintro rfl
      exact oneLine isMember
    obtain ⟨taken, dropped⟩ := Text.span_of_ends continues fun x isHead => by simp [ends x isHead]
    rw [cut, if_neg (by decide), if_pos rfl, taken, dropped]
  | token forms => exact exists_cut_of_forms forms
  | stray unexpected => exact ⟨_, [], rfl, cut_of_unexpected unexpected⟩

end Lexeme

/-- Lexemes that are the whole of a text, each of them fit to stand where it does. -/
inductive Cuts : List Char → List Lexeme → Prop
  | nil : Cuts [] []
  | cons {lexeme : Lexeme} {rest : List Char} {later : List Lexeme} (fits : lexeme.Fits rest)
      (cuts : Cuts rest later) : Cuts (lexeme.chars ++ rest) (lexeme :: later)

/-- **A text is cut into lexemes without loss.** -/
theorem cuts_lexemes (cs : List Char) : Cuts cs (lexemes cs) := by
  fun_induction lexemes cs with
  | case1 => exact .nil
  | case2 c rest ih =>
    obtain ⟨whole, fits⟩ := Lexeme.splits_cut c rest
    have cuts := Cuts.cons fits ih
    rwa [whole] at cuts

end RiscBackend.Source
