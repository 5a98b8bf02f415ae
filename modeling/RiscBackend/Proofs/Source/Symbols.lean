/-
# Symbols of a text

A text without its layout is a list of symbols: its tokens, the characters that are no token, and
the ends of its lines. Lines, classes and texts of tokens are found from the symbols alone. What
a lexeme is depends on the character after it and on nothing else of the rest, so blanks and
comments can stand between any two tokens without changing the symbols, and the symbols of a text
that ends a line come before those of whatever follows.
-/

import RiscBackend.Proofs.Source.Alike
import RiscBackend.Proofs.Source.Partition

namespace RiscBackend.Source

/-! ### A text without its layout -/

/-- What a text is made of apart from blanks and comments. -/
inductive Symbol where
  | token (kind : TokenKind) (text : String) (fault : Option SyntaxFault)
  | stray (c : Char)
  | lineEnd
  deriving DecidableEq, Repr

/-- What is wrong with a symbol. -/
def Symbol.fault? : Symbol → Option SyntaxFault
  | token _ _ fault => fault
  | stray c => some (.unexpectedCharacter c)
  | lineEnd => none

/-- What a lexeme is unless it is layout. -/
def Lexeme.symbol? (lexeme : Lexeme) : Option Symbol :=
  match lexeme.form with
  | .blank => if lexeme.chars = ['\n'] then some .lineEnd else none
  | .comment => none
  | .token kind text fault => some (.token kind text fault)
  | .stray c => some (.stray c)

/-- The symbols of a text. -/
def symbols (cs : List Char) : List Symbol :=
  (lexemes cs).filterMap Lexeme.symbol?

theorem lexemes_of_fits {lexeme : Lexeme} {rest : List Char} (fits : lexeme.Fits rest) :
    lexemes (lexeme.chars ++ rest) = lexeme :: lexemes rest := by
  obtain ⟨c, run, chars_eq, cut_eq⟩ := fits.exists_cut
  rw [chars_eq, List.cons_append, lexemes, cut_eq]

theorem symbols_of_fits {lexeme : Lexeme} {rest : List Char} (fits : lexeme.Fits rest) :
    symbols (lexeme.chars ++ rest) = lexeme.symbol?.toList ++ symbols rest := by
  rw [symbols, lexemes_of_fits fits]
  cases symbol_eq : lexeme.symbol? with
  | none =>
    rw [List.filterMap_cons_none symbol_eq]
    rfl
  | some symbol =>
    rw [List.filterMap_cons_some symbol_eq]
    rfl

/-- A text that is not empty starts with a lexeme. -/
theorem exists_first_lexeme {cs : List Char} (nonempty : cs ≠ []) :
    ∃ lexeme rest, cs = lexeme.chars ++ rest ∧ Lexeme.Fits lexeme rest := by
  cases cs with
  | nil => exact absurd rfl nonempty
  | cons c rest =>
    obtain ⟨whole, fits⟩ := Lexeme.splits_cut c rest
    exact ⟨_, _, whole.symm, fits⟩

/-- The line, the class and the text of a token. -/
def Token.view (t : Token) : Int × Tag :=
  (t.line, t.kind, t.text)

/-- The tokens of symbols from a line on, with their lines. -/
def tagLines (line : Nat) : List Symbol → List (Int × Tag)
  | [] => [(line, .endOfFile, "")]
  | .token kind text _ :: rest => (line, kind, text) :: tagLines line rest
  | .stray _ :: rest => tagLines line rest
  | .lineEnd :: rest => tagLines (line + 1) rest

/-- Tokens are found from the symbols, apart from their columns. -/
theorem view_placeLexemes (file : Int) {cs : List Char} {lexemes : List Lexeme}
    (cuts : Cuts cs lexemes) (p : Position) :
    (placeLexemes file p lexemes).tokens.map Token.view =
      tagLines p.line (lexemes.filterMap Lexeme.symbol?) := by
  induction cuts generalizing p with
  | nil => rfl
  | cons fits _ ih =>
    cases fits with
    | @blank c _ isBlank =>
      have later := ih (p.next c)
      by_cases isBreak : c = '\n'
      · subst isBreak
        exact later
      · have stays : (p.next c).line = p.line := by rw [Position.next, if_neg isBreak]
        rw [stays] at later
        rw [List.filterMap_cons_none (by simp [Lexeme.symbol?, isBreak])]
        exact later
    | @comment run _ oneLine _ =>
      have stays : (p.after (';' :: run)).line = p.line :=
        Position.line_after (by simp [oneLine]) p
      have later := ih (p.after (';' :: run))
      rw [stays] at later
      exact later
    | @token _ _ _ chars _ forms =>
      have stays := Position.line_after forms.oneLine p
      have later := ih (p.after chars)
      rw [stays] at later
      exact congrArg (_ :: ·) later
    | @stray c _ unexpected =>
      have stays : (p.next c).line = p.line := by
        rw [Position.next, if_neg]
        rintro rfl
        exact unexpected.not_blank (.inr (.inr (.inl rfl)))
      have later := ih (p.next c)
      rw [stays] at later
      exact later

/-- The complaints are those of the symbols. -/
theorem faults_placeLexemes (file : Int) (lexemes : List Lexeme) (p : Position) :
    faults (placeLexemes file p lexemes).complaints =
      (lexemes.filterMap Lexeme.symbol?).filterMap Symbol.fault? := by
  induction lexemes generalizing p with
  | nil => rfl
  | cons lexeme rest ih =>
    obtain ⟨form, chars⟩ := lexeme
    have later := ih (p.after chars)
    cases form with
    | blank =>
      by_cases isBreak : chars = ['\n']
      · rw [List.filterMap_cons_some (b := .lineEnd) (by simp [Lexeme.symbol?, isBreak]),
          List.filterMap_cons_none rfl]
        exact later
      · rw [List.filterMap_cons_none (by simp [Lexeme.symbol?, isBreak])]
        exact later
    | comment => exact later
    | token kind text fault =>
      cases fault with
      | none => exact later
      | some fault => exact congrArg (fault :: ·) later
    | stray c => exact congrArg (_ :: ·) later

/-! ### Places between tokens -/

section Next

variable {kind : TokenKind} {text : String} {fault : Option SyntaxFault}
  {chars rest rest' : List Char}

/-- Of the text after a token only the next character counts. -/
theorem FormsToken.of_head (forms : FormsToken kind text fault chars rest)
    (same : rest'.head? = rest.head?) : FormsToken kind text fault chars rest' := by
  cases forms with
  | word spelled starts continues ends => exact .word spelled starts continues (same ▸ ends)
  | number spelled starts continues ends => exact .number spelled starts continues (same ▸ ends)
  | bare sigil continues delimited unquoted =>
    refine .bare sigil continues ?_ (same ▸ unquoted)
    rw [Delimited, same]
    exact delimited
  | quoted sigil continues => exact .quoted sigil continues
  | unterminated sigil continues ends => exact .unterminated sigil continues (same ▸ ends)
  | mark isMark => exact .mark isMark

theorem Lexeme.Fits.of_head {lexeme : Lexeme} (fits : lexeme.Fits rest)
    (same : rest'.head? = rest.head?) : lexeme.Fits rest' := by
  cases fits with
  | blank isBlank => exact .blank isBlank
  | comment oneLine ends => exact .comment oneLine (same ▸ ends)
  | token forms => exact .token (forms.of_head same)
  | stray unexpected =>
    refine .stray { unexpected with not_number := fun starts => ?_ }
    exact unexpected.not_number ⟨starts.not_word, same ▸ starts.digits⟩

/-- A closed token can be followed by what no name holds, unless that is a quote. -/
theorem FormsToken.of_gap {c : Char} (forms : FormsToken kind text fault chars rest)
    (closed : fault ≠ some .unterminatedName) (notName : isNameChar c = false)
    (notQuote : c ≠ '"') : FormsToken kind text fault chars (c :: rest') := by
  have delimited : Delimited (c :: rest') := by
    rintro x ⟨⟩
    exact notName
  cases forms with
  | word spelled starts continues =>
    exact .word spelled starts continues (delimited.ends fun _ => isNameChar_of_isWordChar)
  | number spelled starts continues =>
    exact .number spelled starts continues (delimited.ends fun _ => isNameChar_of_isDigit)
  | bare sigil continues =>
    exact .bare sigil continues delimited fun _ isQuote => notQuote (Option.some.inj isQuote)
  | quoted sigil continues => exact .quoted sigil continues
  | unterminated => exact absurd rfl closed
  | mark isMark => exact .mark isMark

theorem not_isBlank_of_isNameChar {c : Char} (isName : isNameChar c = true) : ¬ IsBlank c := by
  rintro (rfl | rfl | rfl | rfl) <;> cases isName

/-- A closed token does not end with a blank. -/
theorem FormsToken.last_not_blank (forms : FormsToken kind text fault chars rest)
    (closed : fault ≠ some .unterminatedName) : ∀ c ∈ chars.getLast?, ¬ IsBlank c := by
  intro c isLast
  have isMember := List.mem_of_getLast? isLast
  cases forms with
  | word spelled starts continues =>
    rw [spelled, List.mem_cons] at isMember
    apply not_isBlank_of_isNameChar
    rcases isMember with rfl | inRun
    · rw [isWordStart, Bool.or_eq_true] at starts
      rcases starts with isLetter | isUnderscore
      · simp [isNameChar, isLetter]
      · simp [isNameChar, isUnderscore]
    · exact isNameChar_of_isWordChar (continues c inRun)
  | number spelled starts continues =>
    rw [spelled, List.mem_cons] at isMember
    apply not_isBlank_of_isNameChar
    rcases isMember with rfl | inRun
    · rcases starts.digits with isDigit | ⟨rfl, -⟩
      · exact isNameChar_of_isDigit isDigit
      · decide
    · exact isNameChar_of_isDigit (continues c inRun)
  | bare sigil continues =>
    rcases List.mem_cons.mp isMember with rfl | inName
    · cases sigil <;> simp [Sigil.char, IsBlank]
    · exact not_isBlank_of_isNameChar (continues c inName)
  | quoted sigil =>
    rw [List.getLast?_concat] at isLast
    cases isLast
    simp [IsBlank]
  | unterminated => exact absurd rfl closed
  | mark isMark =>
    obtain rfl := List.mem_singleton.mp isMember
    rintro (rfl | rfl | rfl | rfl) <;> cases isMark

end Next

theorem Position.column_after {cs : List Char} (oneLine : '\n' ∉ cs) (p : Position) :
    (p.after cs).column = p.column + cs.length := by
  induction cs generalizing p with
  | nil => rfl
  | cons c rest ih =>
    rw [List.mem_cons, not_or] at oneLine
    show ((p.next c).after rest).column = _
    have moves : (p.next c).column = p.column + 1 := by
      rw [Position.next, if_neg (Ne.symm oneLine.1)]
    rw [ih oneLine.2, moves, List.length_cons]
    omega

/-- A place inside a token: after its first character and before its last one ends. -/
def Token.Encloses (t : Token) (p : Position) : Prop :=
  t.line = p.line ∧ t.column < p.column ∧ p.column < t.column + t.length

instance (t : Token) (p : Position) : Decidable (t.Encloses p) :=
  inferInstanceAs (Decidable (_ ∧ _))

/-- The place between two parts of a text is inside a comment, or a lexeme ends there. -/
inductive Between : List Char → List Char → Prop
  | start (after : List Char) : Between [] after
  | comment {run tail rest : List Char} (oneLine : '\n' ∉ run ++ tail)
      (ends : ∀ x ∈ rest.head?, x = '\n') : Between (';' :: run) (tail ++ rest)
  | lexeme {lexeme : Lexeme} {before after : List Char} (fits : lexeme.Fits (before ++ after))
      (between : Between before after) : Between (lexeme.chars ++ before) after

/-- The place between two parts of a text is inside a token, wherever the text starts. -/
structure Crossed (before after : List Char) : Prop where
  spelled : ∃ kind text fault head tail rest, after = tail ++ rest ∧ tail ≠ [] ∧
    FormsToken kind text fault (head ++ tail) rest ∧
    .token kind text fault ∈ symbols (before ++ after)
  placed : ∀ (file : Int) (p : Position),
    ∃ t ∈ (placeLexemes file p (lexemes (before ++ after))).tokens, t.Encloses (p.after before)

theorem mem_tokens_cons {file : Int} {p : Position} {lexeme : Lexeme} {later : List Lexeme}
    {t : Token} (isLater : t ∈ (placeLexemes file (p.after lexeme.chars) later).tokens) :
    t ∈ (placeLexemes file p (lexeme :: later)).tokens := by
  obtain ⟨form, chars⟩ := lexeme
  cases form with
  | blank | comment | stray => exact isLater
  | token => exact List.mem_cons_of_mem _ isLater

/-- A place inside a token stays inside it with a lexeme in front. -/
theorem Crossed.lexeme {lexeme : Lexeme} {before after : List Char}
    (fits : lexeme.Fits (before ++ after)) (crossed : Crossed before after) :
    Crossed (lexeme.chars ++ before) after := by
  constructor
  · obtain ⟨kind, text, fault, head, tail, rest, after_eq, nonempty, forms, isSymbol⟩ :=
      crossed.spelled
    refine ⟨kind, text, fault, head, tail, rest, after_eq, nonempty, forms, ?_⟩
    rw [List.append_assoc, symbols_of_fits fits]
    exact List.mem_append_right _ isSymbol
  · intro file p
    obtain ⟨t, isToken, encloses⟩ := crossed.placed file (p.after lexeme.chars)
    rw [List.append_assoc, lexemes_of_fits fits, Position.after_append]
    exact ⟨t, mem_tokens_cons isToken, encloses⟩

/-- A place inside the first token of a text. -/
theorem FormsToken.crossed {kind : TokenKind} {text : String} {fault : Option SyntaxFault}
    {before tail rest : List Char} (forms : FormsToken kind text fault (before ++ tail) rest)
    (nonempty : before ≠ []) (unfinished : tail ≠ []) : Crossed before (tail ++ rest) := by
  have fits := Lexeme.Fits.token forms
  have whole : before ++ (tail ++ rest) = before ++ tail ++ rest := (List.append_assoc ..).symm
  constructor
  · refine ⟨kind, text, fault, before, tail, rest, rfl, unfinished, forms, ?_⟩
    rw [whole, symbols_of_fits fits]
    exact List.mem_cons_self
  · intro file p
    rw [whole, lexemes_of_fits fits]
    refine ⟨p.token file kind text (before ++ tail).length, List.mem_cons_self, ?_⟩
    have oneLine : '\n' ∉ before := fun isMember => forms.oneLine (List.mem_append_left _ isMember)
    have pos := List.length_pos_iff.mpr nonempty
    have pos' := List.length_pos_iff.mpr unfinished
    rw [Token.Encloses, Position.line_after oneLine, Position.column_after oneLine,
      List.length_append]
    refine ⟨rfl, ?_, ?_⟩
    · show (p.column : Int) < _
      omega
    · show _ < (p.column : Int) + ((before.length + tail.length : Nat) : Int)
      omega

/-- A place inside the first lexeme of a text is inside a comment or a token. -/
theorem between_or_crossed_first {lexeme : Lexeme} {before tail rest : List Char}
    (fits : lexeme.Fits rest) (chars_eq : lexeme.chars = before ++ tail) (nonempty : before ≠ [])
    (unfinished : tail ≠ []) : Between before (tail ++ rest) ∨ Crossed before (tail ++ rest) := by
  cases fits with
  | blank | stray =>
    have length_eq := congrArg List.length chars_eq
    have pos := List.length_pos_iff.mpr nonempty
    have pos' := List.length_pos_iff.mpr unfinished
    simp only [List.length_singleton, List.length_append] at length_eq
    omega
  | comment oneLine ends =>
    obtain ⟨c, run, rfl⟩ := List.exists_cons_of_ne_nil nonempty
    obtain ⟨rfl, rfl⟩ := List.cons.inj chars_eq
    exact .inl (.comment oneLine ends)
  | token forms =>
    obtain rfl : _ = before ++ tail := chars_eq
    exact .inr (forms.crossed nonempty unfinished)

theorem between_or_crossed (before after : List Char) :
    Between before after ∨ Crossed before after := by
  induction remaining : before.length using Nat.strongRecOn generalizing before with
  | _ count ih =>
    by_cases isEmpty : before = []
    · subst isEmpty
      exact .inl (.start after)
    · obtain ⟨lexeme, rest, whole, fits⟩ :=
        exists_first_lexeme (show before ++ after ≠ [] by simp [isEmpty])
      rcases List.append_eq_append_iff.mp whole with ⟨tail, chars_eq, rfl⟩ | ⟨before', rfl, rfl⟩
      · by_cases isWhole : tail = []
        · subst isWhole
          rw [List.append_nil] at chars_eq
          have between : Between (lexeme.chars ++ []) rest := .lexeme fits (.start rest)
          rw [List.append_nil, chars_eq] at between
          exact .inl between
        · exact between_or_crossed_first fits chars_eq isEmpty isWhole
      · have shorter : before'.length < count := by
          have pos := List.length_pos_iff.mpr fits.chars_ne_nil
          rw [← remaining, List.length_append]
          omega
        rcases ih _ shorter before' rfl with between | crossed
        · exact .inl (.lexeme fits between)
        · exact .inr (crossed.lexeme fits)

/-! ### Blanks and comments in a line -/

/-- A text is layout within a line: no token goes on with its first character. -/
structure IsGap (gap : List Char) : Prop where
  oneLine : '\n' ∉ gap
  opens : ∀ c ∈ gap.head?, isNameChar c = false ∧ c ≠ '"'

/-- A comment is no symbol. -/
theorem symbols_comment {run rest : List Char} (oneLine : '\n' ∉ run)
    (ends : ∀ x ∈ rest.head?, x = '\n') : symbols (';' :: (run ++ rest)) = symbols rest :=
  symbols_of_fits (Lexeme.Fits.comment oneLine ends)

theorem symbols_lineEnd (rest : List Char) : symbols ('\n' :: rest) = .lineEnd :: symbols rest :=
  symbols_of_fits (Lexeme.Fits.blank (.inr (.inr (.inl rfl))))

/-- A lexeme other than a comment can be followed by a gap. -/
theorem Lexeme.Fits.insert {lexeme : Lexeme} {before gap after : List Char}
    (fits : lexeme.Fits (before ++ after)) (isGap : IsGap gap)
    (faultless : ∀ symbol ∈ lexeme.symbol?, symbol.fault? = none)
    (notComment : before = [] → lexeme.form ≠ .comment) :
    lexeme.Fits (before ++ (gap ++ after)) := by
  cases before with
  | cons x later => exact fits.of_head rfl
  | nil =>
    cases gap with
    | nil => exact fits
    | cons c gap =>
      obtain ⟨notName, notQuote⟩ := isGap.opens c rfl
      cases fits with
      | blank isBlank => exact .blank isBlank
      | comment => exact absurd rfl (notComment rfl)
      | @token kind text fault _ _ forms =>
        have closed : fault = none := faultless _ rfl
        exact .token (forms.of_gap (by simp [closed]) notName notQuote)
      | stray unexpected => cases faultless _ rfl

/-- A comment takes a gap inside it or after it. -/
theorem symbols_insert_comment {run gap tail rest : List Char} (oneLine : '\n' ∉ run ++ tail)
    (isGap : IsGap gap) (ends : ∀ x ∈ rest.head?, x = '\n') :
    symbols (';' :: run ++ (gap ++ (tail ++ rest))) = symbols (';' :: run ++ (tail ++ rest)) := by
  have oneLine' : '\n' ∉ run ++ gap ++ tail := by
    simp only [List.mem_append, not_or] at oneLine ⊢
    exact ⟨⟨oneLine.1, isGap.oneLine⟩, oneLine.2⟩
  have long := symbols_comment oneLine' ends
  have short := symbols_comment oneLine ends
  rw [List.append_assoc, List.append_assoc] at long
  rw [List.append_assoc] at short
  exact long.trans short.symm

/-- **A gap between tokens leaves the symbols as they are.** -/
theorem Between.symbols_insert {before gap after : List Char} (between : Between before after)
    (isGap : IsGap gap) (skipped : symbols (gap ++ after) = symbols after)
    (faultless : ∀ symbol ∈ symbols (before ++ after), symbol.fault? = none) :
    symbols (before ++ (gap ++ after)) = symbols (before ++ after) := by
  induction between with
  | start => exact skipped
  | comment oneLine ends => exact symbols_insert_comment oneLine isGap ends
  | @lexeme lexeme before after fits _ ih =>
    rw [List.append_assoc, symbols_of_fits fits] at faultless
    obtain ⟨first, later⟩ := List.forall_mem_append.mp faultless
    by_cases isLast : before = [] ∧ lexeme.form = .comment
    · obtain ⟨rfl, isComment⟩ := isLast
      cases fits with
      | blank | token | stray => cases isComment
      | @comment run _ oneLine ends =>
        have taken := @symbols_insert_comment run gap [] after (by simpa using oneLine) isGap ends
        rwa [List.nil_append, ← List.append_nil (';' :: run)] at taken
    · have fits' : lexeme.Fits (before ++ (gap ++ after)) :=
        fits.insert isGap (by simpa using first) fun isEmpty isComment =>
          isLast ⟨isEmpty, isComment⟩
      rw [List.append_assoc, List.append_assoc, symbols_of_fits fits, symbols_of_fits fits',
        ih skipped later]

/-! ### Ends of lines -/

/-- The one lexeme with a line break in it is the line break. -/
theorem Lexeme.Fits.eq_lineEnd {lexeme : Lexeme} {rest : List Char} (fits : lexeme.Fits rest)
    (isBreak : '\n' ∈ lexeme.chars) : lexeme = { form := .blank, chars := ['\n'] } := by
  cases fits with
  | blank =>
    obtain rfl := List.mem_singleton.mp isBreak
    rfl
  | comment oneLine => simp [oneLine] at isBreak
  | token forms => exact absurd isBreak forms.oneLine
  | stray unexpected =>
    obtain rfl := List.mem_singleton.mp isBreak
    exact absurd (.inr (.inr (.inl rfl))) unexpected.not_blank

/-- Symbols do not cross the end of a line. -/
theorem symbols_append_of_lineEnd {before : List Char} (ends : before.getLast? = some '\n') :
    (symbols before).getLast? = some .lineEnd ∧
      ∀ rest, symbols (before ++ rest) = symbols before ++ symbols rest := by
  induction remaining : before.length using Nat.strongRecOn generalizing before with
  | _ count ih =>
    have nonempty : before ≠ [] := by
      rintro rfl
      cases ends
    obtain ⟨lexeme, later, rfl, fits⟩ := exists_first_lexeme nonempty
    by_cases isEmpty : later = []
    · subst isEmpty
      rw [List.append_nil] at ends ⊢
      obtain rfl := fits.eq_lineEnd (List.mem_of_getLast? ends)
      have alone : symbols ['\n'] = [.lineEnd] := by
        rw [symbols_lineEnd, symbols, lexemes]
        rfl
      rw [alone]
      exact ⟨rfl, symbols_lineEnd⟩
    · have shorter : later.length < count := by
        have pos := List.length_pos_iff.mpr fits.chars_ne_nil
        rw [← remaining, List.length_append]
        omega
      rw [List.getLast?_append_of_ne_nil _ isEmpty] at ends
      obtain ⟨last, append⟩ := ih _ shorter ends rfl
      constructor
      · rw [symbols_of_fits fits, List.getLast?_append, last]
        rfl
      · intro rest
        have fits' : lexeme.Fits (later ++ rest) := by
          apply fits.of_head
          rw [List.head?_append_of_ne_nil _ isEmpty]
        rw [List.append_assoc, symbols_of_fits fits', symbols_of_fits fits, append,
          List.append_assoc]

end RiscBackend.Source
