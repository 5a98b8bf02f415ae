/-
# Carets under tokens

The line and the column of a token are counted while the text is cut. A diagnostic finds the line
again by skipping line ends from the start of the file, and places its marks by the column alone.
`LineOf` describes the line that a span is on from the text only. Both ways of counting agree with
it, so the marks stand under the characters of the token.
-/

import RiscBackend.Proofs.Source.Partition

namespace RiscBackend

open Source

/-- The line of a text on which a span is, cut at both ends of the span. -/
structure LineOf (source : List Char) (span : Span) where
  /-- The lines before. -/
  before : List Char
  left : List Char
  /-- The characters of the span. -/
  covered : List Char
  right : List Char
  /-- The rest of the text, with the end of the line. -/
  after : List Char
  source_eq : source = before ++ (left ++ covered ++ right ++ after)
  starts : ∀ c ∈ before.getLast?, c = '\n'
  oneLine : '\n' ∉ left ++ covered ++ right
  ends : ∀ c ∈ after.head?, c = '\n'
  start_eq : span.start = before.length + left.length
  length_eq : span.length = covered.length

/-- The marks under a run of characters: a caret under the first and tildes under the others. Where
there is no character the caret stands alone. -/
def marks : List Char → List Char
  | [] => ['^']
  | _ :: rest => '^' :: rest.map fun _ => '~'

namespace LineOf

variable {source : List Char} {span : Span}

def line (l : LineOf source span) : List Char :=
  l.left ++ l.covered ++ l.right

/-- What goes below the line: blanks up to the span and marks under it. -/
def marker (l : LineOf source span) : List Char :=
  (l.left.map fun _ => ' ') ++ marks l.covered

/-- A span without line ends is on one line. -/
theorem nonempty_of_oneLine (inside : span.stop ≤ source.length)
    (oneLine : '\n' ∉ span.text source) : Nonempty (LineOf source span) := by
  have upTo : (source.take span.start).rdropWhile (· != '\n') ++
      (source.take span.start).rtakeWhile (· != '\n') = source.take span.start :=
    List.rdropWhile_append_rtakeWhile
  constructor
  exact {
    before := (source.take span.start).rdropWhile (· != '\n')
    left := (source.take span.start).rtakeWhile (· != '\n')
    covered := span.text source
    right := (source.drop span.stop).takeWhile (· != '\n')
    after := (source.drop span.stop).dropWhile (· != '\n')
    source_eq := by
      have inner : span.text source ++ source.drop span.stop = source.drop span.start := by
        rw [Span.text, Span.stop, ← List.drop_drop, List.take_append_drop]
      rw [List.append_assoc _ _ (List.dropWhile _ _), List.takeWhile_append_dropWhile,
        List.append_assoc, inner, ← List.append_assoc, upTo, List.take_append_drop]
    starts := by
      intro c isLast
      rw [List.rdropWhile, List.getLast?_reverse] at isLast
      simpa using Text.ends_dropWhile (· != '\n') _ c isLast
    oneLine := by
      intro isMember
      rcases List.mem_append.mp isMember with inFront | isRight
      · rcases List.mem_append.mp inFront with isLeft | isCovered
        · simpa using List.mem_rtakeWhile_imp isLeft
        · exact oneLine isCovered
      · simpa using List.mem_takeWhile_imp isRight
    ends := by
      intro c isHead
      simpa using Text.ends_dropWhile (· != '\n') _ c isHead
    start_eq := by
      have le : span.start ≤ source.length := (Nat.le_add_right _ _).trans inside
      rw [← List.length_append, upTo, List.length_take_of_le le]
    length_eq := by
      rw [Span.stop] at inside
      rw [Span.text, List.length_take, List.length_drop]
      omega }

/-- The place of a span, in terms of its line. -/
theorem positionAt_eq (l : LineOf source span) :
    positionAt source span.start =
      { line := 1 + l.before.count '\n', column := 1 + l.left.length } := by
  have split : source = (l.before ++ l.left) ++ (l.covered ++ l.right ++ l.after) :=
    l.source_eq.trans (by simp only [List.append_assoc])
  have upTo : source.take span.start = l.before ++ l.left := by
    refine (congrArg (List.take span.start) split).trans ?_
    rw [l.start_eq, ← List.length_append, List.take_left]
  have noBreak : '\n' ∉ l.left := fun isMember => l.oneLine (by simp [isMember])
  have lastLine : (l.before ++ l.left).rtakeWhile (· != '\n') = l.left := by
    have stops : ∀ c ∈ l.before.reverse.head?, (c != '\n') = false := by
      intro c isHead
      rw [List.head?_reverse] at isHead
      simp [l.starts c isHead]
    have solid : ∀ c ∈ l.left.reverse, (c != '\n') = true :=
      Text.bne_of_not_mem (by simpa using noBreak)
    rw [List.rtakeWhile, List.reverse_append, (Text.span_of_ends solid stops).1,
      List.reverse_reverse]
  rw [positionAt, upTo, lastLine, List.count_append, List.count_eq_zero_of_not_mem noBreak,
    Nat.add_zero]

end LineOf

namespace SourceFile

theorem skipLines_append {before : List Char} (ends : ∀ c ∈ before.getLast?, c = '\n')
    (rest : List Char) : skipLines (before.count '\n') (before ++ rest) = rest := by
  induction count_eq : before.count '\n' generalizing before with
  | zero =>
    have noBreak : '\n' ∉ before := List.count_eq_zero.mp count_eq
    cases last : before.getLast? with
    | none => rw [List.getLast?_eq_none_iff.mp last]; rfl
    | some c =>
      have isMember := List.mem_of_getLast? last
      rw [ends c last] at isMember
      exact absurd isMember noBreak
  | succ count ih =>
    have isMember : '\n' ∈ before := List.count_pos_iff.mp (by omega)
    obtain ⟨first, others, rfl, noBreak⟩ := List.eq_append_cons_of_mem isMember
    have skipped : (first ++ '\n' :: others ++ rest).dropWhile (· != '\n') =
        '\n' :: (others ++ rest) := by
      rw [List.append_assoc]
      exact (Text.span_of_ends (Text.bne_of_not_mem noBreak) (by simp)).2
    rw [skipLines, skipped]
    apply ih
    · intro c isLast
      have occupied : others ≠ [] := by
        rintro rfl
        cases isLast
      apply ends c
      rwa [List.getLast?_append_of_ne_nil _ (List.cons_ne_nil _ _),
        List.getLast?_cons_of_ne_nil occupied]
    · simpa [List.count_eq_zero_of_not_mem noBreak] using count_eq

end SourceFile

theorem LineOf.lineAt_eq {source : List Char} {span : Span} (l : LineOf source span) :
    SourceFile.lineAt (positionAt source span.start).line source = l.line := by
  have number : (((positionAt source span.start).line : Int) - 1).toNat = l.before.count '\n' := by
    rw [l.positionAt_eq]
    dsimp only
    omega
  have skipped := SourceFile.skipLines_append l.starts (l.line ++ l.after)
  rw [line, ← l.source_eq] at skipped
  rw [SourceFile.lineAt, number, skipped]
  have stops : ∀ c ∈ l.after.head?, (c != '\n') = false := by
    intro c isHead
    simp [l.ends c isHead]
  exact (Text.span_of_ends (Text.bne_of_not_mem l.oneLine) stops).1

theorem marks_eq (covered : List Char) :
    marks covered = '^' :: List.replicate (covered.length - 1) '~' := by
  cases covered with
  | nil => rfl
  | cons c rest => rw [marks, List.map_const', List.length_cons, Nat.add_sub_cancel]

namespace Diagnostic

/-- Without colours, the first line of what is printed is the text of the diagnostic. -/
theorem print_plain (sources : List SourceFile) (d : Diagnostic) :
    d.print sources .plain = d.text sources ++ "\n" ++ d.excerpt sources .plain := by
  simp [print, text, String.append_assoc]

/-- The column and the length of a token put the marks under its characters. -/
theorem underline_plain {source : List Char} {span : Span} (l : LineOf source span) {token : Token}
    (column_eq : token.column = (1 + l.left.length : Nat))
    (length_eq : token.length = l.covered.length) :
    underline .plain token = String.ofList l.marker := by
  have notLow : ¬ token.column < 1 := by omega
  have blanks : (token.column - 1).toNat = l.left.length := by omega
  have tildes : (token.length - 1).toNat = l.covered.length - 1 := by omega
  rw [← String.toList_inj]
  simp [underline, notLow, blanks, tildes, Text.spaces, LineOf.marker, marks_eq, List.map_const']

/-- What a diagnostic shows without colours is its text, then the line of a span, and below that the
marks under the span, both lines indented by two blanks. It can be shown if the text of the file
fits into memory. -/
structure Underlines (sources : List SourceFile) (source : List Char) (span : Span)
    (d : Diagnostic) : Prop where
  printed : ∃ l : LineOf source span,
    d.print sources .plain = d.text sources ++ "\n" ++
      ("  " ++ String.ofList l.line ++ "\n") ++ ("  " ++ String.ofList l.marker ++ "\n")
  printable : source.length ≤ runLimit → d.printable sources = true

/-- A diagnostic that is placed at a span of a file underlines the span. -/
theorem underlines_of_placed {sources : List SourceFile} {index : Int} {file : SourceFile}
    (registered : SourceFile.find? sources index = some file) {span : Span}
    (inside : span.stop ≤ file.text.toList.length) (oneLine : '\n' ∉ span.text file.text.toList)
    {kind : TokenKind} {text : String} {d : Diagnostic}
    (placed : d.token =
      (positionAt file.text.toList span.start).token index kind text span.length) :
    d.Underlines sources file.text.toList span := by
  obtain ⟨l⟩ := LineOf.nonempty_of_oneLine inside oneLine
  have position := l.positionAt_eq
  have quoted : d.quoted? sources = some file := by
    have hasLine : d.token.line ≠ 0 := by
      rw [placed, position]
      dsimp only [Position.token]
      omega
    rw [quoted?, if_neg hasLine, placed]
    exact registered
  have column_eq : d.token.column = (1 + l.left.length : Nat) := by
    rw [placed, position]
    rfl
  have length_eq : d.token.length = l.covered.length := by
    rw [placed, ← l.length_eq]
    rfl
  constructor
  · refine ⟨l, ?_⟩
    have line_eq : SourceFile.lineAt d.token.line file.text.toList = l.line := by
      rw [placed]
      exact l.lineAt_eq
    rw [print_plain, excerpt, quoted]
    dsimp only
    rw [line_eq, underline_plain l column_eq length_eq]
    simp only [String.append_assoc]
  · intro fits
    have room := congrArg List.length l.source_eq
    simp only [List.length_append] at room
    have underlineFits : underlineFits d.token = true := by
      rw [Diagnostic.underlineFits, Bool.and_eq_true, decide_eq_true_eq, decide_eq_true_eq]
      omega
    rw [printable, underlineFits, Bool.or_true]

end Diagnostic

namespace Source

/-- A diagnostic at a token underlines a span. -/
def Token.Underlined (sources : List SourceFile) (source : List Char) (span : Span)
    (token : Token) : Prop :=
  ∀ d : Diagnostic, d.token = token → d.Underlines sources source span

/-- A complaint is about an unexpected character at an index, which no token stands for and no other
complaint is about. -/
structure Complaint.IsStray (file : Int) (source : List Char) (spans : List Span)
    (complaints : List Complaint) (i : Nat) (x : Complaint) : Prop where
  placed : x.token = (positionAt source i).token file .endOfFile "" 1
  reported : ∃ c, x.fault = .unexpectedCharacter c ∧ source[i]? = some c ∧
    Unexpected c (source.drop (i + 1))
  alone : complaintsAt source complaints i = [x]
  outside : ∀ s ∈ spans, ¬ s.Covers i

section Places

variable {file : Int} {source : List Char} {spans : List Span} {tokens : List Token}
  {complaints : List Complaint}

theorem mem_complaintsAt {i : Nat} {x : Complaint} (isComplaint : x ∈ complaints)
    (isAt : x.IsAt source i) : x ∈ complaintsAt source complaints i :=
  List.mem_filter.mpr ⟨isComplaint, decide_eq_true isAt⟩

/-- A complaint at the start of a span is about the token that stands for the span. -/
theorem Token.StandsFor.token_eq {span : Span} {token : Token}
    (stands : token.StandsFor file source complaints span) {x : Complaint}
    (isComplaint : x ∈ complaints) (isAt : x.IsAt source span.start) : x.token = token := by
  obtain ⟨fault, -, reported⟩ := stands.formed
  have isHere := mem_complaintsAt isComplaint isAt
  rw [reported, Token.complaints, Option.mem_toList, Option.map_eq_some_iff] at isHere
  obtain ⟨_, -, rfl⟩ := isHere
  rfl

theorem exists_mem_zip_of_mem {R : Span → Token → Prop} (related : List.Forall₂ R spans tokens)
    {span : Span} (isSpan : span ∈ spans) :
    ∃ token, (span, token) ∈ spans.zip tokens ∧ R span token := by
  induction related with
  | nil => cases isSpan
  | cons here _ ih =>
    rcases List.mem_cons.mp isSpan with rfl | isLater
    · exact ⟨_, List.mem_cons_self, here⟩
    · obtain ⟨token, isPair, holds⟩ := ih isLater
      exact ⟨token, List.mem_cons_of_mem _ isPair, holds⟩

/-- Every complaint is about a token or about a stray character. -/
theorem Partition.token_or_stray (partition : Partition file source 0 spans tokens complaints)
    (located : Located source 0 spans complaints) {x : Complaint} (isComplaint : x ∈ complaints) :
    (∃ span, (span, x.token) ∈ spans.zip tokens) ∨
      ∃ i, x.IsStray file source spans complaints i := by
  obtain ⟨i, -, inSource, isAt, ⟨span, isSpan, rfl⟩ | outside⟩ := located x isComplaint
  · obtain ⟨token, isPair, stands⟩ := exists_mem_zip_of_mem partition.stand isSpan
    exact .inl ⟨span, stands.token_eq isComplaint isAt ▸ isPair⟩
  · have isHere := mem_complaintsAt isComplaint isAt
    have atIndex : source[i]? = some source[i] := List.getElem?_eq_getElem inSource
    cases partition.skipped i source[i] (Nat.zero_le i) atIndex outside with
    | blank _ quiet => simp [quiet] at isHere
    | comment _ _ _ _ _ quiet => simp [quiet] at isHere
    | unexpected isUnexpected reported =>
      rw [reported, List.mem_singleton] at isHere
      subst isHere
      exact .inr ⟨i, rfl, ⟨source[i], rfl, atIndex, isUnexpected⟩, reported, outside⟩

/-- A stray character is on one line. -/
theorem Complaint.IsStray.oneLine {i : Nat} {x : Complaint}
    (stray : x.IsStray file source spans complaints i) : '\n' ∉ Span.text ⟨i, 1⟩ source := by
  obtain ⟨c, -, atIndex, isUnexpected⟩ := stray.reported
  have text_eq : Span.text ⟨i, 1⟩ source = [c] := by
    obtain ⟨inSource, rfl⟩ := List.getElem?_eq_some_iff.mp atIndex
    rw [Span.text, List.drop_eq_getElem_cons inSource]
    rfl
  rw [text_eq, List.mem_singleton]
  rintro rfl
  exact isUnexpected.not_blank (.inr (.inr (.inl rfl)))

end Places

/-- Every token of a file and every complaint about it is underlined where it is in the text: each
token where its span is, the end of the file behind the last character, and a complaint that is not
about a token where its stray character is. -/
def Underlined (sources : List SourceFile) (index : Int) (source : List Char) (lexed : Lexed) :
    Prop :=
  ∃ spans tokens,
    lexed.tokens =
        tokens ++ [(positionAt source source.length).token index .endOfFile "" 0] ∧
      Partition index source 0 spans tokens lexed.complaints ∧
      List.Forall₂ (Token.Underlined sources source) spans tokens ∧
      Token.Underlined sources source ⟨source.length, 0⟩
        ((positionAt source source.length).token index .endOfFile "" 0) ∧
      ∀ x ∈ lexed.complaints, ∃ span, x.token.Underlined sources source span ∧
        ((span, x.token) ∈ spans.zip tokens ∨
          ∃ i, span = ⟨i, 1⟩ ∧ x.IsStray index source spans lexed.complaints i)

/-- **Carets underline the offending token.** Whatever a diagnostic says, at a token of a registered
file it shows the line that the token is on and marks the characters of the token, and no others. -/
theorem print_underlines_token {sources : List SourceFile} {index : Int} {file : SourceFile}
    (registered : SourceFile.find? sources index = some file) :
    Underlined sources index file.text.toList (lex index file.text) := by
  have divides : (lex index file.text).Divides index file.text.toList 0 :=
    divides_placeLexemes index (cuts_lexemes file.text.toList) []
  obtain ⟨spans, tokens, tokens_eq, partition, located⟩ := divides
  have underlined : List.Forall₂ (Token.Underlined sources file.text.toList) spans tokens := by
    apply ((List.forall₂_and_left _ _).mpr ⟨partition.within, partition.stand⟩).imp
    rintro span token ⟨⟨-, -, inside⟩, stands⟩ d rfl
    exact Diagnostic.underlines_of_placed registered inside stands.oneLine stands.placed
  refine ⟨spans, tokens, tokens_eq, partition, underlined, ?_, ?_⟩
  · intro d placed
    exact Diagnostic.underlines_of_placed registered le_rfl (by simp [Span.text]) placed
  · intro x isComplaint
    rcases partition.token_or_stray located isComplaint with ⟨span, isPair⟩ | ⟨i, stray⟩
    · exact ⟨span, (List.forall₂_iff_zip.mp underlined).2 isPair, .inl isPair⟩
    · obtain ⟨c, -, atIndex, -⟩ := stray.reported
      have inside : Span.stop ⟨i, 1⟩ ≤ file.text.toList.length :=
        (List.getElem?_eq_some_iff.mp atIndex).1
      refine ⟨⟨i, 1⟩, ?_, .inr ⟨i, rfl, stray⟩⟩
      intro d placed
      exact Diagnostic.underlines_of_placed registered inside stray.oneLine
        (placed.trans stray.placed)

/-- Two files. The second has a comment, an empty line, a name without its closing quote, a stray
character, and no line end behind the last line. -/
def drafts : List SourceFile :=
  [{ name := "first.ll", text := "" },
    { name := "second.ll", text := "; note\n\n  %\"open\n\t?x" }]

theorem print_underlines_token_drafts :
    SourceFile.find? drafts 1 = some drafts[1] ∧
      Underlined drafts 1 drafts[1].text.toList (lex 1 drafts[1].text) :=
  ⟨rfl, print_underlines_token rfl⟩

example :
    Diagnostics.print drafts .plain ((lex 1 drafts[1].text).complaints.map Complaint.diagnostic) =
      "second.ll:3:3: error: unterminated quoted name\n    %\"open\n    ^~~~~~\n" ++
        "second.ll:4:2: error: unexpected character: '?'\n  \t?x\n   ^\n" := by
  decide +kernel

end Source

end RiscBackend
