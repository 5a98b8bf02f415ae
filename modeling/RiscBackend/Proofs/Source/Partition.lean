/-
# Tokens partition their text

Each token stands for a span of the text, and the spans follow one another without
overlap. What is outside all spans is blank, in a comment, or an unexpected character
with one complaint of its own. Lines and columns are counted from the text alone, so
no two characters have the same place and every complaint is about one character.
-/

import Mathlib.Algebra.Ring.Int.Defs
import Mathlib.Data.List.DropRight
import RiscBackend.Proofs.Source.Lexemes

namespace RiscBackend.Source

/-- The place of a character: one more than the line breaks before it, and one more than
the characters between the last of them and it. -/
def positionAt (source : List Char) (i : Nat) : Position :=
  { line := 1 + (source.take i).count '\n'
    column := 1 + ((source.take i).rtakeWhile (· != '\n')).length }

namespace Position

theorem after_append (p : Position) (cs later : List Char) :
    p.after (cs ++ later) = (p.after cs).after later :=
  List.foldl_append

/-- The place after a text, counted from the text. -/
theorem after_start (before : List Char) :
    Position.after {} before =
      { line := 1 + before.count '\n', column := 1 + (before.rtakeWhile (· != '\n')).length } := by
  induction before using List.reverseRecOn with
  | nil => rfl
  | append_singleton before c ih =>
    rw [after_append, ih]
    by_cases isBreak : c = '\n'
    · subst isBreak
      simp [after, next]
      rfl
    · simp [after, next, isBreak]
      omega

/-- The order in which places are passed. -/
def Before (p q : Position) : Prop :=
  p.line < q.line ∨ p.line = q.line ∧ p.column < q.column

theorem Before.ne {p q : Position} (before : p.Before q) : p ≠ q := by
  rintro rfl
  rcases before with lower | ⟨-, left⟩
  · exact Nat.lt_irrefl _ lower
  · exact Nat.lt_irrefl _ left

theorem Before.trans {p q r : Position} (first : p.Before q) (second : q.Before r) :
    p.Before r := by
  unfold Before at first second ⊢
  omega

theorem before_next (p : Position) (c : Char) : p.Before (p.next c) := by
  unfold next
  split
  · exact .inl (Nat.lt_succ_self _)
  · exact .inr ⟨rfl, Nat.lt_succ_self _⟩

theorem before_after (p : Position) {cs : List Char} (nonempty : cs ≠ []) :
    p.Before (p.after cs) := by
  induction cs generalizing p with
  | nil => exact absurd rfl nonempty
  | cons c rest ih =>
    by_cases isLast : rest = []
    · subst isLast
      exact p.before_next c
    · exact (p.before_next c).trans (ih (p.next c) isLast)

end Position

theorem positionAt_eq_after (source : List Char) (i : Nat) :
    positionAt source i = Position.after {} (source.take i) :=
  (Position.after_start _).symm

theorem positionAt_length (before rest : List Char) :
    positionAt (before ++ rest) before.length = Position.after {} before := by
  rw [positionAt_eq_after, List.take_left]

theorem positionAt_before {source : List Char} {i j : Nat} (lt : i < j)
    (bound : j ≤ source.length) : (positionAt source i).Before (positionAt source j) := by
  have split : source.take j = source.take i ++ (source.drop i).take (j - i) := by
    rw [← List.take_add, Nat.add_sub_cancel' lt.le]
  rw [positionAt_eq_after, positionAt_eq_after, split, Position.after_append]
  apply Position.before_after
  rw [← List.length_pos_iff, List.length_take, List.length_drop]
  omega

/-- **Different characters have different places.** -/
theorem positionAt_inj {source : List Char} {i j : Nat} (left : i ≤ source.length)
    (right : j ≤ source.length) (same : positionAt source i = positionAt source j) : i = j := by
  rcases Nat.lt_trichotomy i j with lt | rfl | gt
  · exact absurd same (positionAt_before lt right).ne
  · rfl
  · exact absurd same.symm (positionAt_before gt left).ne

/-- A complaint is about the character at an index. -/
def Complaint.IsAt (x : Complaint) (source : List Char) (i : Nat) : Prop :=
  x.token.line = (positionAt source i).line ∧ x.token.column = (positionAt source i).column

instance (x : Complaint) (source : List Char) (i : Nat) : Decidable (x.IsAt source i) :=
  inferInstanceAs (Decidable (_ ∧ _))

theorem Complaint.IsAt.unique {x : Complaint} {source : List Char} {i j : Nat}
    (first : x.IsAt source i) (second : x.IsAt source j) (left : i ≤ source.length)
    (right : j ≤ source.length) : i = j := by
  apply positionAt_inj left right
  have line := first.1.symm.trans second.1
  have column := first.2.symm.trans second.2
  generalize positionAt source i = p at line column ⊢
  generalize positionAt source j = q at line column ⊢
  cases p
  cases q
  simp_all

/-- The complaints about the character at an index. -/
def complaintsAt (source : List Char) (complaints : List Complaint) (i : Nat) :
    List Complaint :=
  complaints.filter fun x => x.IsAt source i

/-- A part of a text. -/
structure Span where
  start : Nat
  length : Nat
  deriving DecidableEq, Repr

namespace Span

/-- The index after the last character of a span. -/
def stop (s : Span) : Nat :=
  s.start + s.length

def Covers (s : Span) (i : Nat) : Prop :=
  s.start ≤ i ∧ i < s.stop

def text (s : Span) (source : List Char) : List Char :=
  (source.drop s.start).take s.length

end Span

/-- The complaint about a token, if there is a fault in its spelling. -/
def Token.complaints (token : Token) (fault : Option SyntaxFault) : List Complaint :=
  (fault.map fun fault => { token, fault }).toList

/-- A token stands for a span: it is placed at the start of the span and is as long, the
characters of the span are on one line and form the token, and the complaints there are
just the fault of the token's spelling. -/
structure Token.StandsFor (file : Int) (source : List Char) (complaints : List Complaint)
    (span : Span) (token : Token) : Prop where
  placed :
    token = (positionAt source span.start).token file token.kind token.text span.length
  not_end : token.kind ≠ .endOfFile
  oneLine : '\n' ∉ span.text source
  formed : ∃ fault,
    FormsToken token.kind token.text fault (span.text source) (source.drop span.stop) ∧
      complaintsAt source complaints span.start = token.complaints fault

/-- Why the character `c` at an index from `first` on is in none of the spans. -/
inductive Skipped (file : Int) (source : List Char) (spans : List Span)
    (complaints : List Complaint) (first i : Nat) (c : Char) : Prop
  | blank (isBlank : IsBlank c) (quiet : complaintsAt source complaints i = [])
  | comment (start : Nat) (first_le : first ≤ start) (start_le : start ≤ i)
      (opens : source[start]? = some ';')
      (inside : ∀ k, start ≤ k → k ≤ i →
        source[k]? ≠ some '\n' ∧ ∀ s ∈ spans, ¬ s.Covers k)
      (quiet : complaintsAt source complaints i = [])
  | unexpected (isUnexpected : Unexpected c (source.drop (i + 1)))
      (reported : complaintsAt source complaints i =
        [{ token := (positionAt source i).token file .endOfFile "" 1
           fault := .unexpectedCharacter c }])

/-- Spans of a text from an index on, with the tokens that stand for them and the
complaints. -/
structure Partition (file : Int) (source : List Char) (first : Nat) (spans : List Span)
    (tokens : List Token) (complaints : List Complaint) : Prop where
  stand : List.Forall₂ (Token.StandsFor file source complaints) spans tokens
  ordered : spans.Pairwise fun earlier later => earlier.stop ≤ later.start
  within : ∀ s ∈ spans, first ≤ s.start ∧ 0 < s.length ∧ s.stop ≤ source.length
  skipped : ∀ i c, first ≤ i → source[i]? = some c → (∀ s ∈ spans, ¬ s.Covers i) →
    Skipped file source spans complaints first i c

/-- Every complaint is about the start of a span or about a character outside the spans. -/
def Located (source : List Char) (first : Nat) (spans : List Span)
    (complaints : List Complaint) : Prop :=
  ∀ x ∈ complaints, ∃ i, first ≤ i ∧ i < source.length ∧ x.IsAt source i ∧
    ((∃ s ∈ spans, s.start = i) ∨ ∀ s ∈ spans, ¬ s.Covers i)

section Steps

variable {file : Int} {source : List Char} {first i : Nat} {spans : List Span}
  {tokens : List Token} {own complaints : List Complaint} {c : Char}

theorem Located.complaintsAt_eq_nil (located : Located source first spans complaints)
    (lt : i < first) (bound : first ≤ source.length) : complaintsAt source complaints i = [] := by
  unfold complaintsAt
  rw [List.filter_eq_nil_iff]
  intro x isComplaint isAt
  obtain ⟨j, le, inSource, isAt', -⟩ := located x isComplaint
  have same := (of_decide_eq_true isAt).unique isAt' (by omega) inSource.le
  omega

/-- Complaints about one character do not count for another. -/
theorem complaintsAt_append_of_ne (owned : ∀ x ∈ own, x.IsAt source first) (ne : i ≠ first)
    (inSource : i ≤ source.length) (bound : first ≤ source.length) :
    complaintsAt source (own ++ complaints) i = complaintsAt source complaints i := by
  have none : own.filter (fun x => decide (x.IsAt source i)) = [] := by
    rw [List.filter_eq_nil_iff]
    intro x isOwn isAt
    exact ne ((of_decide_eq_true isAt).unique (owned x isOwn) inSource bound)
  unfold complaintsAt
  rw [List.filter_append, none, List.nil_append]

theorem complaintsAt_append_self (owned : ∀ x ∈ own, x.IsAt source first)
    (quiet : complaintsAt source complaints first = []) :
    complaintsAt source (own ++ complaints) first = own := by
  have all : own.filter (fun x => decide (x.IsAt source first)) = own := by
    rw [List.filter_eq_self]
    intro x isOwn
    exact decide_eq_true (owned x isOwn)
  unfold complaintsAt at quiet ⊢
  rw [List.filter_append, all, quiet, List.append_nil]

/-- What is skipped stays so when a span or a complaint comes in front of it. -/
theorem Skipped.prepend {n : Nat} {front : List Span}
    (skipped : Skipped file source spans complaints first i c) (le : first ≤ i)
    (inSource : i < source.length) (lt : n < first)
    (bounded : ∀ s ∈ front, s.stop ≤ first) (owned : ∀ x ∈ own, x.IsAt source n) :
    Skipped file source (front ++ spans) (own ++ complaints) n i c := by
  have same : complaintsAt source (own ++ complaints) i = complaintsAt source complaints i :=
    complaintsAt_append_of_ne owned (by omega) inSource.le (by omega)
  cases skipped with
  | blank isBlank quiet => exact .blank isBlank (same.trans quiet)
  | comment start first_le start_le opens inside quiet =>
    refine .comment start (by omega) start_le opens ?_ (same.trans quiet)
    intro k above below
    obtain ⟨oneLine, outside⟩ := inside k above below
    refine ⟨oneLine, List.forall_mem_append.mpr ⟨fun s isFront covers => ?_, outside⟩⟩
    have stops := bounded s isFront
    have covered := covers.2
    omega
  | unexpected isUnexpected reported => exact .unexpected isUnexpected (same.trans reported)

theorem Token.StandsFor.prepend {n : Nat} {span : Span} {token : Token}
    (stands : token.StandsFor file source complaints span) (lt : n < span.start)
    (inSource : span.start ≤ source.length) (owned : ∀ x ∈ own, x.IsAt source n) :
    token.StandsFor file source (own ++ complaints) span := by
  obtain ⟨fault, forms, reported⟩ := stands.formed
  refine ⟨stands.placed, stands.not_end, stands.oneLine, fault, forms, ?_⟩
  rw [complaintsAt_append_of_ne owned lt.ne' inSource (by omega)]
  exact reported

/-- Spans, tokens and complaints of a part of the text come before those of the rest. -/
theorem Partition.prepend {n : Nat} (front : List Span) (row : List Token)
    (own : List Complaint) (partition : Partition file source first spans tokens complaints)
    (lt : n < first) (bound : first ≤ source.length) (owned : ∀ x ∈ own, x.IsAt source n)
    (stand : List.Forall₂ (Token.StandsFor file source (own ++ complaints)) front row)
    (ordered : front.Pairwise fun earlier later => earlier.stop ≤ later.start)
    (within : ∀ s ∈ front, n ≤ s.start ∧ 0 < s.length ∧ s.stop ≤ first)
    (skipped : ∀ i c, n ≤ i → i < first → source[i]? = some c →
      (∀ s ∈ front, ¬ s.Covers i) →
        Skipped file source (front ++ spans) (own ++ complaints) n i c) :
    Partition file source n (front ++ spans) (row ++ tokens) (own ++ complaints) := by
  constructor
  · apply List.rel_append stand
    refine ((List.forall₂_and_left _ _).mpr ⟨partition.within, partition.stand⟩).imp ?_
    rintro span token ⟨⟨above, -, stops⟩, stands⟩
    exact stands.prepend (by omega) ((Nat.le_add_right _ _).trans stops) owned
  · refine List.pairwise_append.mpr ⟨ordered, partition.ordered, ?_⟩
    intro s isFront t isLater
    have stops := (within s isFront).2.2
    have starts := (partition.within t isLater).1
    omega
  · refine List.forall_mem_append.mpr ⟨fun s isFront => ?_, fun s isLater => ?_⟩
    · obtain ⟨above, nonempty, stops⟩ := within s isFront
      exact ⟨above, nonempty, stops.trans bound⟩
    · obtain ⟨above, nonempty, stops⟩ := partition.within s isLater
      exact ⟨lt.le.trans above, nonempty, stops⟩
  · intro i c le isHere uncovered
    obtain ⟨outsideFront, outside⟩ := List.forall_mem_append.mp uncovered
    by_cases isFront : i < first
    · exact skipped i c le isFront isHere outsideFront
    · have inSource : i < source.length := (List.getElem?_eq_some_iff.mp isHere).1
      have later := partition.skipped i c (by omega) isHere outside
      exact later.prepend (by omega) inSource lt (fun s isSpan => (within s isSpan).2.2) owned

theorem Located.prepend {n : Nat} (front : List Span) (own : List Complaint)
    (located : Located source first spans complaints) (lt : n < first)
    (bound : first ≤ source.length) (owned : ∀ x ∈ own, x.IsAt source n)
    (stops : ∀ s ∈ front, s.stop ≤ first)
    (mine : own ≠ [] → (∃ s ∈ front ++ spans, s.start = n) ∨ ∀ s ∈ front ++ spans, ¬ s.Covers n) :
    Located source n (front ++ spans) (own ++ complaints) := by
  refine List.forall_mem_append.mpr ⟨fun x isOwn => ?_, fun x isLater => ?_⟩
  · exact ⟨n, le_rfl, by omega, owned x isOwn, mine (List.ne_nil_of_mem isOwn)⟩
  · obtain ⟨i, le, inSource, isAt, place⟩ := located x isLater
    refine ⟨i, by omega, inSource, isAt, ?_⟩
    rcases place with ⟨s, isSpan, starts⟩ | outside
    · exact .inl ⟨s, List.mem_append_right _ isSpan, starts⟩
    · refine .inr (List.forall_mem_append.mpr ⟨fun s isFront covers => ?_, outside⟩)
      have covered := covers.2
      have bounded := stops s isFront
      omega

end Steps

/-- The tokens from an index on stand for spans of the text, up to the one token for the
end of the file, and the complaints are about the places where they arise. -/
def Lexed.Divides (file : Int) (source : List Char) (first : Nat) (lexed : Lexed) : Prop :=
  ∃ spans tokens,
    lexed.tokens =
        tokens ++ [(positionAt source source.length).token file .endOfFile "" 0] ∧
      Partition file source first spans tokens lexed.complaints ∧
      Located source first spans lexed.complaints

namespace Lexed.Divides

variable {file : Int} {source : List Char} {first n : Nat} {lexed : Lexed} {c : Char}

/-- There are no complaints about what comes before. -/
theorem quiet (later : lexed.Divides file source first) (bound : first ≤ source.length)
    {i : Nat} (lt : i < first) : complaintsAt source lexed.complaints i = [] := by
  obtain ⟨spans, tokens, -, -, located⟩ := later
  exact located.complaintsAt_eq_nil lt bound

/-- A part of the text in front is skipped, perhaps with complaints about its start. -/
theorem skip (later : lexed.Divides file source first) (lt : n < first)
    (bound : first ≤ source.length) (own : List Complaint)
    (owned : ∀ x ∈ own, x.IsAt source n)
    (skipped : ∀ spans : List Span, (∀ k < first, ∀ s ∈ spans, ¬ s.Covers k) →
      ∀ i c, n ≤ i → i < first → source[i]? = some c →
        Skipped file source spans (own ++ lexed.complaints) n i c) :
    Divides file source n { lexed with complaints := own ++ lexed.complaints } := by
  obtain ⟨spans, tokens, tokens_eq, partition, located⟩ := later
  -- The spans are those of the rest, which start behind the skipped part.
  have outside : ∀ k < first, ∀ s ∈ spans, ¬ s.Covers k := by
    intro k below s isSpan covers
    have starts := (partition.within s isSpan).1
    have covered := covers.1
    omega
  refine ⟨spans, tokens, tokens_eq, ?_, ?_⟩
  · refine partition.prepend [] [] own lt bound owned .nil .nil (by simp) ?_
    intro i c le isFront isHere _
    exact skipped spans outside i c le isFront isHere
  · exact located.prepend [] own lt bound owned (by simp) fun _ => .inr (outside n lt)

theorem blank (later : lexed.Divides file source (n + 1)) (isHere : source[n]? = some c)
    (isBlank : IsBlank c) : lexed.Divides file source n := by
  have bound : n + 1 ≤ source.length := (List.getElem?_eq_some_iff.mp isHere).1
  refine later.skip n.lt_succ_self bound [] (by simp) ?_
  intro spans _ i d le isFront isHere'
  obtain rfl : i = n := by omega
  obtain rfl : d = c := Option.some.inj (isHere'.symm.trans isHere)
  exact .blank isBlank (later.quiet bound isFront)

theorem comment (later : lexed.Divides file source first) (lt : n < first)
    (bound : first ≤ source.length) (opens : source[n]? = some ';')
    (oneLine : ∀ k, n ≤ k → k < first → source[k]? ≠ some '\n') :
    lexed.Divides file source n := by
  refine later.skip lt bound [] (by simp) ?_
  intro spans outside i d le isFront _
  refine .comment n le_rfl le opens ?_ (later.quiet bound isFront)
  intro k above below
  exact ⟨oneLine k above (by omega), outside k (by omega)⟩

theorem stray (later : lexed.Divides file source (n + 1)) (isHere : source[n]? = some c)
    (unexpected : Unexpected c (source.drop (n + 1))) :
    Divides file source n
      { lexed with
        complaints :=
          { token := (positionAt source n).token file .endOfFile "" 1
            fault := .unexpectedCharacter c } :: lexed.complaints } := by
  have bound : n + 1 ≤ source.length := (List.getElem?_eq_some_iff.mp isHere).1
  have owned : ∀ x ∈ [({ token := (positionAt source n).token file .endOfFile "" 1
                         fault := .unexpectedCharacter c } : Complaint)], x.IsAt source n := by
    rintro x isOwn
    obtain rfl := List.mem_singleton.mp isOwn
    exact ⟨rfl, rfl⟩
  refine later.skip n.lt_succ_self bound _ owned ?_
  intro spans _ i d le isFront isHere'
  obtain rfl : i = n := by omega
  obtain rfl : d = c := Option.some.inj (isHere'.symm.trans isHere)
  exact .unexpected unexpected (complaintsAt_append_self owned (later.quiet bound isFront))

theorem token (span : Span) {kind : TokenKind} {text : String} {fault : Option SyntaxFault}
    (later : lexed.Divides file source span.stop) (bound : span.stop ≤ source.length)
    (forms : FormsToken kind text fault (span.text source) (source.drop span.stop)) :
    let token := (positionAt source span.start).token file kind text span.length
    Divides file source span.start
      { tokens := token :: lexed.tokens
        complaints := token.complaints fault ++ lexed.complaints } := by
  intro token
  have nonempty : 0 < span.length := by
    have pos := List.length_pos_iff.mpr forms.chars_ne_nil
    rw [Span.text, List.length_take] at pos
    omega
  have lt : span.start < span.stop := Nat.lt_add_of_pos_right nonempty
  have owned : ∀ x ∈ token.complaints fault, x.IsAt source span.start := by
    intro x isOwn
    obtain ⟨reason, -, rfl⟩ := Option.map_eq_some_iff.mp (Option.mem_toList.mp isOwn)
    exact ⟨rfl, rfl⟩
  have reported := complaintsAt_append_self owned (later.quiet bound lt)
  have stands : token.StandsFor file source (token.complaints fault ++ lexed.complaints) span :=
    ⟨rfl, forms.kind_ne_endOfFile, forms.oneLine, fault, forms, reported⟩
  obtain ⟨spans, tokens, tokens_eq, partition, located⟩ := later
  refine ⟨span :: spans, token :: tokens, congrArg (token :: ·) tokens_eq, ?_, ?_⟩
  · refine partition.prepend [span] [token] _ lt bound owned (.cons stands .nil)
      (List.pairwise_singleton _ _) ?_ ?_
    · simpa using nonempty
    · intro i c le isFront _ uncovered
      exact absurd ⟨le, isFront⟩ (uncovered span (List.mem_singleton_self span))
  · refine located.prepend [span] _ lt bound owned (by simp) fun _ => .inl ?_
    exact ⟨span, List.mem_cons_self, rfl⟩

end Lexed.Divides

/-- One lexeme in front of the others. -/
theorem Lexed.Divides.lexeme {file : Int} {before rest : List Char} {lexeme : Lexeme}
    {lexemes : List Lexeme} (fits : lexeme.Fits rest)
    (later : (placeLexemes file (Position.after {} (before ++ lexeme.chars)) lexemes).Divides file
      (before ++ (lexeme.chars ++ rest)) (before.length + lexeme.chars.length)) :
    (placeLexemes file (Position.after {} before) (lexeme :: lexemes)).Divides file
      (before ++ (lexeme.chars ++ rest)) before.length := by
  rw [Position.after_append, ← positionAt_length before (lexeme.chars ++ rest)] at later
  rw [← positionAt_length before (lexeme.chars ++ rest)]
  have bound : before.length + lexeme.chars.length ≤
      (before ++ (lexeme.chars ++ rest)).length := by
    simp only [List.length_append]
    omega
  have left : (before ++ (lexeme.chars ++ rest)).drop (before.length + lexeme.chars.length) =
      rest := by
    rw [← List.append_assoc, ← List.length_append, List.drop_left]
  -- Each form has its own lemma; what is left is where its characters are in the text.
  cases fits with
  | blank isBlank => exact later.blank (by simp) isBlank
  | @comment run rest oneLine _ =>
    refine later.comment (by simp) bound (by simp) ?_
    intro k above below isBreak
    rw [List.getElem?_append_right above, List.getElem?_append_left (by omega)] at isBreak
    have isInside := List.mem_of_getElem? isBreak
    simp [oneLine] at isInside
  | @token kind text fault chars rest forms =>
    refine token ⟨before.length, chars.length⟩ later bound ?_
    have here : Span.text ⟨before.length, chars.length⟩ (before ++ (chars ++ rest)) = chars := by
      rw [Span.text, List.drop_left, List.take_left]
    rw [here, Span.stop, left]
    exact forms
  | stray unexpected =>
    rw [← left] at unexpected
    exact later.stray (by simp) unexpected

/-- **The tokens of a text and the complaints about it divide the text.** -/
theorem divides_placeLexemes (file : Int) {cs : List Char} {lexemes : List Lexeme}
    (cuts : Cuts cs lexemes) (before : List Char) :
    (placeLexemes file (Position.after {} before) lexemes).Divides file (before ++ cs)
      before.length := by
  induction cuts generalizing before with
  | nil =>
    rw [List.append_nil]
    refine ⟨[], [], ?_, ⟨.nil, .nil, by simp, ?_⟩, by simp [Located, placeLexemes]⟩
    · rw [positionAt_eq_after, List.take_length]
      rfl
    · intro i c le isHere _
      have inSource := (List.getElem?_eq_some_iff.mp isHere).1
      omega
  | @cons lexeme rest lexemes fits _ ih =>
    have later := ih (before ++ lexeme.chars)
    rw [List.append_assoc, List.length_append] at later
    exact .lexeme fits later

/-- **A text is partitioned by its tokens.** There is one end of the file, after the whole
text; the other tokens stand for disjoint spans in the order of the text, and what no token
stands for is blank, a comment, or an unexpected character with its complaint. -/
theorem lex_partitions_source (file : Int) (text : String) :
    (lex file text).Divides file text.toList 0 :=
  divides_placeLexemes file (cuts_lexemes text.toList) []

end RiscBackend.Source
