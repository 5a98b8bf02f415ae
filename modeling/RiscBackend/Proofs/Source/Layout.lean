/-
# Layout does not matter beyond line breaks

Blanks between tokens, comments at the ends of lines and lines without tokens are layout. Blanks
and comments leave the symbols of a text as they are. New lines without tokens repeat the end of a
line, which moves the tokens below down and changes nothing else. So the tokens stand alike before
and after, and they are read to the same module or to the same faults.
-/

import Mathlib.Logic.Relation
import RiscBackend.Proofs.Source.Symbols

namespace RiscBackend.Source

/-! ### Lines that are moved down -/

/-- Lines from `first` on are moved down. -/
def movedDown (first count : Nat) (line : Int) : Int :=
  if line < first then line else line + count

theorem movedDown_injective (first count : Nat) : Function.Injective (movedDown first count) := by
  intro line line' same
  unfold movedDown at same
  split_ifs at same <;> omega

theorem tagLines_replicate (line count : Nat) (rest : List Symbol) :
    tagLines line (List.replicate count .lineEnd ++ rest) = tagLines (line + count) rest := by
  induction count generalizing line with
  | zero => rfl
  | succ count ih =>
    rw [List.replicate_succ, List.cons_append, tagLines, ih]
    congr 1
    omega

/-- Symbols below the line from which lines are moved down. -/
theorem tagLines_add {first line : Nat} (count : Nat) (below : first ≤ line) (rest : List Symbol) :
    tagLines (line + count) rest =
      (tagLines line rest).map (Prod.map (movedDown first count) id) := by
  have moves : movedDown first count line = ((line + count : Nat) : Int) := by
    rw [movedDown, if_neg (by omega)]
    rfl
  induction rest generalizing line with
  | nil => simp [tagLines, moves]
  | cons symbol rest ih =>
    cases symbol with
    | token kind text fault => simp [tagLines, moves, ih below moves]
    | stray c => exact ih below moves
    | lineEnd =>
      have moves' : movedDown first count (line + 1 : Nat) = ((line + 1 + count : Nat) : Int) := by
        rw [movedDown, if_neg (by omega)]
        rfl
      have later := ih (Nat.le_succ_of_le below) moves'
      rw [tagLines, tagLines, ← later]
      congr 1
      omega

/-- New ends of lines at the start of a line move the tokens below down. -/
theorem tagLines_insert (line count : Nat) {above : List Symbol}
    (closed : ∀ symbol ∈ above.getLast?, symbol = .lineEnd) (below : List Symbol) :
    tagLines line (above ++ (List.replicate count .lineEnd ++ below)) =
      (tagLines line (above ++ below)).map
        (Prod.map (movedDown (line + above.count .lineEnd) count) id) := by
  induction above generalizing line with
  | nil =>
    rw [List.nil_append, List.nil_append, tagLines_replicate]
    exact tagLines_add count (Nat.le_refl _) below
  | cons symbol above ih =>
    have closed' : ∀ symbol ∈ above.getLast?, symbol = .lineEnd := by
      intro last isLast
      apply closed
      rw [List.getLast?_cons, Option.mem_def.mp isLast]
      rfl
    cases symbol with
    | token kind text fault =>
      -- The line of the token is closed above the place of the new lines.
      have isAbove : 0 < above.count .lineEnd := by
        cases isLast : above.getLast? with
        | none => cases closed (.token kind text fault) (by rw [List.getLast?_cons, isLast]; rfl)
        | some last =>
          obtain rfl := closed' last isLast
          exact List.count_pos_iff.mpr (List.mem_of_getLast? isLast)
      have stays : movedDown (line + above.count .lineEnd) count line = line := by
        rw [movedDown, if_pos (by omega)]
      rw [List.count_cons_of_ne (by simp)]
      simp [tagLines, stays, ih line closed']
    | stray c =>
      rw [List.count_cons_of_ne (by simp)]
      exact ih line closed'
    | lineEnd =>
      have later := ih (line + 1) closed'
      rw [List.count_cons_self, show line + (above.count .lineEnd + 1) =
        line + 1 + above.count .lineEnd by omega]
      exact later

/-! ### Changes of layout -/

/-- Blanks within a line. -/
def AreBlanks (run : List Char) : Prop :=
  ∀ c ∈ run, c = ' ' ∨ c = '\t' ∨ c = '\r'

/-- A line without tokens, without its line break. -/
inductive EmptyLine : String → Prop
  | blank {blanks : String} (areBlanks : AreBlanks blanks.toList) : EmptyLine blanks
  | comment {blanks text : String} (areBlanks : AreBlanks blanks.toList)
      (oneLine : '\n' ∉ text.toList) : EmptyLine (blanks ++ ";" ++ text)

/-- One change of the layout of a text: blanks between tokens, a comment at the end of a line, or
lines without tokens before a line. -/
inductive Relaid : String → String → Prop
  | blanks {before gap after : String} (areBlanks : AreBlanks gap.toList)
      (between : ∀ t ∈ (lex 0 (before ++ after)).tokens,
        ¬ t.Encloses (Position.after {} before.toList)) :
      Relaid (before ++ after) (before ++ gap ++ after)
  | comment {before text blanks after : String} (oneLine : '\n' ∉ text.toList)
      (areBlanks : AreBlanks blanks.toList) (lineEnd : ∀ c ∈ after.toList.head?, c = '\n') :
      Relaid (before ++ blanks ++ after) (before ++ ";" ++ text ++ blanks ++ after)
  | lines {before after : String} {lines : List String} (empty : ∀ line ∈ lines, EmptyLine line)
      (lineStart : ∀ c ∈ before.toList.getLast?, c = '\n') :
      Relaid (before ++ after)
        (before ++ lines.foldr (fun line rest => line ++ "\n" ++ rest) after)

theorem AreBlanks.isBlank {run : List Char} (areBlanks : AreBlanks run) {c : Char}
    (isMember : c ∈ run) : IsBlank c ∧ c ≠ '\n' := by
  rcases areBlanks c isMember with rfl | rfl | rfl <;> simp [IsBlank]

theorem AreBlanks.isGap {run : List Char} (areBlanks : AreBlanks run) : IsGap run where
  oneLine isBreak := (areBlanks.isBlank isBreak).2 rfl
  opens c isHead := by
    rcases areBlanks c (List.mem_of_head? isHead) with rfl | rfl | rfl <;> decide

theorem symbols_blanks {run : List Char} (areBlanks : AreBlanks run) (rest : List Char) :
    symbols (run ++ rest) = symbols rest := by
  induction run with
  | nil => rfl
  | cons c run ih =>
    obtain ⟨isBlank, notBreak⟩ := areBlanks.isBlank List.mem_cons_self
    have skipped := symbols_of_fits (.blank isBlank : Lexeme.Fits ⟨.blank, [c]⟩ (run ++ rest))
    rw [ih fun x isMember => areBlanks x (List.mem_cons_of_mem c isMember)] at skipped
    simpa [Lexeme.symbol?, notBreak] using skipped

/-- A comment can take blanks at the end of its line. -/
theorem symbols_comment_blanks {text blanks after : List Char} (oneLine : '\n' ∉ text)
    (areBlanks : AreBlanks blanks) (lineEnd : ∀ c ∈ after.head?, c = '\n') :
    symbols (';' :: text ++ (blanks ++ after)) = symbols (blanks ++ after) := by
  have oneLine' : '\n' ∉ text ++ blanks := by
    rw [List.mem_append, not_or]
    exact ⟨oneLine, areBlanks.isGap.oneLine⟩
  have long := symbols_comment oneLine' lineEnd
  rw [List.append_assoc] at long
  rw [symbols_blanks areBlanks]
  exact long

/-- The end of a line is not inside a token. -/
theorem between_of_lineEnd {before blanks after : List Char} (areBlanks : AreBlanks blanks)
    (lineEnd : ∀ c ∈ after.head?, c = '\n')
    (faultless : ∀ symbol ∈ symbols (before ++ (blanks ++ after)), symbol.fault? = none) :
    Between before (blanks ++ after) := by
  refine (between_or_crossed before (blanks ++ after)).resolve_right fun crossed => ?_
  obtain ⟨kind, text, fault, head, tail, rest, split, nonempty, forms, isSymbol⟩ := crossed.spelled
  have closed : fault = none := faultless _ isSymbol
  -- The rest of the token is on the line, so its last character is one of the blanks.
  have inside : ∀ c ∈ tail, c ∈ blanks := by
    rcases List.append_eq_append_iff.mp split with ⟨more, rfl, rfl⟩ | ⟨more, rfl, -⟩
    · cases more with
      | nil => simp
      | cons c more =>
        obtain rfl := lineEnd c rfl
        exact absurd (by simp) forms.oneLine
    · exact fun c isMember => List.mem_append_left _ isMember
  have isLast := List.getLast?_eq_some_getLast nonempty
  have isLast' : (head ++ tail).getLast? = some (tail.getLast nonempty) := by
    rw [List.getLast?_append_of_ne_nil _ nonempty, isLast]
  have isBlank := (areBlanks.isBlank (inside _ (List.mem_of_getLast? isLast))).1
  exact forms.last_not_blank (by simp [closed]) _ isLast' isBlank

theorem symbols_emptyLine {line : String} (empty : EmptyLine line) (rest : List Char) :
    symbols (line.toList ++ '\n' :: rest) = .lineEnd :: symbols rest := by
  cases empty with
  | blank areBlanks => rw [symbols_blanks areBlanks, symbols_lineEnd]
  | @comment blanks text areBlanks oneLine =>
    have ends : ∀ c ∈ ('\n' :: rest).head?, c = '\n' := by
      rintro c ⟨⟩
      rfl
    rw [String.toList_append, String.toList_append, List.append_assoc, List.append_assoc,
      symbols_blanks areBlanks]
    exact (symbols_comment oneLine ends).trans (symbols_lineEnd rest)

theorem symbols_emptyLines {lines : List String} (empty : ∀ line ∈ lines, EmptyLine line)
    (after : String) :
    symbols (lines.foldr (fun line rest => line ++ "\n" ++ rest) after).toList =
      List.replicate lines.length .lineEnd ++ symbols after.toList := by
  induction lines with
  | nil => rfl
  | cons line lines ih =>
    obtain ⟨first, later⟩ := List.forall_mem_cons.mp empty
    rw [List.foldr_cons, String.toList_append, String.toList_append, List.append_assoc]
    exact (symbols_emptyLine first _).trans (congrArg (_ :: ·) (ih later))

theorem symbols_append_of_lineStart {before : List Char}
    (lineStart : ∀ c ∈ before.getLast?, c = '\n') :
    (∀ symbol ∈ (symbols before).getLast?, symbol = .lineEnd) ∧
      ∀ rest, symbols (before ++ rest) = symbols before ++ symbols rest := by
  cases isLast : before.getLast? with
  | none =>
    obtain rfl := List.getLast?_eq_none_iff.mp isLast
    have nothing : symbols [] = [] := by rw [symbols, lexemes]; rfl
    rw [nothing]
    exact ⟨by simp, fun rest => rfl⟩
  | some c =>
    obtain rfl := lineStart c isLast
    obtain ⟨last, append⟩ := symbols_append_of_lineEnd isLast
    refine ⟨fun symbol isLast' => ?_, append⟩
    exact (Option.some.inj (last.symm.trans isLast')).symm

/-- The symbols after a change of layout are the same, but for new ends of lines after the end of
a line or at the start of the text. -/
theorem Relaid.exists_symbols {text text' : String} (relaid : Relaid text text')
    (faultless : ∀ symbol ∈ symbols text.toList, symbol.fault? = none) :
    ∃ above below count, (∀ symbol ∈ above.getLast?, symbol = .lineEnd) ∧
      symbols text.toList = above ++ below ∧
      symbols text'.toList = above ++ (List.replicate count .lineEnd ++ below) := by
  cases relaid with
  | @blanks before gap after areBlanks between =>
    refine ⟨[], symbols (before ++ after).toList, 0, by simp, by simp, ?_⟩
    rw [List.nil_append, List.replicate_zero, List.nil_append]
    have isBetween : Between before.toList after.toList := by
      refine (between_or_crossed _ _).resolve_right fun crossed => ?_
      obtain ⟨t, isToken, encloses⟩ := crossed.placed 0 {}
      rw [← String.toList_append] at isToken
      exact between t isToken encloses
    rw [String.toList_append] at faultless ⊢
    have same := isBetween.symbols_insert areBlanks.isGap (symbols_blanks areBlanks _) faultless
    rwa [String.toList_append, List.append_assoc, String.toList_append]
  | @comment before text blanks after oneLine areBlanks lineEnd =>
    refine ⟨[], symbols (before ++ blanks ++ after).toList, 0, by simp, by simp, ?_⟩
    rw [List.nil_append, List.replicate_zero, List.nil_append]
    have isGap : IsGap (';' :: text.toList) := by
      refine ⟨by simp [oneLine], ?_⟩
      rintro c ⟨⟩
      decide
    rw [String.toList_append, String.toList_append, List.append_assoc] at faultless ⊢
    have isBetween := between_of_lineEnd areBlanks lineEnd faultless
    have same := isBetween.symbols_insert isGap
      (symbols_comment_blanks oneLine areBlanks lineEnd) faultless
    simpa using same
  | @lines before after lines empty lineStart =>
    obtain ⟨closed, append⟩ := symbols_append_of_lineStart lineStart
    refine ⟨symbols before.toList, symbols after.toList, lines.length, closed, ?_, ?_⟩
    · rw [String.toList_append, append]
    · rw [String.toList_append, append, symbols_emptyLines empty]

/-! ### Outcomes -/

theorem faults_lex (file : Int) (text : String) :
    faults (lex file text).complaints = (symbols text.toList).filterMap Symbol.fault? :=
  faults_placeLexemes file _ {}

theorem complaints_lex_eq_nil_iff {file : Int} {text : String} :
    (lex file text).complaints = [] ↔ ∀ symbol ∈ symbols text.toList, symbol.fault? = none := by
  rw [← List.filterMap_eq_nil_iff, ← faults_lex file, faults, List.map_eq_nil_iff]

theorem alike_of_view {moved : Int → Int} {tokens tokens' : List Token}
    (same : tokens'.map Token.view = (tokens.map Token.view).map (Prod.map moved id)) :
    List.Forall₂ (Token.Alike moved) tokens tokens' := by
  induction tokens generalizing tokens' with
  | nil =>
    obtain rfl := List.map_eq_nil_iff.mp same
    exact .nil
  | cons t tokens ih =>
    cases tokens' with
    | nil => cases same
    | cons t' tokens' =>
      obtain ⟨first, later⟩ := List.cons.inj same
      obtain ⟨line_eq, tag_eq⟩ := Prod.mk.inj first
      obtain ⟨kind_eq, text_eq⟩ := Prod.mk.inj tag_eq
      exact .cons ⟨kind_eq, text_eq, line_eq⟩ (ih later)

/-- Tokens stand alike before and after a change of layout, and there is nothing new to complain
about. -/
theorem Relaid.exists_alike {text text' : String} (relaid : Relaid text text') {file : Int}
    (clean : (lex file text).complaints = []) :
    (lex file text').complaints = [] ∧
      ∃ moved : Int → Int, Function.Injective moved ∧ moved 0 = 0 ∧
        List.Forall₂ (Token.Alike moved) (lex file text).tokens (lex file text').tokens := by
  have faultless := complaints_lex_eq_nil_iff.mp clean
  obtain ⟨above, below, count, closed, symbols_eq, symbols_eq'⟩ := relaid.exists_symbols faultless
  constructor
  · rw [complaints_lex_eq_nil_iff, symbols_eq']
    rw [symbols_eq] at faultless
    obtain ⟨faultlessAbove, faultlessBelow⟩ := List.forall_mem_append.mp faultless
    refine List.forall_mem_append.mpr ⟨faultlessAbove, ?_⟩
    refine List.forall_mem_append.mpr ⟨fun symbol isNew => ?_, faultlessBelow⟩
    rw [List.eq_of_mem_replicate isNew]
    rfl
  · refine ⟨movedDown (1 + above.count .lineEnd) count, movedDown_injective _ _, ?_, ?_⟩
    · rw [movedDown, if_pos (by omega)]
    · apply alike_of_view
      rw [lex, lex, view_placeLexemes file (cuts_lexemes _),
        view_placeLexemes file (cuts_lexemes _)]
      have moves := tagLines_insert 1 count closed below
      rw [← symbols_eq, ← symbols_eq'] at moves
      exact moves

/-- The messages of complaints. -/
def messages (complaints : List Complaint) : List String :=
  complaints.map fun complaint => complaint.diagnostic.message

theorem messages_eq (complaints : List Complaint) :
    messages complaints = (faults complaints).map SyntaxFault.message := by
  rw [messages, faults, List.map_map]
  rfl

theorem mapError_messages (outcome : Except (List Complaint) IR.Module) :
    outcome.mapError messages =
      (outcome.mapError faults).mapError (List.map SyntaxFault.message) := by
  cases outcome with
  | ok => rfl
  | error complaints => exact congrArg Except.error (messages_eq complaints)

theorem Relaid.parse_eq {text text' : String} (relaid : Relaid text text') {file : Int}
    (clean : (lex file text).complaints = []) :
    (parse file text').mapError messages = (parse file text).mapError messages := by
  obtain ⟨clean', moved, injective, nowhere, alike⟩ := relaid.exists_alike clean
  rw [mapError_messages, mapError_messages, parse, parse, clean, clean']
  exact congrArg _ (parseTokens_alike injective nowhere alike)

/-- **Layout does not matter beyond line breaks.** A text without complaints about its spelling
keeps its outcome, the module or the messages in their order, under any changes of its layout:
blanks between tokens, comments at the ends of lines, and lines without tokens. -/
theorem parse_of_relaid (file : Int) {text text' : String} (clean : (lex file text).complaints = [])
    (relaid : Relation.ReflTransGen Relaid text text') :
    (lex file text').complaints = [] ∧
      (parse file text').mapError messages = (parse file text).mapError messages := by
  induction relaid with
  | refl => exact ⟨clean, rfl⟩
  | tail _ step ih =>
    obtain ⟨clean', same⟩ := ih
    exact ⟨(step.exists_alike clean').1, (step.parse_eq clean').trans same⟩

/-- A global and a function with little layout. -/
def tightText : String :=
  "@g=global i32 7\ndefine i32 @f()\x7b\nret i32 0\n\x7d\n"

/-- The same with blanks in front of the instruction, a comment after the global, and two lines
without tokens between the global and the function. -/
def looseText : String :=
  "@g=global i32 7; seven\n\n \t; the function\ndefine i32 @f()\x7b\n\t ret i32 0\n\x7d\n"

theorem relaid_looseText : Relation.ReflTransGen Relaid tightText looseText := by
  have indented : Relaid tightText
      "@g=global i32 7\ndefine i32 @f()\x7b\n\t ret i32 0\n\x7d\n" :=
    @Relaid.blanks "@g=global i32 7\ndefine i32 @f()\x7b\n" "\t " "ret i32 0\n\x7d\n"
      (by simp [AreBlanks]) (by decide +kernel)
  have commented : Relaid "@g=global i32 7\ndefine i32 @f()\x7b\n\t ret i32 0\n\x7d\n"
      "@g=global i32 7; seven\ndefine i32 @f()\x7b\n\t ret i32 0\n\x7d\n" :=
    @Relaid.comment "@g=global i32 7" " seven" "" "\ndefine i32 @f()\x7b\n\t ret i32 0\n\x7d\n"
      (by simp) (by simp [AreBlanks]) (by simp)
  have spaced : Relaid "@g=global i32 7; seven\ndefine i32 @f()\x7b\n\t ret i32 0\n\x7d\n"
      looseText :=
    @Relaid.lines "@g=global i32 7; seven\n" "define i32 @f()\x7b\n\t ret i32 0\n\x7d\n"
      ["", " \t" ++ ";" ++ " the function"] (by
        rintro line (_ | ⟨_, _ | ⟨_, ⟨⟩⟩⟩)
        · exact .blank (by simp [AreBlanks])
        · exact .comment (by simp [AreBlanks]) (by simp)) (by simp)
  exact .tail (.tail (.single indented) commented) spaced

theorem parse_of_relaid_looseText :
    (lex 0 tightText).complaints = [] ∧ Relation.ReflTransGen Relaid tightText looseText ∧
      (parse 0 looseText).mapError messages = .ok
        { globals := [{ name := "g", value := 7 }]
          funcs := [{ name := "f"
                      blocks := [{ label := "fEntry"
                                   body := [{ opcode := .ret, args := [.const 0] }] }] }] } := by
  have clean : (lex 0 tightText).complaints = [] := by decide +kernel
  refine ⟨clean, relaid_looseText, ?_⟩
  rw [(parse_of_relaid 0 clean relaid_looseText).2]
  decide +kernel

end RiscBackend.Source
