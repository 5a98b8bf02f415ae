/-
# The tokens of the canonical text

Every line of the canonical text spells the tokens that the parser expects. Names, numbers
and words are followed by a blank, a comma, a bracket or the end of the line, so none of
them runs into what follows.
-/

import Mathlib.Data.List.TakeWhile
import RiscBackend.Proofs.Source.Canonical
import RiscBackend.Proofs.Text.Decimal

namespace RiscBackend.Source

open IR (Operand Opcode Instruction Block Func Global)

variable {cs : List Char} {tags : List Tag}

theorem delimited_nil : Delimited [] := by
  rintro _ ⟨⟩

theorem delimited_cons {c : Char} (ends : isNameChar c = false) : Delimited (c :: cs) := by
  rintro _ ⟨⟩
  exact ends

theorem delimited_gap : Delimited (' ' :: cs) := delimited_cons (by decide)

/-- A word by itself. -/
def IsWord (word : String) : Prop :=
  ∃ c run, word.toList = c :: run ∧ isWordStart c = true ∧ ∀ x ∈ run, isWordChar x = true

theorem isWord_of_all {word : String} {c : Char} {run : List Char} (chars : word.toList = c :: run)
    (starts : isWordStart c = true) (continues : run.all isWordChar = true) : IsWord word :=
  ⟨c, run, chars, starts, List.all_eq_true.mp continues⟩

/-- A number by itself. -/
def IsNumber (digits : String) : Prop :=
  ∃ c run, digits.toList = c :: run ∧ StartsNumber c run ∧ ∀ x ∈ run, Text.isDigit x = true

theorem spells_word {word : String} {kind : TokenKind} (isWord : IsWord word)
    (kind_eq : TokenKind.ofWord word = kind) (delimited : Delimited cs) (later : Spells cs tags) :
    Spells (word.toList ++ cs) ((kind, word) :: tags) := by
  subst kind_eq
  obtain ⟨c, run, toList_eq, starts, continues⟩ := isWord
  obtain rfl : word = .ofList (c :: run) := by rw [← toList_eq, String.ofList_toList]
  rw [toList_eq]
  exact .word starts continues delimited later

theorem spells_number {digits : String} (isNumber : IsNumber digits) (delimited : Delimited cs)
    (later : Spells cs tags) : Spells (digits.toList ++ cs) ((.number, digits) :: tags) := by
  obtain ⟨c, run, toList_eq, starts, continues⟩ := isNumber
  obtain rfl : digits = .ofList (c :: run) := by rw [← toList_eq, String.ofList_toList]
  rw [toList_eq]
  exact .number starts continues delimited later

/-- A token that stands alone is cut off as a whole. -/
theorem exists_cut_of_isToken {kind : TokenKind} {text : String} (isToken : IsToken kind text) :
    ∃ c rest, text.toList = c :: rest ∧
      Lexeme.cut c rest = (.plain kind text (c :: rest), []) := by
  rw [IsToken] at isToken
  cases chars : text.toList with
  | nil =>
    rw [chars, lexemes] at isToken
    cases isToken
  | cons c rest =>
    rw [chars, lexemes] at isToken
    obtain ⟨first_eq, later_eq⟩ := List.cons.inj isToken
    refine ⟨c, rest, rfl, Prod.ext first_eq ?_⟩
    cases left : (Lexeme.cut c rest).2 with
    | nil => rfl
    | cons d more =>
      rw [left, lexemes] at later_eq
      cases later_eq

theorem exists_form_cutName (kind : TokenKind) (sigil : Char) (rest : List Char) :
    ∃ text fault, (Lexeme.cutName kind sigil rest).1.form = .token kind text fault := by
  unfold Lexeme.cutName
  split
  · dsimp only
    split
    · exact ⟨_, _, rfl⟩
    · exact ⟨_, _, rfl⟩
  · exact ⟨_, _, rfl⟩

/-- An identifier or a number that stands alone is a word or a run of digits. -/
theorem word_or_number_of_isToken {kind : TokenKind} {text : String} (isToken : IsToken kind text)
    (isKind : kind = .ident ∨ kind = .number) :
    IsWord text ∧ TokenKind.ofWord text = kind ∨ IsNumber text ∧ kind = .number := by
  obtain ⟨c, rest, chars, cut_eq⟩ := exists_cut_of_isToken isToken
  have notName {nameKind : TokenKind} (other : nameKind ≠ .ident ∧ nameKind ≠ .number)
      (isCut : Lexeme.cutName nameKind c rest = (.plain kind text (c :: rest), [])) : False := by
    obtain ⟨text', fault, form_eq⟩ := exists_form_cutName nameKind c rest
    rw [isCut] at form_eq
    obtain ⟨rfl, -, -⟩ := LexemeForm.token.inj form_eq
    exact isKind.elim other.1 other.2
  unfold Lexeme.cut at cut_eq
  split at cut_eq
  · cases congrArg (fun out => out.1.form) cut_eq
  split at cut_eq
  · cases congrArg (fun out => out.1.form) cut_eq
  split at cut_eq
  · rename_i starts
    obtain ⟨lexeme_eq, left_eq⟩ := Prod.mk.inj cut_eq
    obtain ⟨kind_eq, text_eq, -⟩ := LexemeForm.token.inj (congrArg Lexeme.form lexeme_eq)
    left
    refine ⟨⟨c, rest, chars, starts, List.dropWhile_eq_nil_iff.mp left_eq⟩, ?_⟩
    rw [← text_eq, kind_eq]
  split at cut_eq
  · rename_i notWord starts
    obtain ⟨lexeme_eq, left_eq⟩ := Prod.mk.inj cut_eq
    obtain ⟨kind_eq, -, -⟩ := LexemeForm.token.inj (congrArg Lexeme.form lexeme_eq)
    right
    refine ⟨⟨c, rest, chars, ⟨by simpa using notWord, by simpa using starts⟩,
      List.dropWhile_eq_nil_iff.mp left_eq⟩, kind_eq.symm⟩
  split at cut_eq
  · exact (notName (by simp) cut_eq).elim
  split at cut_eq
  · exact (notName (by simp) cut_eq).elim
  split at cut_eq
  · rename_i isMark
    obtain ⟨kind_eq, -, -⟩ := LexemeForm.token.inj (congrArg (fun out => out.1.form) cut_eq)
    subst kind_eq
    have other := kind_of_mark isMark
    exact (isKind.elim other.2.1 other.2.2).elim
  · cases congrArg (fun out => out.1.form) cut_eq

theorem spells_token {kind : TokenKind} {text : String} (isToken : IsToken kind text)
    (isKind : kind = .ident ∨ kind = .number) (delimited : Delimited cs) (later : Spells cs tags) :
    Spells (text.toList ++ cs) ((kind, text) :: tags) := by
  rcases word_or_number_of_isToken isToken isKind with ⟨isWord, kind_eq⟩ | ⟨isNumber, rfl⟩
  · exact spells_word isWord kind_eq delimited later
  · exact spells_number isNumber delimited later

/-- A name is read back from its text, bare or in quotes. -/
theorem spells_name (sigil : Sigil) {name : String} (quotable : Quotable name)
    (delimited : Delimited cs) (later : Spells cs tags) :
    Spells ((nameText sigil name).toList ++ cs) ((sigil.kind, name) :: tags) := by
  rw [nameText]
  split
  · rename_i isBare
    have nonempty : name.toList ≠ [] := by simpa using isBare.1
    have spells := Spells.bare sigil nonempty (List.all_eq_true.mp isBare.2) delimited later
    rw [String.ofList_toList] at spells
    simpa using spells
  · have inQuotes : ∀ c ∈ name.toList, Lexeme.isQuotedChar c = true := by
      intro c isChar
      have notQuote : c ≠ '"' := fun same => quotable.1 (same ▸ isChar)
      have notBreak : c ≠ '\n' := fun same => quotable.2 (same ▸ isChar)
      simp [Lexeme.isQuotedChar, notQuote, notBreak]
    have spells := Spells.quoted sigil inQuotes later
    rw [String.ofList_toList] at spells
    simpa using spells

theorem isWordStart_of_isDigit {c : Char} (isDigit : c.isDigit = true) : isWordStart c = false := by
  have bounds : 48 ≤ c.toNat ∧ c.toNat ≤ 57 := by
    simpa [Char.isDigit, UInt32.le_iff_toNat_le] using isDigit
  have alpha_eq : c.isAlpha = (decide (c.val ≥ 'A'.val ∧ c.val ≤ 'Z'.val) ||
      decide (c.val ≥ 'a'.val) && decide (c.val ≤ 'z'.val)) := rfl
  have notAlpha : c.isAlpha = false := by
    simp [alpha_eq, UInt32.le_iff_toNat_le]
    omega
  have notUnderscore : c ≠ '_' := by
    rintro rfl
    cases isDigit
  have ascii : ¬ 0x80 ≤ c.toNat := by omega
  simp [isWordStart, Text.isLetter, notAlpha, notUnderscore, ascii]

theorem isDigit_of_mem_toDigits {k : Nat} : ∀ c ∈ Nat.toDigits 10 k, Text.isDigit c = true := by
  intro c inDigits
  rw [Text.isDigit, Text.isDigit_of_mem_toDigits inDigits, Bool.true_or]

/-- The decimal digits of an integer are a number. -/
theorem isNumber_toString (n : Int) : IsNumber (toString n) := by
  cases n with
  | ofNat k =>
    obtain ⟨c, run, digits_eq⟩ :=
      List.exists_cons_of_ne_nil (Nat.toDigits_ne_nil (n := k) (b := 10))
    have isDigit : c.isDigit = true :=
      Text.isDigit_of_mem_toDigits (k := k) (digits_eq ▸ List.mem_cons_self)
    have digits := isDigit_of_mem_toDigits (k := k)
    rw [digits_eq, List.forall_mem_cons] at digits
    refine ⟨c, run, ?_, ⟨isWordStart_of_isDigit isDigit, .inl digits.1⟩, digits.2⟩
    rw [Text.toList_toString_ofNat, digits_eq]
  | negSucc k =>
    refine ⟨'-', _, Text.toList_toString_negSucc k, ⟨by decide, .inr ⟨rfl, ?_⟩⟩,
      isDigit_of_mem_toDigits⟩
    obtain ⟨c, run, digits_eq⟩ :=
      List.exists_cons_of_ne_nil (Nat.toDigits_ne_nil (n := k + 1) (b := 10))
    rw [digits_eq]
    exact isDigit_of_mem_toDigits (k := k + 1) c (digits_eq ▸ List.mem_cons_self)

/-- An operand that can be written. -/
structure Writable (arg : Operand) : Prop where
  filled : arg ≠ .hole
  quotable : ∀ name, arg.name? = some name → Quotable name

/-- An operand is read back from its text. -/
theorem spells_operand (sigil : Sigil) {arg : Operand} (writable : Writable arg)
    (delimited : Delimited cs) (later : Spells cs tags) :
    Spells ((operandText sigil arg).toList ++ cs) (operandTag sigil arg :: tags) := by
  cases arg with
  | const value => exact spells_number (isNumber_toString _) delimited later
  | name name => exact spells_name sigil (writable.quotable name rfl) delimited later
  | hole => exact absurd rfl writable.filled

theorem isWord_i32 : IsWord "i32" :=
  isWord_of_all (show _ = ['i', '3', '2'] from rfl) (by decide) (by decide)

theorem ofWord_i32 : TokenKind.ofWord "i32" = .i32 := by decide

theorem spells_i32 (later : Spells cs tags) :
    Spells (" i32 ".toList ++ cs) ((.i32, "i32") :: tags) := by
  have spells := spells_word isWord_i32 ofWord_i32 delimited_gap (.gap later)
  exact .gap spells

theorem delimited_comma : Delimited (", ".toList ++ cs) :=
  delimited_cons (show isNameChar ',' = false by decide)

theorem spells_comma (later : Spells cs tags) : Spells (", ".toList ++ cs) ((.comma, "") :: tags) :=
  .mark rfl (.gap later)

theorem delimited_pointer : Delimited (", i32* ".toList ++ cs) :=
  delimited_cons (show isNameChar ',' = false by decide)

theorem spells_pointer (later : Spells cs tags) :
    Spells (", i32* ".toList ++ cs) ((.comma, "") :: (.i32, "i32") :: (.star, "") :: tags) := by
  have delimited : Delimited ('*' :: ' ' :: cs) := delimited_cons (by decide)
  have spells := spells_word isWord_i32 ofWord_i32 delimited (.mark rfl (.gap later))
  exact .mark rfl (.gap spells)

section Instruction

variable (spelling : Spelling) {i : Instruction}

theorem delimited_args (i : Instruction) : Delimited (argsText spelling i).toList := by
  have blank : isNameChar ' ' = false := by decide
  unfold argsText
  split <;> simp [Delimited, blank]

theorem spells_args (wellFormed : i.WellFormed) (writable : ∀ arg ∈ i.args, Writable arg) :
    Spells (argsText spelling i).toList (argsTags spelling i) := by
  cases wellFormed with
  | ret =>
    have isVoid : IsWord "void" :=
      isWord_of_all (show _ = ['v', 'o', 'i', 'd'] from rfl) (by decide) (by decide)
    have void_eq : TokenKind.ofWord "void" = .void := by decide
    have spells := Spells.gap (spells_word isVoid void_eq delimited_nil .nil)
    simpa [argsText, argsTags] using spells
  | retValue value =>
    have writable' := writable value List.mem_cons_self
    have spells := spells_i32 (spells_operand (spelling.sigil 0) writable' delimited_nil .nil)
    simpa [argsText, argsTags] using spells
  | arith op name a b =>
    have writable' := writable a (by simp [IR.Instruction.binary])
    have writable'' := writable b (by simp [IR.Instruction.binary])
    have spells := spells_i32 (spells_operand (spelling.sigil 0) writable' delimited_comma
      (spells_comma (spells_operand (spelling.sigil 1) writable'' delimited_nil .nil)))
    simpa [argsText, argsTags, IR.Instruction.binary] using spells
  | alloca name =>
    have spells := Spells.gap (spells_word isWord_i32 ofWord_i32 delimited_nil .nil)
    simpa [argsText, argsTags, IR.Instruction.alloca] using spells
  | load name source =>
    have writable' := writable (.name source) (by simp [IR.Instruction.load])
    have spells := Spells.gap (spells_word isWord_i32 ofWord_i32 delimited_pointer
      (spells_pointer (spells_operand (spelling.sigil 0) writable' delimited_nil .nil)))
    simpa [argsText, argsTags, IR.Instruction.load] using spells
  | store value target =>
    have writable' := writable value (by simp [IR.Instruction.store])
    have writable'' := writable (.name target) (by simp [IR.Instruction.store])
    have spells := spells_i32 (spells_operand (spelling.sigil 0) writable' delimited_pointer
      (spells_pointer (spells_operand (spelling.sigil 1) writable'' delimited_nil .nil)))
    simpa [argsText, argsTags, IR.Instruction.store] using spells
  | other result args => exact .nil

theorem isToken_name : ∀ opcode ∈ Opcode.listed, IsToken .ident opcode.name := by
  decide +kernel

theorem isToken_operation (wellFormed : i.WellFormed) :
    IsToken .ident (operationText spelling i.opcode) := by
  cases wellFormed with
  | ret => exact isToken_name .ret (by decide)
  | retValue => exact isToken_name .ret (by decide)
  | arith op => cases op <;> exact isToken_name (.arith _) (by decide)
  | alloca => exact isToken_name .alloca (by decide)
  | load => exact isToken_name .load (by decide)
  | store => exact isToken_name .store (by decide)
  | other => exact spelling.isToken

theorem spells_result {result : Option String} (quotable : ∀ name ∈ result, Quotable name)
    (later : Spells cs tags) :
    Spells ((resultText result).toList ++ cs) (resultTags result ++ tags) := by
  cases result with
  | none => exact later
  | some name =>
    have equals : TokenKind.ofMark? '=' = some .equals := rfl
    have spells := spells_name .ofLocal (quotable name rfl) delimited_gap
      (.gap (.mark equals (.gap later)))
    simpa [resultText, resultTags, Sigil.kind] using spells

/-- The line of an instruction spells its tokens. -/
theorem spells_instruction (checked : i.check = .ok ())
    (quotable : ∀ name ∈ i.names, Quotable name) :
    Spells (instructionText spelling i).toList (instructionTags spelling i) := by
  have wellFormed := IR.Instruction.wellFormed_of_check checked
  have writable : ∀ arg ∈ i.args, Writable arg := by
    intro arg isArg
    refine ⟨fun isHole => IR.Instruction.hole_not_mem_of_check checked (isHole ▸ isArg), ?_⟩
    intro name isName
    exact quotable name (List.mem_append_right _ (List.mem_filterMap.mpr ⟨arg, isArg, isName⟩))
  have inResult : ∀ name ∈ i.result, Quotable name := fun name isResult =>
    quotable name (List.mem_append_left _ (Option.mem_toList.mpr isResult))
  have operation := spells_token (isToken_operation spelling wellFormed) (.inl rfl)
    (delimited_args spelling i) (spells_args spelling wellFormed writable)
  have spells := Spells.gap (.gap (spells_result inResult operation))
  simpa [instructionText, instructionTags] using spells

end Instruction

/-- The line of a label spells the label and a colon. -/
theorem spells_label {kind : TokenKind} {label : String} (isToken : IsToken kind label)
    (isKind : kind = .ident ∨ kind = .number) :
    Spells (label ++ ":").toList [(kind, label), (.colon, "")] := by
  have delimited : Delimited [':'] := delimited_cons (by decide)
  have colon : TokenKind.ofMark? ':' = some .colon := rfl
  have spells := spells_token isToken isKind delimited (.mark colon .nil)
  simpa using spells

theorem spells_header {name : String} (quotable : Quotable name) :
    Spells ("define i32 " ++ nameText .ofGlobal name ++ "() \x7b").toList (headerTags name) := by
  have isDefine : IsWord "define" :=
    isWord_of_all (show _ = ['d', 'e', 'f', 'i', 'n', 'e'] from rfl) (by decide) (by decide)
  have define_eq : TokenKind.ofWord "define" = .define := by decide
  have brackets : Spells ['(', ')', ' ', '\x7b']
      [(.leftParen, ""), (.rightParen, ""), (.leftBrace, "")] :=
    .mark rfl (.mark rfl (.gap (.mark rfl .nil)))
  have delimited : Delimited ['(', ')', ' ', '\x7b'] := delimited_cons (by decide)
  have spells := spells_word isDefine define_eq delimited_gap
    (.gap (spells_word isWord_i32 ofWord_i32 delimited_gap
      (.gap (spells_name .ofGlobal quotable delimited brackets))))
  simpa [headerTags, Sigil.kind] using spells

theorem spells_close : Spells "\x7d".toList [(.rightBrace, "")] :=
  .mark rfl .nil

theorem spells_global {g : Global} (quotable : Quotable g.name) :
    Spells (globalText g).toList (globalTags g) := by
  have isGlobal : IsWord "global" :=
    isWord_of_all (show _ = ['g', 'l', 'o', 'b', 'a', 'l'] from rfl) (by decide) (by decide)
  have global_eq : TokenKind.ofWord "global" = .global := by decide
  have value := spells_number (isNumber_toString g.value.toInt) delimited_nil .nil
  have definition := spells_word isGlobal global_eq delimited_gap
    (.gap (spells_word isWord_i32 ofWord_i32 delimited_gap (.gap value)))
  have equals : TokenKind.ofMark? '=' = some .equals := rfl
  have spells := spells_name .ofGlobal quotable delimited_gap
    (.gap (.mark equals (.gap definition)))
  simpa [globalText, globalTags, Sigil.kind] using spells

end RiscBackend.Source
