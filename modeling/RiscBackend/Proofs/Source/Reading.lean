/-
# What parsers read

A parser reads tokens off the front of a stream. `Reads` says what it makes of them and
what it leaves, when it has nothing to complain about; the token that was read last does
not matter. There is one rule per parser of the grammar, so a proof that a line is read
follows the text of its parser.
-/

import RiscBackend.Proofs.Source.Canonical
import RiscBackend.Proofs.Text.Decimal
import RiscBackend.Source.Grammar

namespace RiscBackend.Source

open IR (Operand Opcode Instruction Block Func Global)

namespace Parser

variable {α β : Type} {final t : Token} {tokens left mid rest row later : List Token}
  {test : Token → Bool} {line : Int}

/-- A parser reads tokens, gives a value and leaves the other tokens. -/
def Reads (p : Parser α) (final : Token) (tokens : List Token) (a : α) (left : List Token) :
    Prop :=
  ∀ previous complaints, ∃ previous',
    p.run final { previous, rest := tokens, complaints } =
      (a, { previous := previous', rest := left, complaints })

theorem reads_pure (a : α) : Reads (pure a) final tokens a tokens :=
  fun previous _ => ⟨previous, rfl⟩

theorem Reads.bind {p : Parser α} {next : α → Parser β} {a : α} {b : β}
    (first : Reads p final tokens a mid) (second : Reads (next a) final mid b left) :
    Reads (p >>= next) final tokens b left := by
  intro previous complaints
  obtain ⟨previous', first_eq⟩ := first previous complaints
  obtain ⟨previous'', second_eq⟩ := second previous' complaints
  refine ⟨previous'', ?_⟩
  show (next (p.run final _).1).run final (p.run final _).2 = _
  rw [first_eq, second_eq]

theorem reads_current : Reads current final tokens (tokens.headD final) tokens :=
  fun previous _ => ⟨previous, rfl⟩

theorem reads_advance : Reads advance final (t :: rest) () rest :=
  fun _ _ => ⟨t, rfl⟩

theorem reads_skipWhile_stop (stops : test t = false) :
    Reads (skipWhile test) final (t :: rest) () (t :: rest) := by
  intro previous complaints
  refine ⟨previous, ?_⟩
  show ((), Stream.mk (dropTokens test previous (t :: rest)).1
    (dropTokens test previous (t :: rest)).2 complaints) = _
  rw [dropTokens, if_neg (by simp [stops])]

theorem reads_skipWhile_cons (passes : test t = true)
    (more : Reads (skipWhile test) final rest () left) :
    Reads (skipWhile test) final (t :: rest) () left := by
  intro previous complaints
  obtain ⟨previous', more_eq⟩ := more t complaints
  refine ⟨previous', ?_⟩
  show ((), Stream.mk (dropTokens test previous (t :: rest)).1
    (dropTokens test previous (t :: rest)).2 complaints) = _
  rw [dropTokens, if_pos passes]
  exact more_eq

/-- Tokens are skipped up to the first that does not satisfy the test. -/
theorem reads_skipWhile_append (skipped : ∀ t ∈ row, test t = true)
    (stops : ∀ t ∈ rest, test t = false) : Reads (skipWhile test) final (row ++ rest) () rest := by
  induction row with
  | nil =>
    cases rest with
    | nil => exact fun previous _ => ⟨previous, rfl⟩
    | cons t rest => exact reads_skipWhile_stop (stops t List.mem_cons_self)
  | cons t row ih =>
    obtain ⟨passes, skipped⟩ := List.forall_mem_cons.mp skipped
    exact reads_skipWhile_cons passes (ih skipped)

theorem reads_accept {test : TokenKind → Bool} (accepted : test t.kind = true) :
    Reads (accept test) final (t :: rest) true rest := by
  refine reads_current.bind ?_
  rw [List.headD_cons, if_pos accepted]
  exact reads_advance.bind (reads_pure true)

theorem reads_accept_none {test : TokenKind → Bool} (refused : test t.kind = false) :
    Reads (accept test) final (t :: rest) false (t :: rest) := by
  refine reads_current.bind ?_
  rw [List.headD_cons, if_neg (by simp [refused])]
  exact reads_pure false

theorem reads_require {what : Requirement} (kind_eq : t.kind = what.kind) :
    Reads (require what) final (t :: rest) true rest := by
  refine reads_current.bind ?_
  rw [List.headD_cons, if_pos kind_eq]
  exact reads_advance.bind (reads_pure true)

theorem reads_onLine (kind_ne : t.kind ≠ .endOfFile) (line_eq : t.line = line) :
    Reads (onLine line) final (t :: rest) true (t :: rest) := by
  have isOn : (t.kind != .endOfFile && decide (t.line = line)) = true := by
    simp [kind_ne, line_eq]
  have reads : Reads (onLine line) final (t :: rest)
      (t.kind != .endOfFile && decide (t.line = line)) (t :: rest) :=
    reads_current.bind (reads_pure _)
  rwa [isOn] at reads

/-- Tokens on lines below a line. -/
def Below (line : Int) (tokens : List Token) : Prop :=
  ∀ t ∈ tokens, line < t.line

/-- What remains on a line is passed over. -/
theorem reads_skipLine (onLine : ∀ t ∈ row, t.line = line) (below : Below line later) :
    Reads (skipLine line) final (row ++ later) () later := by
  apply reads_skipWhile_append
  · simpa using onLine
  · intro t isBelow
    have lower := below t isBelow
    simp only [decide_eq_false_iff_not]
    omega

section Each

variable {stop : Token → Bool} {item : Token → Parser α}

theorem reads_each_nil : Reads (each stop item) final [] [] [] := by
  intro previous complaints
  refine ⟨previous, ?_⟩
  rw [run, each]

theorem reads_each_stop (stops : stop t = true) :
    Reads (each stop item) final (t :: rest) [] (t :: rest) := by
  intro previous complaints
  refine ⟨previous, ?_⟩
  rw [run, each]
  dsimp only
  rw [if_pos stops]

theorem reads_each_cons {a : α} {as : List α} (goesOn : stop t = false)
    (first : Reads (item t) final rest a mid) (more : Reads (each stop item) final mid as left) :
    Reads (each stop item) final (t :: rest) (a :: as) left := by
  intro previous complaints
  obtain ⟨previous', first_eq⟩ := first t complaints
  obtain ⟨previous'', more_eq⟩ := more previous' complaints
  refine ⟨previous'', ?_⟩
  rw [run, each]
  dsimp only
  rw [if_neg (by simp [goesOn])]
  show (((item t).run final _).1 :: ((each stop item).run final ((item t).run final _).2).1,
    ((each stop item).run final ((item t).run final _).2).2) = _
  rw [first_eq, more_eq]

end Each

/-- A word is read as it was written. -/
theorem reads_word {value : Int32} (text_eq : t.text = toString value.toInt) :
    Reads (word t) final tokens (some value) tokens := by
  have lower := value.le_toInt
  have upper := value.toInt_lt
  rw [word, text_eq, Text.readInt_toString]
  dsimp only
  rw [if_pos (by simp; omega), Int32.ofInt_toInt]
  exact reads_pure (some value)

theorem reads_operand {sigil : Sigil} {arg : Operand} (filled : arg ≠ .hole)
    (is : t.Is line (operandTag sigil arg)) :
    Reads (operand line) final (t :: rest) (some arg) rest := by
  have kind_ne : t.kind ≠ .endOfFile := by
    rw [is.kind_eq]
    cases arg with
    | const => simp [operandTag]
    | name => cases sigil <;> simp [operandTag, Sigil.kind]
    | hole => exact absurd rfl filled
  refine (reads_onLine kind_ne is.line_eq).bind ?_
  rw [if_neg (by decide)]
  refine reads_current.bind ?_
  rw [List.headD_cons, is.kind_eq]
  cases arg with
  | const value =>
    refine (reads_word is.text_eq).bind ?_
    exact reads_advance.bind (reads_pure _)
  | name name =>
    rw [← show t.text = name from is.text_eq]
    cases sigil with
    | ofGlobal => exact reads_advance.bind (reads_pure _)
    | ofLocal => exact reads_advance.bind (reads_pure _)
  | hole => exact absurd rfl filled

/-- A token that is read over as a part of a type. -/
def isType (t : Token) : Bool :=
  t.kind.isValueType || t.kind = .star

theorem isType_eq {tag : Tag} (is : t.Is line tag) :
    isType t = (tag.1.isValueType || tag.1 = .star) := by
  rw [isType, is.kind_eq]

theorem isType_operand {sigil : Sigil} {arg : Operand} (filled : arg ≠ .hole)
    (is : t.Is line (operandTag sigil arg)) : isType t = false := by
  rw [isType_eq is]
  cases arg with
  | const => rfl
  | name => cases sigil <;> rfl
  | hole => exact absurd rfl filled

theorem reads_i32Operand {sigil : Sigil} {arg : Operand} {type : Token} (filled : arg ≠ .hole)
    (isI32 : type.Is line (.i32, "i32")) (is : t.Is line (operandTag sigil arg)) :
    Reads (typedOperand line) final (type :: t :: rest) (some arg) rest := by
  have skips : Reads skipTypes final (type :: t :: rest) () (t :: rest) :=
    reads_skipWhile_cons (isType_eq isI32) (reads_skipWhile_stop (isType_operand filled is))
  exact skips.bind (reads_operand filled is)

theorem reads_pointerOperand {sigil : Sigil} {arg : Operand} {type star : Token}
    (filled : arg ≠ .hole) (isI32 : type.Is line (.i32, "i32")) (isStar : star.Is line (.star, ""))
    (is : t.Is line (operandTag sigil arg)) :
    Reads (typedOperand line) final (type :: star :: t :: rest) (some arg) rest := by
  have skips : Reads skipTypes final (type :: star :: t :: rest) () (t :: rest) :=
    reads_skipWhile_cons (isType_eq isI32) (reads_skipWhile_cons (isType_eq isStar)
      (reads_skipWhile_stop (isType_operand filled is)))
  exact skips.bind (reads_operand filled is)

theorem reads_operandPair {first second : Parser (Option Operand)} {comma : Requirement}
    {a b : Operand} (isComma : t.kind = comma.kind)
    (readsFirst : Reads first final tokens (some a) (t :: rest))
    (readsSecond : Reads second final rest (some b) left) :
    Reads (operandPair first second comma) final tokens (some [a, b]) left := by
  refine readsFirst.bind ?_
  refine (reads_require isComma).bind ?_
  rw [if_neg (by decide)]
  exact readsSecond.bind (reads_pure _)

/-- The operands of an instruction are read, and what is left is on its line. -/
theorem reads_operands {spelling : Spelling} {i : Instruction} (wellFormed : i.WellFormed)
    (filled : .hole ∉ i.args) (others : i.opcode = .other → i.args = [])
    (spelled : List.Forall₂ (Token.Is line) (argsTags spelling i) row) :
    ∃ unread, (∀ t ∈ unread, t.line = line) ∧
      Reads (operands line i.opcode) final (row ++ later) (some i.args) (unread ++ later) := by
  cases wellFormed with
  | ret =>
    obtain _ | ⟨isVoid, _ | _⟩ := spelled
    refine ⟨[], by simp, ?_⟩
    refine (reads_accept (by simp [isVoid.kind_eq])).bind ?_
    exact reads_pure _
  | retValue value =>
    obtain _ | ⟨isI32, _ | ⟨isValue, _ | _⟩⟩ := spelled
    have filled' : value ≠ .hole := by simpa [eq_comm] using filled
    refine ⟨[], by simp, ?_⟩
    refine (reads_accept_none (by simp [isI32.kind_eq])).bind ?_
    exact (reads_i32Operand filled' isI32 isValue).bind (reads_pure _)
  | arith op name a b =>
    obtain _ | ⟨isI32, _ | ⟨isFirst, _ | ⟨isComma, _ | ⟨isSecond, _ | _⟩⟩⟩⟩ := spelled
    obtain ⟨filled', filled''⟩ : a ≠ .hole ∧ b ≠ .hole := by
      simpa [IR.Instruction.binary, eq_comm] using filled
    refine ⟨[], by simp, ?_⟩
    refine (reads_skipWhile_stop (by simp [isI32.kind_eq])).bind ?_
    exact reads_operandPair isComma.kind_eq (reads_i32Operand filled' isI32 isFirst)
      (reads_operand filled'' isSecond)
  | alloca name =>
    -- the type of a declaration is not an operand, it is left for the end of the line
    obtain _ | ⟨isI32, _ | _⟩ := spelled
    refine ⟨[_], ?_, reads_pure _⟩
    simpa using isI32.line_eq
  | load name source =>
    obtain _ | ⟨isI32, _ | ⟨isComma, _ | ⟨isI32', _ | ⟨isStar, _ | ⟨isSource, _ | _⟩⟩⟩⟩⟩ :=
      spelled
    refine ⟨[], by simp, ?_⟩
    refine (reads_skipWhile_cons (isType_eq isI32)
      (reads_skipWhile_stop (isType_eq isComma))).bind ?_
    refine (reads_require isComma.kind_eq).bind ?_
    rw [if_neg (by decide)]
    exact (reads_pointerOperand (by simp) isI32' isStar isSource).bind (reads_pure _)
  | store value target =>
    obtain _ | ⟨isI32, _ | ⟨isValue, _ | ⟨isComma, _ | ⟨isI32', _ | ⟨isStar, _ |
      ⟨isTarget, _ | _⟩⟩⟩⟩⟩⟩ := spelled
    have filled' : value ≠ .hole := by simpa [IR.Instruction.store, eq_comm] using filled
    refine ⟨[], by simp, ?_⟩
    exact reads_operandPair isComma.kind_eq (reads_i32Operand filled' isI32 isValue)
      (reads_pointerOperand (by simp) isI32' isStar isTarget)
  | other result args =>
    obtain rfl : args = [] := others rfl
    obtain _ | _ := spelled
    exact ⟨[], by simp, reads_pure _⟩

/-- An operation is read back from its name. -/
theorem ofName_operationText (spelling : Spelling) {i : Instruction} (wellFormed : i.WellFormed) :
    Opcode.ofName (operationText spelling i.opcode) = i.opcode := by
  cases wellFormed with
  | arith op => cases op <;> rfl
  | other => exact spelling.unknown
  | ret => rfl
  | retValue => rfl
  | alloca => rfl
  | load => rfl
  | store => rfl

section Instruction

variable {spelling : Spelling} {i : Instruction}

theorem reads_operation (checked : i.check = .ok ()) (others : i.opcode = .other → i.args = [])
    (is : t.Is line (.ident, operationText spelling i.opcode))
    (spelled : List.Forall₂ (Token.Is line) (argsTags spelling i) row) :
    ∃ unread, (∀ t ∈ unread, t.line = line) ∧
      Reads (operation line i.result t) final (row ++ later) (some i) (unread ++ later) := by
  have wellFormed := IR.Instruction.wellFormed_of_check checked
  obtain ⟨unread, onLine, reads⟩ :=
    reads_operands wellFormed (IR.Instruction.hole_not_mem_of_check checked) others spelled
  have opcode_eq : Opcode.ofName t.text = i.opcode := by
    rw [is.text_eq]
    exact ofName_operationText spelling wellFormed
  refine ⟨unread, onLine, ?_⟩
  rw [operation, opcode_eq]
  refine reads.bind ?_
  dsimp only
  rw [checked]
  exact reads_pure _

theorem reads_instructionParts {start : Token} (checked : i.check = .ok ())
    (others : i.opcode = .other → i.args = [])
    (spelled : List.Forall₂ (Token.Is line) (instructionTags spelling i) (start :: row)) :
    ∃ unread, (∀ t ∈ unread, t.line = line) ∧
      Reads (instructionParts start) final (row ++ later) (some i) (unread ++ later) := by
  rw [instructionTags] at spelled
  cases hasResult : i.result with
  | none =>
    rw [hasResult] at spelled
    obtain _ | ⟨isOperation, isArgs⟩ := spelled
    obtain ⟨unread, onLine, reads⟩ := reads_operation checked others isOperation isArgs
    refine ⟨unread, onLine, ?_⟩
    rw [instructionParts, isOperation.kind_eq, isOperation.line_eq]
    rwa [hasResult] at reads
  | some name =>
    rw [hasResult] at spelled
    obtain _ | ⟨isResult, _ | ⟨isEquals, _ | ⟨isOperation, isArgs⟩⟩⟩ := spelled
    obtain ⟨unread, onLine, reads⟩ := reads_operation checked others isOperation isArgs
    refine ⟨unread, onLine, ?_⟩
    rw [instructionParts, isResult.kind_eq, isResult.line_eq, isResult.text_eq,
      List.cons_append, List.cons_append]
    refine (reads_require isEquals.kind_eq).bind ?_
    rw [if_neg (by decide)]
    refine reads_current.bind ?_
    rw [List.headD_cons, if_pos isOperation.kind_eq]
    rw [hasResult] at reads
    exact reads_advance.bind reads

/-- An instruction is read with its whole line. -/
theorem reads_instruction {start : Token} (checked : i.check = .ok ())
    (others : i.opcode = .other → i.args = [])
    (spelled : List.Forall₂ (Token.Is line) (instructionTags spelling i) (start :: row))
    (below : Below line later) :
    Reads (instruction start) final (row ++ later) (some i) later := by
  obtain ⟨unread, onLine, reads⟩ := reads_instructionParts checked others spelled
  have start_line : start.line = line := by
    obtain ⟨tag, -, is, -, -⟩ := List.forall₂_cons_right_iff.mp spelled
    exact is.line_eq
  refine reads.bind ?_
  rw [start_line]
  exact (reads_skipLine onLine below).bind (reads_pure _)

end Instruction

/-- Tokens on a line are read as a line of a body, if what follows them is on the lines
below. -/
def ReadsLine (tags : List Tag) (item : BodyItem) : Prop :=
  ∀ (final : Token) (line : Int) (row later : List Token), final.kind = .endOfFile →
    List.Forall₂ (Token.Is line) tags row → Below line later →
      ∃ start rest, row = start :: rest ∧ start.kind ≠ .rightBrace ∧
        Reads (BodyItem.read start) final (rest ++ later) item later

theorem readsLine_label {kind : TokenKind} {label : String}
    (isLabel : kind = .ident ∨ kind = .number) :
    ReadsLine [(kind, label), (.colon, "")] (.label label) := by
  intro final line row later isFinal spelled below
  obtain _ | ⟨isStart, _ | ⟨isColon, _ | _⟩⟩ := spelled
  refine ⟨_, _, rfl, ?_, ?_⟩
  · rw [isStart.kind_eq]
    rintro rfl
    simp at isLabel
  · refine reads_current.bind ?_
    rw [if_pos]
    · rw [isStart.text_eq]
      exact reads_advance.bind (reads_pure _)
    · simp [isStart.kind_eq, isColon.kind_eq, isStart.line_eq, isColon.line_eq, isLabel]

theorem argsTags_head (spelling : Spelling) (i : Instruction) :
    ∀ tag ∈ (argsTags spelling i).head?, tag.1 ≠ .colon := by
  unfold argsTags
  split <;> simp

/-- The next token is no colon, or not on the same line. -/
theorem no_colon_follows {tags : List Tag} (isFinal : final.kind = .endOfFile)
    (spelled : List.Forall₂ (Token.Is line) tags row) (head : ∀ tag ∈ tags.head?, tag.1 ≠ .colon)
    (below : Below line later) :
    ((row ++ later).headD final).kind ≠ .colon ∨ ((row ++ later).headD final).line ≠ line := by
  cases spelled with
  | cons is _ =>
    left
    rw [List.cons_append, List.headD_cons, is.kind_eq]
    exact head _ rfl
  | nil =>
    -- nothing is left on the line: the next token is the end of the file or further down
    cases later with
    | nil =>
      left
      simp [isFinal]
    | cons t rest =>
      right
      have lower : line < t.line := below t List.mem_cons_self
      show t.line ≠ line
      omega

/-- A line that does not start like a label is read as an instruction. -/
theorem reads_notLabel {start : Token} {i : Option Instruction}
    (notLabel : start.kind = .localName ∨ (tokens.headD final).kind ≠ .colon ∨
      (tokens.headD final).line ≠ start.line)
    (reads : Reads (instruction start) final tokens i left) :
    Reads (BodyItem.read start) final tokens (.instruction i) left := by
  refine reads_current.bind ?_
  generalize tokens.headD final = next at notLabel
  rw [if_neg]
  · exact reads.bind (reads_pure _)
  · rcases notLabel with isName | notColon | elsewhere
    · simp [isName]
    · simp [notColon]
    · simp [elsewhere]

theorem readsLine_instruction {spelling : Spelling} {i : Instruction}
    (checked : i.check = .ok ()) (others : i.opcode = .other → i.args = []) :
    ReadsLine (instructionTags spelling i) (.instruction i) := by
  intro final line row later isFinal spelled below
  have shape := spelled
  rw [instructionTags] at shape
  cases hasResult : i.result with
  | none =>
    rw [hasResult] at shape
    obtain _ | ⟨isStart, isArgs⟩ := shape
    refine ⟨_, _, rfl, by simp [isStart.kind_eq], reads_notLabel (.inr ?_) ?_⟩
    · rw [isStart.line_eq]
      exact no_colon_follows isFinal isArgs (argsTags_head spelling i) below
    · exact reads_instruction checked others spelled below
  | some name =>
    rw [hasResult] at shape
    obtain _ | ⟨isStart, -⟩ := shape
    refine ⟨_, _, rfl, by simp [isStart.kind_eq], reads_notLabel (.inl isStart.kind_eq) ?_⟩
    exact reads_instruction checked others spelled below

/-- The tokens of rows are on the lines of these rows. -/
theorem below_of_rows {line first : Nat} {lines : List (List Tag)} (rows : Rows first lines tokens)
    (lower : line < first) : Below line tokens := by
  induction rows with
  | nil => simp [Below]
  | @cons first tags lines row later spelled _ ih =>
    intro t isToken
    rcases List.mem_append.mp isToken with isFirst | isLater
    · obtain ⟨tag, -, is⟩ := exists_tag_of_mem spelled isFirst
      rw [is.line_eq]
      exact_mod_cast lower
    · exact ih (Nat.lt_succ_of_lt lower) t isLater

/-- The lines of a body are read up to the closing brace. -/
theorem reads_body {line : Nat} {lines below : List (List Tag)} {items : List BodyItem}
    (isFinal : final.kind = .endOfFile) (reads : List.Forall₂ ReadsLine lines items)
    (rows : Rows line (lines ++ [(.rightBrace, "")] :: below) tokens) :
    ∃ close later, close.kind = .rightBrace ∧ Rows (line + lines.length + 1) below later ∧
      Reads (each (fun t => t.kind = .rightBrace) BodyItem.read) final tokens items
        (close :: later) := by
  induction reads generalizing line tokens with
  | nil =>
    obtain _ | ⟨spelled, rows⟩ := rows
    obtain _ | ⟨isClose, _ | _⟩ := spelled
    refine ⟨_, _, isClose.kind_eq, rows, ?_⟩
    apply reads_each_stop
    simp [isClose.kind_eq]
  | cons readsLine _ ih =>
    obtain _ | ⟨spelled, rows⟩ := rows
    obtain ⟨start, rest, rfl, notClose, readsFirst⟩ :=
      readsLine _ _ _ _ isFinal spelled (below_of_rows rows (Nat.lt_succ_self _))
    obtain ⟨close, later, isClose, rows', readsMore⟩ := ih rows
    refine ⟨close, later, isClose, ?_, ?_⟩
    · rw [List.length_cons]
      convert rows' using 1
      omega
    · exact reads_each_cons (by simp [notClose]) readsFirst readsMore

/-- Rows of tokens are read as one item of the top level, and the rows below are left. -/
def ReadsItem (lines : List (List Tag)) (item : IR.Module) : Prop :=
  ∀ (final : Token) (line : Nat) (below : List (List Tag)) (tokens : List Token),
    final.kind = .endOfFile → Rows line (lines ++ below) tokens →
      ∃ start rest later, tokens = start :: rest ∧ Rows (line + lines.length) below later ∧
        Reads (topItem start) final rest item later

theorem reads_func {start close : Token} {name : String} {items : List BodyItem}
    (spelled : List.Forall₂ (Token.Is line) (headerTags name) (start :: row))
    (readsBody : Reads (each (fun t => t.kind = .rightBrace) BodyItem.read) final later items
      (close :: left))
    (isEnd : close.kind = .rightBrace) :
    Reads (func start) final (row ++ later)
      (some { name, blocks := BodyItem.blocks name items }) left := by
  obtain _ | ⟨isDefine, _ | ⟨isI32, _ | ⟨isName, _ | ⟨isOpen, _ | ⟨isClose, _ |
    ⟨isBrace, _ | _⟩⟩⟩⟩⟩⟩ := spelled
  refine (reads_skipWhile_cons ?_ (reads_skipWhile_stop ?_)).bind ?_
  · simp [isI32.kind_eq, isI32.line_eq, isDefine.line_eq]
  · simp [isName.kind_eq]
  refine reads_current.bind ?_
  rw [List.headD_cons, isName.text_eq, if_neg (by simp [isName.kind_eq])]
  refine reads_advance.bind ?_
  refine (reads_skipWhile_cons ?_ (reads_skipWhile_cons ?_ (reads_skipWhile_stop ?_))).bind ?_
  · simp [isOpen.kind_eq]
  · simp [isClose.kind_eq]
  · simp [isBrace.kind_eq]
  refine (reads_require isBrace.kind_eq).bind ?_
  rw [if_neg (by decide)]
  exact readsBody.bind ((reads_require isEnd).bind (reads_pure _))

theorem readsItem_func {lines : List (List Tag)} {items : List BodyItem} (name : String)
    (reads : List.Forall₂ ReadsLine lines items) :
    ReadsItem (headerTags name :: (lines ++ [[(.rightBrace, "")]]))
      { funcs := [{ name, blocks := BodyItem.blocks name items }] } := by
  intro final line below tokens isFinal rows
  rw [List.cons_append, List.append_assoc, List.singleton_append] at rows
  obtain _ | ⟨spelled, rows⟩ := rows
  obtain ⟨close, later, isEnd, rows', readsBody⟩ := reads_body isFinal reads rows
  obtain ⟨start, row, isDefine, -, rfl⟩ := List.forall₂_cons_left_iff.mp spelled
  refine ⟨start, _, later, rfl, ?_, ?_⟩
  · convert rows' using 1
    rw [List.length_cons, List.length_append, List.length_singleton]
    omega
  · rw [topItem, isDefine.kind_eq]
    exact (reads_func spelled readsBody isEnd).bind (reads_pure _)

theorem reads_globalParts {start : Token} {g : Global}
    (spelled : List.Forall₂ (Token.Is line) (globalTags g) (start :: row)) :
    Reads (globalParts start) final (row ++ later) (some g) later := by
  obtain _ | ⟨isName, _ | ⟨isEquals, _ | ⟨isGlobal, _ | ⟨isI32, _ | ⟨isValue, _ | _⟩⟩⟩⟩⟩ :=
    spelled
  refine (reads_require isEquals.kind_eq).bind ?_
  rw [if_neg (by decide)]
  refine (reads_skipWhile_stop (by simp [isGlobal.kind_eq])).bind ?_
  refine (reads_accept (by simp [isGlobal.kind_eq])).bind ?_
  rw [if_neg (by decide)]
  refine (reads_skipWhile_cons (isType_eq isI32)
    (reads_skipWhile_stop (isType_eq isValue))).bind ?_
  refine reads_current.bind ?_
  rw [List.headD_cons, if_pos isValue.kind_eq, isName.text_eq]
  refine (reads_word isValue.text_eq).bind ?_
  exact reads_advance.bind (reads_pure _)

theorem readsItem_global (g : Global) : ReadsItem [globalTags g] { globals := [g] } := by
  intro final line below tokens isFinal rows
  rw [List.singleton_append] at rows
  obtain _ | @⟨_, _, _, _, later, spelled, rows⟩ := rows
  obtain ⟨start, row, isName, -, rfl⟩ := List.forall₂_cons_left_iff.mp spelled
  refine ⟨start, row ++ later, later, rfl, rows, ?_⟩
  have skips : Reads (skipLine start.line) final ([] ++ later) () later := by
    apply reads_skipLine (List.forall_mem_nil _)
    rw [isName.line_eq]
    exact below_of_rows rows (Nat.lt_succ_self line)
  rw [topItem, isName.kind_eq]
  exact (reads_globalParts spelled).bind (skips.bind (reads_pure _))

/-- Items are read one after the other. -/
theorem reads_items {line : Nat} {groups : List (List (List Tag))} {items : List IR.Module}
    (isFinal : final.kind = .endOfFile) (reads : List.Forall₂ ReadsItem groups items)
    (rows : Rows line groups.flatten tokens) :
    Reads (each (fun _ => false) topItem) final tokens items [] := by
  induction reads generalizing line tokens with
  | nil =>
    obtain _ | _ := rows
    exact reads_each_nil
  | cons readsItem _ ih =>
    rw [List.flatten_cons] at rows
    obtain ⟨start, rest, later, rfl, rows', readsFirst⟩ := readsItem _ _ _ _ isFinal rows
    exact reads_each_cons rfl readsFirst (ih rows')

end Parser

namespace BodyItem

/-- The lines of a block. -/
def ofBlock (b : Block) : List BodyItem :=
  .label b.label :: b.body.map fun i => .instruction (some i)

theorem split_instructions (body : List Instruction) (rest : List BodyItem) :
    split (body.map (fun i => .instruction (some i)) ++ rest) =
      (body ++ (split rest).1, (split rest).2) := by
  induction body with
  | nil => rfl
  | cons i body ih =>
    rw [List.map_cons, List.cons_append, split, ih]
    rfl

/-- The lines of blocks are split into these blocks. -/
theorem split_ofBlock (blocks : List Block) : split (blocks.flatMap ofBlock) = ([], blocks) := by
  induction blocks with
  | nil => rfl
  | cons b rest ih =>
    rw [List.flatMap_cons, ofBlock, List.cons_append, split, split_instructions, ih]
    simp

theorem blocks_ofBlock (function : String) (blocks : List Block) :
    BodyItem.blocks function (blocks.flatMap ofBlock) = blocks := by
  rw [BodyItem.blocks, split_ofBlock]
  rfl

end BodyItem

end RiscBackend.Source
