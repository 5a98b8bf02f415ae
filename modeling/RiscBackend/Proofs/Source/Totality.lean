/-
# Every list of tokens is read to its end

A walk by position and a parser over the remaining tokens agree on every list of tokens, whatever
their kinds, texts and lines are. The tokens are cut at the first end of a file. A stream of a
parser is a suffix of what stands before it, and stands for a cursor at the position where that
suffix starts. The invariant is that a walk from this cursor has an outcome, which is the value of
the parser with the cursor for its next stream, and that this stream is again a suffix.

From the rules for one token follow those for the loops: the end of a file stops every loop, and
before it each round moves the cursor, so that a loop takes at most one round more than tokens
remain. A look at the token after the current one is safe because the current one is not the end.
-/

import RiscBackend.Proofs.Source.Cursor

namespace RiscBackend.Source

open IR (Operand Opcode Instruction Func Global Module)

/-- Tokens, cut at the first end of a file: those before it, the end, and whatever follows. There
are more rounds for a loop than tokens before the end. -/
structure Input where
  span : List Token
  final : Token
  after : List Token
  rounds : Nat
  span_ne : ∀ t ∈ span, t.kind ≠ .endOfFile
  final_eq : final.kind = .endOfFile
  span_lt : span.length < rounds

namespace Input

variable (i : Input)

/-- All of the tokens. -/
def tokens : List Token :=
  i.span ++ i.final :: i.after

/-- What a reader is given. -/
def tape : Tape :=
  ⟨i.tokens, i.rounds⟩

/-- The cursor that has a stream in front of it. -/
def cursor (s : Stream) : Cursor where
  position := i.span.length - s.rest.length
  current := s.rest.headD i.final
  previous := s.previous
  complaints := s.complaints

variable {i}

/-- The first token of a suffix is at the cursor and is not the end. -/
theorem first_of_suffix {s : Stream} {t : Token} {rest : List Token} (isFirst : s.rest = t :: rest)
    (inside : s.rest <:+ i.span) : s.rest.headD i.final = t ∧ t.kind ≠ .endOfFile := by
  refine ⟨by rw [isFirst, List.headD_cons], i.span_ne t (inside.subset ?_)⟩
  rw [isFirst]
  exact List.mem_cons_self

/-- The token after the first one of a suffix, and its position. -/
theorem next_of_suffix {t : Token} {rest : List Token} (inside : t :: rest <:+ i.span) :
    i.tokens[i.span.length - (t :: rest).length + 1]? = some (rest.headD i.final) ∧
      i.span.length - (t :: rest).length + 1 = i.span.length - rest.length := by
  obtain ⟨done, span_eq⟩ := inside
  have length_eq := congrArg List.length span_eq
  rw [List.length_append, List.length_cons] at length_eq
  have position_eq : i.span.length - (t :: rest).length + 1 = done.length + 1 := by
    rw [List.length_cons]
    omega
  refine ⟨?_, by rw [position_eq]; omega⟩
  rw [position_eq, tokens, ← span_eq, List.append_assoc, List.getElem?_append_right (by omega)]
  cases rest <;> simp

end Input

/-- The items of the top level, put together. -/
def Parser.wholeModule : Parser Module := do
  let items ← Parser.each (fun _ => false) topItem
  return { globals := items.flatMap Module.globals, funcs := items.flatMap Module.funcs }

namespace Walk

variable {α β : Type} {i : Input} {s : Stream}

/-- From where a stream starts, a walk comes to the value and to the rest that a parser gives. -/
def Agrees (i : Input) (s : Stream) (w : Walk α) (p : Parser α) : Prop :=
  w.outcome? i.tape (i.cursor s) =
      some ((p.run i.final s).1, i.cursor (p.run i.final s).2) ∧
    (p.run i.final s).2.rest <:+ i.span

/-- It does so wherever it starts. -/
def Follows (i : Input) (w : Walk α) (p : Parser α) : Prop :=
  ∀ s, s.rest <:+ i.span → Agrees i s w p

section Rules

theorem agrees_pure (inside : s.rest <:+ i.span) (a : α) : Agrees i s (pure a) (pure a) :=
  ⟨rfl, inside⟩

theorem outcome?_bind (w : Walk α) (next : α → Walk β) (tape : Tape) (c : Cursor) :
    (w >>= next).outcome? tape c =
      (w.outcome? tape c).bind fun out => (next out.1).outcome? tape out.2 :=
  rfl

theorem Agrees.bind {w : Walk α} {p : Parser α} {next : α → Walk β} {next' : α → Parser β}
    (first : Agrees i s w p)
    (second : Agrees i (p.run i.final s).2 (next (p.run i.final s).1) (next' (p.run i.final s).1)) :
    Agrees i s (w >>= next) (p >>= next') := by
  refine ⟨?_, second.2⟩
  rw [outcome?_bind, first.1]
  exact second.1

theorem follows_pure (a : α) : Follows i (pure a) (pure a) :=
  fun _ inside => agrees_pure inside a

theorem Follows.bind {w : Walk α} {p : Parser α} {next : α → Walk β} {next' : α → Parser β}
    (first : Follows i w p) (second : ∀ a, Follows i (next a) (next' a)) :
    Follows i (w >>= next) (p >>= next') :=
  fun s inside => (first s inside).bind (second _ _ (first s inside).2)

theorem follows_previous : Follows i previous Parser.previous :=
  fun _ inside => ⟨rfl, inside⟩

theorem follows_report (token : Token) (fault : SyntaxFault) :
    Follows i (report token fault) (Parser.report token fault) :=
  fun _ inside => ⟨rfl, inside⟩

theorem follows_complaint (token : Token) (fault : SyntaxFault) (a : α) :
    Follows i (report token fault >>= fun _ => pure a)
      (Parser.report token fault >>= fun _ => pure a) :=
  (follows_report token fault).bind fun _ => follows_pure a

/-- A walk may look at the current token first. -/
theorem agrees_of_current {next : Token → Walk β} {p : Parser β}
    (agrees : Agrees i s (next (s.rest.headD i.final)) p) : Agrees i s (current >>= next) p :=
  agrees

/-- What comes after a look at the current token may depend on it. -/
theorem agrees_current_bind {next : Token → Walk β} {next' : Token → Parser β}
    (agrees : Agrees i s (next (s.rest.headD i.final)) (next' (s.rest.headD i.final))) :
    Agrees i s (current >>= next) (Parser.current >>= next') :=
  agrees

/-- A look at a token that is there. -/
theorem outcome?_tokenAt_bind {tape : Tape} {c : Cursor} {position : Nat} {t : Token}
    (isThere : tape.tokens[position]? = some t) (next : Token → Walk β) :
    (tokenAt position >>= next).outcome? tape c = (next t).outcome? tape c := by
  show ((tape.tokens[position]?).map fun t => (t, c)).bind _ = _
  rw [isThere]
  rfl

/-- An advance to a token that is there. -/
theorem outcome?_advance {tape : Tape} {c : Cursor} {next : Token}
    (isNext : tape.tokens[c.position + 1]? = some next) :
    advance.outcome? tape c =
      some ((), { c with position := c.position + 1, current := next, previous := c.current }) := by
  have within : c.position + 1 < tape.tokens.length := (List.getElem?_eq_some_iff.mp isNext).1
  have advance_eq : advance.outcome? tape c = outcome?
      (if c.position + 1 < tape.tokens.length then
        tokenAt (c.position + 1) >>= fun next =>
          set { c with position := c.position + 1, current := next, previous := c.current }
      else pure ()) tape c := rfl
  rw [advance_eq, if_pos within, outcome?_tokenAt_bind isNext]
  rfl

/-- Before the end of the input there is a next token. -/
theorem agrees_advance (inside : s.rest <:+ i.span)
    (notEnd : (s.rest.headD i.final).kind ≠ .endOfFile) : Agrees i s advance Parser.advance := by
  obtain ⟨previous, rest, complaints⟩ := s
  cases rest with
  | nil => exact absurd i.final_eq notEnd
  | cons t rest =>
    obtain ⟨next_eq, position_eq⟩ := Input.next_of_suffix inside
    refine ⟨?_, (List.suffix_cons t rest).trans inside⟩
    rw [outcome?_advance next_eq]
    show some ((), Cursor.mk (i.span.length - (t :: rest).length + 1) _ _ _) = _
    rw [position_eq]
    rfl

/-- What follows an advance may stand anywhere. -/
theorem agrees_advance_bind {next : Unit → Walk β} {next' : Unit → Parser β}
    (inside : s.rest <:+ i.span) (notEnd : (s.rest.headD i.final).kind ≠ .endOfFile)
    (follows : Follows i (next ()) (next' ())) :
    Agrees i s (advance >>= next) (Parser.advance >>= next') :=
  (agrees_advance inside notEnd).bind (follows _ (agrees_advance inside notEnd).2)

theorem Agrees.of_eq {w w' : Walk α} {p p' : Parser α}
    (walk_eq : w.outcome? i.tape (i.cursor s) = w'.outcome? i.tape (i.cursor s))
    (run_eq : p.run i.final s = p'.run i.final s) (agrees : Agrees i s w' p') :
    Agrees i s w p := by
  rw [Agrees, walk_eq, run_eq]
  exact agrees

theorem outcome?_skipRounds (test : Token → Bool) (rounds : Nat) (tape : Tape) (c : Cursor) :
    (skipRounds test (rounds + 1)).outcome? tape c = outcome?
      (if test c.current then advance >>= fun _ => skipRounds test rounds else pure ()) tape c :=
  rfl

theorem run_skipWhile (test : Token → Bool) (final previous t : Token) (rest : List Token)
    (complaints : List Complaint) :
    (Parser.skipWhile test).run final ⟨previous, t :: rest, complaints⟩ =
      if test t then (Parser.skipWhile test).run final ⟨t, rest, complaints⟩
      else ((), ⟨previous, t :: rest, complaints⟩) := by
  show ((), Stream.mk (Parser.dropTokens test previous (t :: rest)).1
    (Parser.dropTokens test previous (t :: rest)).2 complaints) = _
  rw [Parser.dropTokens]
  split <;> rfl

/-- Tokens are skipped in the same way, if the end of the input is not among them. A round goes
by for each token that remains, and one for the test that stops. -/
theorem agrees_skipRounds {test test' : Token → Bool}
    (test_eq : ∀ t, t.kind ≠ .endOfFile → test t = test' t)
    (stops : ∀ t, t.kind = .endOfFile → test t = false) (rounds : Nat)
    (inside : s.rest <:+ i.span) (enough : s.rest.length ≤ rounds) :
    Agrees i s (skipRounds test (rounds + 1)) (Parser.skipWhile test') := by
  obtain ⟨previous, rest, complaints⟩ := s
  induction rest generalizing previous rounds with
  | nil =>
    refine .of_eq ?_ rfl (agrees_pure inside ())
    rw [outcome?_skipRounds, if_neg]
    simp [Input.cursor, stops i.final i.final_eq]
  | cons t rest ih =>
    have notEnd := (Input.first_of_suffix rfl inside).2
    have advances : Agrees i ⟨previous, t :: rest, complaints⟩ advance Parser.advance :=
      agrees_advance inside notEnd
    cases passes : test t with
    | true =>
      cases rounds with
      | zero => cases enough
      | succ rounds =>
        have goesOn : Agrees i ⟨previous, t :: rest, complaints⟩
            (advance >>= fun _ => skipRounds test (rounds + 1))
            (Parser.advance >>= fun _ => Parser.skipWhile test') :=
          advances.bind (ih rounds t advances.2 (Nat.le_of_succ_le_succ enough))
        refine .of_eq ?_ ?_ goesOn
        · rw [outcome?_skipRounds, if_pos]
          exact passes
        · rw [run_skipWhile, if_pos (test_eq t notEnd ▸ passes)]
          rfl
    | false =>
      refine .of_eq ?_ ?_ (agrees_pure inside ())
      · rw [outcome?_skipRounds, if_neg]
        simp [Input.cursor, passes]
      · rw [run_skipWhile, if_neg (by simp [← test_eq t notEnd, passes])]
        rfl

/-- There is a round left when every token before the end was read. -/
theorem exists_rounds (inside : s.rest <:+ i.span) :
    ∃ rounds, i.rounds = rounds + 1 ∧ s.rest.length ≤ rounds := by
  have isLess := i.span_lt
  have shorter := inside.length_le
  exact ⟨i.rounds - 1, by omega, by omega⟩

theorem follows_skipWhile {test test' : Token → Bool}
    (test_eq : ∀ t, t.kind ≠ .endOfFile → test t = test' t)
    (stops : ∀ t, t.kind = .endOfFile → test t = false) :
    Follows i (skipWhile test) (Parser.skipWhile test') := by
  intro s inside
  obtain ⟨rounds, rounds_eq, enough⟩ := exists_rounds inside
  have agrees := agrees_skipRounds test_eq stops rounds inside enough
  rw [← rounds_eq] at agrees
  exact agrees

theorem outcome?_eachRound (goesOn : Token → Bool) (item : Walk α) (rounds : Nat) (tape : Tape)
    (c : Cursor) :
    (eachRound goesOn item (rounds + 1)).outcome? tape c = outcome?
      (if goesOn c.current then item >>= fun first => eachRound goesOn item rounds >>= fun later =>
        pure (first :: later) else pure []) tape c :=
  rfl

section Items

variable {goesOn stop : Token → Bool} {item : Walk α} {item' : Token → Parser α}

/-- No item is read at the end of the input, nor from a token that stops. -/
theorem agrees_eachRound_stop (goesOn_eq : ∀ t, t.kind ≠ .endOfFile → goesOn t = !stop t)
    (stops : ∀ t, t.kind = .endOfFile → goesOn t = false) (rounds : Nat)
    (inside : s.rest <:+ i.span) (stopped : ∀ t rest, s.rest = t :: rest → stop t = true) :
    Agrees i s (eachRound goesOn item (rounds + 1)) (Parser.each stop item') := by
  obtain ⟨previous, rest, complaints⟩ := s
  cases rest with
  | nil =>
    refine .of_eq ?_ ?_ (agrees_pure inside [])
    · rw [outcome?_eachRound, if_neg]
      simp [Input.cursor, stops i.final i.final_eq]
    · rw [Parser.run, Parser.each]
      rfl
  | cons t rest =>
    have notEnd := (Input.first_of_suffix rfl inside).2
    refine .of_eq ?_ ?_ (agrees_pure inside [])
    · rw [outcome?_eachRound, if_neg]
      simp [Input.cursor, goesOn_eq t notEnd, stopped t rest rfl]
    · rw [Parser.run, Parser.each]
      dsimp only
      rw [if_pos (stopped t rest rfl)]
      rfl

/-- Items are read one after the other in the same way, if the end of the input is no item and
each item is read in the same way from its first token on. -/
theorem agrees_eachRound (goesOn_eq : ∀ t, t.kind ≠ .endOfFile → goesOn t = !stop t)
    (stops : ∀ t, t.kind = .endOfFile → goesOn t = false)
    (agree : ∀ s t rest, s.rest = t :: rest → s.rest <:+ i.span →
      Agrees i s item (Parser.advance >>= fun _ => item' t))
    (rounds : Nat) (inside : s.rest <:+ i.span) (enough : s.rest.length ≤ rounds) :
    Agrees i s (eachRound goesOn item (rounds + 1)) (Parser.each stop item') := by
  induction rounds generalizing s with
  | zero =>
    apply agrees_eachRound_stop goesOn_eq stops 0 inside
    intro t rest isFirst
    rw [isFirst] at enough
    cases enough
  | succ rounds ih =>
    obtain ⟨previous, rest, complaints⟩ := s
    cases rest with
    | nil => exact agrees_eachRound_stop goesOn_eq stops _ inside fun _ _ isFirst => nomatch isFirst
    | cons t rest =>
      have notEnd := (Input.first_of_suffix rfl inside).2
      cases stopped : stop t with
      | true =>
        apply agrees_eachRound_stop goesOn_eq stops _ inside
        rintro _ _ ⟨⟩
        exact stopped
      | false =>
        -- The item takes its first token at least, so the rounds that are left are enough.
        have first := agree ⟨previous, t :: rest, complaints⟩ t rest rfl inside
        have shorter := (item' t i.final ⟨t, rest, complaints⟩).property
        have later := ih first.2 (Nat.le_trans shorter (Nat.le_of_succ_le_succ enough))
        have both : Agrees i ⟨previous, t :: rest, complaints⟩
            (item >>= fun a => eachRound goesOn item (rounds + 1) >>= fun as => pure (a :: as))
            ((Parser.advance >>= fun _ => item' t) >>= fun a =>
              Parser.each stop item' >>= fun as => pure (a :: as)) :=
          first.bind (later.bind (agrees_pure later.2 _))
        refine .of_eq ?_ ?_ both
        · rw [outcome?_eachRound, if_pos]
          simp [Input.cursor, goesOn_eq t notEnd, stopped]
        · rw [Parser.run, Parser.each]
          dsimp only
          rw [if_neg (by simp [stopped])]
          rfl

theorem follows_each (goesOn_eq : ∀ t, t.kind ≠ .endOfFile → goesOn t = !stop t)
    (stops : ∀ t, t.kind = .endOfFile → goesOn t = false)
    (agree : ∀ s t rest, s.rest = t :: rest → s.rest <:+ i.span →
      Agrees i s item (Parser.advance >>= fun _ => item' t)) :
    Follows i (each goesOn item) (Parser.each stop item') := by
  intro s inside
  obtain ⟨rounds, rounds_eq, enough⟩ := exists_rounds inside
  have agrees := agrees_eachRound goesOn_eq stops agree rounds inside enough
  rw [← rounds_eq] at agrees
  exact agrees

end Items

end Rules

section Grammar

theorem follows_accept {test : TokenKind → Bool} (stops : test .endOfFile = false) :
    Follows i (accept test) (Parser.accept test) := by
  intro s inside
  apply agrees_current_bind
  by_cases accepted : test (s.rest.headD i.final).kind = true
  · rw [if_pos accepted, if_pos accepted]
    have notEnd : (s.rest.headD i.final).kind ≠ .endOfFile := by
      intro isEnd
      rw [isEnd, stops] at accepted
      cases accepted
    exact agrees_advance_bind inside notEnd (follows_pure true)
  · rw [if_neg accepted, if_neg accepted]
    exact agrees_pure inside false

theorem follows_require (what : Requirement) : Follows i (require what) (Parser.require what) := by
  intro s inside
  apply agrees_current_bind
  by_cases isMark : (s.rest.headD i.final).kind = what.kind
  · rw [if_pos isMark, if_pos isMark]
    have notEnd : (s.rest.headD i.final).kind ≠ .endOfFile := by
      rw [isMark]
      cases what <;> decide
    exact agrees_advance_bind inside notEnd (follows_pure true)
  · rw [if_neg isMark, if_neg isMark]
    exact follows_complaint _ _ false s inside

theorem follows_skipTypes : Follows i skipTypes Parser.skipTypes := by
  apply follows_skipWhile
  · exact fun t _ => rfl
  · intro t isEnd
    rw [isEnd]
    rfl

theorem onLine_eq_line {line : Int} {t : Token} (notEnd : t.kind ≠ .endOfFile) :
    onLine line t = decide (t.line = line) := by
  simp [onLine, notEnd]

theorem onLine_eq_false {line : Int} {t : Token} (isEnd : t.kind = .endOfFile) :
    onLine line t = false := by
  simp [onLine, isEnd]

theorem follows_skipLine (line : Int) : Follows i (skipLine line) (Parser.skipLine line) :=
  follows_skipWhile (fun _ notEnd => onLine_eq_line notEnd) (fun _ isEnd => onLine_eq_false isEnd)

theorem kind_ne_of_onLine {line : Int} {t : Token} (isOn : onLine line t = true) :
    t.kind ≠ .endOfFile := by
  rw [onLine, Bool.and_eq_true, bne_iff_ne] at isOn
  exact isOn.1

theorem follows_word (token : Token) : Follows i (word token) (Parser.word token) := by
  rw [word, Parser.word]
  cases Text.readInt token.text with
  | none => exact follows_complaint _ _ none
  | some value =>
    dsimp only
    split
    · exact follows_pure _
    · exact follows_complaint _ _ none

/-- A word is read without moving. -/
theorem rest_word (token final : Token) (s : Stream) :
    ((Parser.word token).run final s).2.rest = s.rest := by
  rw [Parser.word]
  cases Text.readInt token.text with
  | none => rfl
  | some value =>
    dsimp only
    split <;> rfl

/-- What follows the reading of a word may advance over its token. -/
theorem agrees_word_bind {next : Option Int32 → Walk β} {next' : Option Int32 → Parser β}
    (inside : s.rest <:+ i.span) (notEnd : (s.rest.headD i.final).kind ≠ .endOfFile)
    (token : Token)
    (agree : ∀ value? s, s.rest <:+ i.span → (s.rest.headD i.final).kind ≠ .endOfFile →
      Agrees i s (next value?) (next' value?)) :
    Agrees i s (word token >>= next) (Parser.word token >>= next') := by
  have read := follows_word token s inside
  exact read.bind (agree _ _ read.2 (by rwa [rest_word]))

/-- Whether the next token is on a line can be asked of the token. -/
theorem agrees_onLine_bind {line : Int} {next : Token → Walk β} {next' : Bool → Parser β}
    (agrees : Agrees i s (next (s.rest.headD i.final))
      (next' (onLine line (s.rest.headD i.final)))) :
    Agrees i s (current >>= next) (Parser.onLine line >>= next') :=
  agrees

theorem follows_operand (line : Int) : Follows i (operand line) (Parser.operand line) := by
  intro s inside
  apply agrees_onLine_bind
  cases isOn : onLine line (s.rest.headD i.final) with
  | false =>
    apply (follows_previous s inside).bind
    exact follows_complaint _ _ none s inside
  | true =>
    have notEnd := kind_ne_of_onLine isOn
    apply agrees_current_bind
    generalize s.rest.headD i.final = token
    cases token.kind with
    | number =>
      apply agrees_word_bind inside notEnd
      intro value? s inside notEnd
      cases value? with
      | none => exact agrees_pure inside none
      | some value => exact agrees_advance_bind inside notEnd (follows_pure _)
    | localName | globalName => exact agrees_advance_bind inside notEnd (follows_pure _)
    | _ => exact follows_complaint _ _ none s inside

theorem follows_typedOperand (line : Int) :
    Follows i (typedOperand line) (Parser.typedOperand line) :=
  follows_skipTypes.bind fun _ => follows_operand line

theorem follows_operandPair {first second : Walk (Option Operand)}
    {first' second' : Parser (Option Operand)} (comma : Requirement)
    (follows : Follows i first first') (follows' : Follows i second second') :
    Follows i (operandPair first second comma) (Parser.operandPair first' second' comma) := by
  apply follows.bind
  intro a?
  cases a? with
  | none => exact follows_pure none
  | some a =>
    apply (follows_require comma).bind
    intro found
    cases found with
    | false => exact follows_pure none
    | true =>
      apply follows'.bind
      intro b?
      cases b? with
      | none => exact follows_pure none
      | some b => exact follows_pure _

theorem follows_operands (line : Int) (opcode : Opcode) :
    Follows i (operands line opcode) (Parser.operands line opcode) := by
  have typed : Follows i (typedOperand line >>= fun a? => pure (a?.map ([·])))
      (Parser.typedOperand line >>= fun a? => pure (a?.map ([·]))) :=
    (follows_typedOperand line).bind fun a? => follows_pure _
  cases opcode with
  | ret =>
    apply (follows_accept (by decide)).bind
    intro isVoid
    cases isVoid with
    | true => exact follows_pure _
    | false => exact typed
  | load =>
    apply follows_skipTypes.bind
    intro _
    apply (follows_require _).bind
    intro found
    cases found with
    | false => exact follows_pure none
    | true => exact typed
  | store => exact follows_operandPair _ (follows_typedOperand line) (follows_typedOperand line)
  | arith op =>
    have skips : Follows i (skipWhile fun t => t.kind = .ident)
        (Parser.skipWhile fun t => t.kind = .ident) := by
      apply follows_skipWhile
      · exact fun t _ => rfl
      · intro t isEnd
        rw [isEnd]
        rfl
    apply skips.bind
    intro _
    exact follows_operandPair _ (follows_typedOperand line) (follows_operand line)
  | alloca | other | unlisted => exact follows_pure _

theorem follows_operation (line : Int) (result : Option String) (token : Token) :
    Follows i (operation line result token) (Parser.operation line result token) := by
  apply (follows_operands line _).bind
  intro args?
  cases args? with
  | none => exact follows_pure none
  | some args =>
    dsimp only
    cases Instruction.check { opcode := Opcode.ofName token.text, result, args } with
    | ok => exact follows_pure _
    | error fault => exact follows_complaint _ _ none

/-- The operation of an instruction with a result. -/
theorem follows_opcode (line : Int) (result : Option String) :
    Follows i
      (current >>= fun token => if token.kind = .ident then
        advance >>= fun _ => operation line result token
      else report token .opcode >>= fun _ => pure none)
      (Parser.current >>= fun token => if token.kind = .ident then
        Parser.advance >>= fun _ => Parser.operation line result token
      else Parser.report token .opcode >>= fun _ => pure none) := by
  intro s inside
  apply agrees_current_bind
  by_cases isName : (s.rest.headD i.final).kind = .ident
  · rw [if_pos isName, if_pos isName]
    exact agrees_advance_bind inside (by rw [isName]; decide) (follows_operation _ _ _)
  · rw [if_neg isName, if_neg isName]
    exact follows_complaint _ _ none s inside

/-- The rest of a line is the same whether its first token was read or not. -/
theorem agrees_skipLine_from {t : Token} {rest : List Token} (isFirst : s.rest = t :: rest)
    (inside : s.rest <:+ i.span) :
    Agrees i s (skipLine t.line) (Parser.advance >>= fun _ => Parser.skipLine t.line) := by
  obtain ⟨previous, _, complaints⟩ := s
  subst isFirst
  apply Agrees.of_eq rfl _ (follows_skipLine t.line _ inside)
  rw [Parser.skipLine, run_skipWhile, if_pos (decide_eq_true rfl)]
  rfl

/-- A token that cannot start an instruction is skipped with its line. -/
theorem agrees_stray {t : Token} {rest : List Token} (isFirst : s.rest = t :: rest)
    (inside : s.rest <:+ i.span) (a : α) :
    Agrees i s (report t .opcode >>= fun _ => skipLine t.line >>= fun _ => pure a)
      (Parser.advance >>= fun _ => Parser.report t .opcode >>= fun _ =>
        Parser.skipLine t.line >>= fun _ => pure a) := by
  obtain ⟨previous, _, complaints⟩ := s
  subst isFirst
  have skipped : Agrees i ⟨previous, t :: rest, complaints ++ [⟨t, .opcode⟩]⟩ (skipLine t.line)
      (Parser.advance >>= fun _ => Parser.skipLine t.line) :=
    agrees_skipLine_from rfl inside
  have both : Agrees i ⟨previous, t :: rest, complaints⟩
      (report t .opcode >>= fun _ => skipLine t.line >>= fun _ => pure a)
      (Parser.report t .opcode >>= fun _ =>
        (Parser.advance >>= fun _ => Parser.skipLine t.line) >>= fun _ => pure a) :=
    (follows_report t .opcode _ inside).bind (skipped.bind (agrees_pure skipped.2 a))
  exact .of_eq rfl rfl both

/-- An instruction is read in the same way from its first token on. -/
theorem agrees_instruction {t : Token} {rest : List Token} (isFirst : s.rest = t :: rest)
    (inside : s.rest <:+ i.span) :
    Agrees i s instruction (Parser.advance >>= fun _ => Parser.instruction t) := by
  obtain ⟨first_eq, notEnd⟩ := Input.first_of_suffix isFirst inside
  have advances := agrees_advance inside (first_eq ▸ notEnd)
  have ends (i? : Option Instruction) : Follows i (skipLine t.line >>= fun _ => pure i?)
      (Parser.skipLine t.line >>= fun _ => pure i?) :=
    (follows_skipLine t.line).bind fun _ => follows_pure i?
  -- What can start an instruction is read over by both.
  have goesOn {parts : Walk (Option Instruction)} {parts' : Parser (Option Instruction)}
      (follows : Follows i parts parts') :
      Agrees i s ((advance >>= fun _ => parts) >>= fun i? => skipLine t.line >>= fun _ => pure i?)
        (Parser.advance >>= fun _ => parts' >>= fun i? =>
          Parser.skipLine t.line >>= fun _ => pure i?) := by
    rw [bind_assoc]
    exact advances.bind (follows.bind ends _ advances.2)
  apply agrees_of_current
  rw [first_eq, instructionParts, Parser.instruction, Parser.instructionParts]
  cases t.kind with
  | localName =>
    apply goesOn
    apply (follows_require _).bind
    intro found
    cases found with
    | false => exact follows_pure none
    | true => exact follows_opcode _ _
  | ident => exact goesOn (follows_operation _ _ _)
  | _ => exact agrees_stray isFirst inside none

/-- The token after the first one is looked at, and it is there. -/
theorem outcome?_label? {t : Token} {rest : List Token} (isFirst : s.rest = t :: rest)
    (inside : s.rest <:+ i.span) :
    label?.outcome? i.tape (i.cursor s) = outcome?
      (if (t.kind = .ident || t.kind = .number) && (rest.headD i.final).kind = .colon &&
          (rest.headD i.final).line = t.line then
        advance >>= fun _ => advance >>= fun _ => pure (some t.text)
      else pure none) i.tape (i.cursor s) := by
  have first_eq := (Input.first_of_suffix isFirst inside).1
  have position_eq : (i.cursor s).position = i.span.length - (t :: rest).length := by
    rw [Input.cursor, isFirst]
  have isNext := (Input.next_of_suffix (isFirst ▸ inside)).1
  rw [← position_eq] at isNext
  have label_eq : label?.outcome? i.tape (i.cursor s) = outcome?
      (if (s.rest.headD i.final).kind = .ident || (s.rest.headD i.final).kind = .number then
        get >>= fun c => tokenAt (c.position + 1) >>= fun next =>
          if next.kind = .colon && next.line = (s.rest.headD i.final).line then
            advance >>= fun _ => advance >>= fun _ => pure (some (s.rest.headD i.final).text)
          else pure none
      else pure none) i.tape (i.cursor s) := rfl
  rw [label_eq, first_eq]
  cases (decide (t.kind = .ident) || decide (t.kind = .number)) with
  | false => rfl
  | true =>
    rw [if_pos rfl, Bool.true_and]
    exact outcome?_tokenAt_bind isNext fun next =>
      if next.kind = .colon && next.line = t.line then
        advance >>= fun _ => advance >>= fun _ => pure (some t.text)
      else pure none

/-- A line of a body is read in the same way from its first token on. -/
theorem agrees_bodyItem {t : Token} {rest : List Token} (isFirst : s.rest = t :: rest)
    (inside : s.rest <:+ i.span) :
    Agrees i s bodyItem (Parser.advance >>= fun _ => BodyItem.read t) := by
  obtain ⟨previous, _, complaints⟩ := s
  subst isFirst
  have notEnd := (Input.first_of_suffix rfl inside).2
  have advances : Agrees i ⟨previous, t :: rest, complaints⟩ advance Parser.advance :=
    agrees_advance inside notEnd
  have label_eq := outcome?_label? rfl inside
  have read_eq : (Parser.advance >>= fun _ => BodyItem.read t).run i.final
      ⟨previous, t :: rest, complaints⟩ = Parser.run
        (if (t.kind = .ident || t.kind = .number) && (rest.headD i.final).kind = .colon &&
            (rest.headD i.final).line = t.line then
          Parser.advance >>= fun _ => pure (BodyItem.label t.text)
        else Parser.instruction t >>= fun i? => pure (BodyItem.instruction i?))
        i.final ⟨t, rest, complaints⟩ := rfl
  by_cases isLabel : ((t.kind = .ident || t.kind = .number) &&
      (rest.headD i.final).kind = .colon && (rest.headD i.final).line = t.line) = true
  · rw [if_pos isLabel] at label_eq read_eq
    -- A colon is not the end of the input, so both tokens of a label are there.
    have notEnd' : (rest.headD i.final).kind ≠ .endOfFile := by
      simp only [Bool.and_eq_true, decide_eq_true_eq] at isLabel
      rw [isLabel.1.2]
      decide
    have advances' : Agrees i ⟨t, rest, complaints⟩ advance Parser.advance :=
      agrees_advance advances.2 notEnd'
    have labels : Agrees i ⟨previous, t :: rest, complaints⟩
        (advance >>= fun _ => advance >>= fun _ => pure (some t.text))
        (Parser.advance >>= fun _ => Parser.advance >>= fun _ => pure (some t.text)) :=
      advances.bind (advances'.bind (agrees_pure advances'.2 _))
    have item : Agrees i ⟨previous, t :: rest, complaints⟩
        ((advance >>= fun _ => advance >>= fun _ => pure (some t.text)) >>= fun _ =>
          pure (BodyItem.label t.text))
        ((Parser.advance >>= fun _ => Parser.advance >>= fun _ => pure (some t.text)) >>= fun _ =>
          pure (BodyItem.label t.text)) :=
      labels.bind (agrees_pure labels.2 _)
    refine .of_eq ?_ read_eq item
    rw [bodyItem, outcome?_bind, outcome?_bind, label_eq, labels.1]
    rfl
  · rw [if_neg isLabel] at label_eq read_eq
    have reads := agrees_instruction rfl inside
    have item : Agrees i ⟨previous, t :: rest, complaints⟩
        (instruction >>= fun i? => pure (BodyItem.instruction i?))
        ((Parser.advance >>= fun _ => Parser.instruction t) >>= fun i? =>
          pure (BodyItem.instruction i?)) :=
      reads.bind (agrees_pure reads.2 _)
    refine .of_eq ?_ read_eq item
    rw [bodyItem, outcome?_bind, label_eq]
    rfl

theorem follows_definitionWord :
    Follows i definitionWord (Parser.accept fun kind => kind = .global || kind = .constant) := by
  have inTurn : Follows i definitionWord (Parser.accept (· = .global) >>= fun found =>
      if found then pure true else Parser.accept (· = .constant)) := by
    have asks (sought : TokenKind) (ne : .endOfFile ≠ sought) :
        Follows i (accept (· = sought)) (Parser.accept (· = sought)) :=
      follows_accept (decide_eq_false ne)
    apply (asks .global (by decide)).bind
    intro found
    cases found with
    | true => exact follows_pure true
    | false => exact asks .constant (by decide)
  intro s inside
  refine .of_eq rfl ?_ (inTurn s inside)
  have accept_eq (test : TokenKind → Bool) : (Parser.accept test).run i.final s = Parser.run
      (if test (s.rest.headD i.final).kind then Parser.advance >>= fun _ => pure true
        else pure false) i.final s := rfl
  have bind_eq (next : Bool → Parser Bool) : (Parser.accept (· = .global) >>= next).run i.final s =
      (next ((Parser.accept (· = .global)).run i.final s).1).run i.final
        ((Parser.accept (· = .global)).run i.final s).2 := rfl
  rw [bind_eq, accept_eq, accept_eq]
  by_cases isGlobal : (s.rest.headD i.final).kind = .global
  · simp only [isGlobal]
    rfl
  · simp only [isGlobal]
    rfl

theorem follows_globalParts (name : Token) :
    Follows i (globalParts name) (Parser.globalParts name) := by
  have skips : Follows i
      (skipWhile fun t => onLine name.line t && t.kind != .global && t.kind != .constant)
      (Parser.skipWhile fun t => t.line = name.line && t.kind != .global && t.kind != .constant) := by
    apply follows_skipWhile
    · intro t notEnd
      rw [onLine_eq_line notEnd]
    · intro t isEnd
      rw [onLine_eq_false isEnd]
      rfl
  apply (follows_require _).bind
  intro found
  cases found with
  | false => exact follows_pure none
  | true =>
    apply skips.bind
    intro _
    apply follows_definitionWord.bind
    intro isDefinition
    cases isDefinition with
    | false => exact follows_complaint _ _ none
    | true =>
      apply follows_skipTypes.bind
      intro _ s inside
      apply agrees_current_bind
      by_cases isNumber : (s.rest.headD i.final).kind = .number
      · rw [if_pos isNumber, if_pos isNumber]
        apply agrees_word_bind inside (by rw [isNumber]; decide)
        intro value? s inside notEnd
        cases value? with
        | none => exact agrees_pure inside none
        | some value => exact agrees_advance_bind inside notEnd (follows_pure _)
      · rw [if_neg isNumber, if_neg isNumber]
        split
        · rename_i isZero
          rw [Bool.and_eq_true, decide_eq_true_eq] at isZero
          exact agrees_advance_bind inside (by rw [isZero.1]; decide) (follows_pure _)
        · exact follows_complaint _ _ none s inside

/-- A function is read in the same way from the word that starts it on. -/
theorem agrees_func {t : Token} {rest : List Token} (isFirst : s.rest = t :: rest)
    (inside : s.rest <:+ i.span) :
    Agrees i s func (Parser.advance >>= fun _ => Parser.func t) := by
  obtain ⟨first_eq, notEnd⟩ := Input.first_of_suffix isFirst inside
  have skipsToName : Follows i (skipWhile fun u => u.kind != .globalName && onLine t.line u)
      (Parser.skipWhile fun u => u.kind != .globalName && u.line = t.line) := by
    apply follows_skipWhile
    · intro u notEnd
      rw [onLine_eq_line notEnd]
    · intro u isEnd
      rw [onLine_eq_false isEnd, Bool.and_false]
  have skipsToBody : Follows i (skipWhile fun u => u.kind != .leftBrace && u.kind != .endOfFile)
      (Parser.skipWhile fun u => u.kind != .leftBrace) := by
    apply follows_skipWhile
    · intro u notEnd
      simp [notEnd]
    · intro u isEnd
      simp [isEnd]
  have reads : Follows i (each (fun u => u.kind != .rightBrace && u.kind != .endOfFile) bodyItem)
      (Parser.each (fun u => u.kind = .rightBrace) BodyItem.read) := by
    refine follows_each ?_ ?_ fun s u rest => agrees_bodyItem
    · intro u notEnd
      rw [bne_iff_ne.mpr notEnd, Bool.and_true]
      rfl
    · intro u isEnd
      simp [isEnd]
  apply agrees_of_current
  rw [first_eq]
  apply agrees_advance_bind inside (first_eq ▸ notEnd)
  apply skipsToName.bind
  intro _ s inside
  apply agrees_current_bind
  cases isOther : (s.rest.headD i.final).kind != .globalName with
  | true =>
    apply (follows_report _ _).bind _ s inside
    exact fun _ => (follows_skipLine _).bind fun _ => follows_pure none
  | false =>
    apply agrees_advance_bind inside (by rw [bne_eq_false_iff_eq.mp isOther]; decide)
    apply skipsToBody.bind
    intro _
    apply (follows_require _).bind
    intro found
    cases found with
    | false => exact follows_pure none
    | true =>
      apply reads.bind
      intro items
      exact (follows_require _).bind fun _ => follows_pure _

/-- So is an item of the top level. -/
theorem agrees_topItem {t : Token} {rest : List Token} (isFirst : s.rest = t :: rest)
    (inside : s.rest <:+ i.span) :
    Agrees i s topItem (Parser.advance >>= fun _ => Source.topItem t) := by
  obtain ⟨first_eq, notEnd⟩ := Input.first_of_suffix isFirst inside
  apply agrees_of_current
  rw [first_eq, Source.topItem]
  cases t.kind with
  | globalName =>
    apply agrees_advance_bind inside (first_eq ▸ notEnd)
    exact (follows_globalParts t).bind fun _ => (follows_skipLine _).bind fun _ => follows_pure _
  | define =>
    have reads := agrees_func isFirst inside
    have item : Agrees i s (func >>= fun f? => pure ({ funcs := f?.toList } : Module))
        ((Parser.advance >>= fun _ => Parser.func t) >>= fun f? =>
          pure { funcs := f?.toList }) :=
      reads.bind (agrees_pure reads.2 _)
    exact item
  | _ =>
    have skips := agrees_skipLine_from isFirst inside
    have item : Agrees i s (skipLine t.line >>= fun _ => pure ({} : Module))
        ((Parser.advance >>= fun _ => Parser.skipLine t.line) >>= fun _ => pure {}) :=
      skips.bind (agrees_pure skips.2 _)
    exact item

/-- Reading a whole module. -/
theorem follows_wholeModule : Follows i wholeModule Parser.wholeModule := by
  have reads : Follows i (each (fun t => t.kind != .endOfFile) topItem)
      (Parser.each (fun _ => false) Source.topItem) := by
    refine follows_each ?_ ?_ fun s t rest => agrees_topItem
    · intro t notEnd
      simp [notEnd]
    · intro t isEnd
      simp [isEnd]
  exact reads.bind fun items => follows_pure _

end Grammar

end Walk

/-- Tokens are cut at the first end of a file. -/
theorem cut_eq {before : List Token} {final : Token} (notEnds : ∀ t ∈ before, t.kind ≠ .endOfFile)
    (isEnd : final.kind = .endOfFile) (after : List Token) :
    (before ++ final :: after).takeWhile (fun t => t.kind != .endOfFile) = before ∧
      (before ++ final :: after).find? (fun t => t.kind = .endOfFile) = some final := by
  constructor
  · rw [List.takeWhile_append_of_pos fun t isBefore => bne_iff_ne.mpr (notEnds t isBefore)]
    simp [isEnd]
  · rw [List.find?_eq_some_iff_append]
    exact ⟨by simp [isEnd], before, after, rfl, fun t isBefore => by simp [notEnds t isBefore]⟩

/-- Padded tokens have an end, and it is the one up to which they are read. -/
theorem exists_input {rounds : Nat} {tokens : List Token} (enough : tokens.length < rounds) :
    ∃ i : Input, i.tape = ⟨padded tokens, rounds⟩ ∧
      i.span = tokens.takeWhile (fun t => t.kind != .endOfFile) ∧
      i.final = (tokens.find? fun t => t.kind = .endOfFile).getD {} := by
  cases found : tokens.find? fun t => t.kind = .endOfFile with
  | some final =>
    obtain ⟨isEnd, before, after, rfl, notEnds⟩ := List.find?_eq_some_iff_append.mp found
    rw [decide_eq_true_eq] at isEnd
    have span_ne : ∀ t ∈ before, t.kind ≠ .endOfFile := fun t isBefore => by
      simpa using notEnds t isBefore
    have span_eq := (cut_eq span_ne isEnd after).1
    have span_lt : before.length < rounds := by
      rw [List.length_append] at enough
      omega
    rw [padded]
    split
    · exact ⟨⟨before, final, after, rounds, span_ne, isEnd, span_lt⟩, rfl, span_eq.symm, rfl⟩
    · refine ⟨⟨before, final, after ++ [({} : Token)], rounds, span_ne, isEnd, span_lt⟩, ?_,
        span_eq.symm, rfl⟩
      simp [Input.tape, Input.tokens]
  | none =>
    have span_ne : ∀ t ∈ tokens, t.kind ≠ .endOfFile := by
      simpa [List.find?_eq_none] using found
    have span_eq : tokens.takeWhile (fun t => t.kind != .endOfFile) = tokens := by
      have all := @List.takeWhile_append_of_pos Token (fun t => t.kind != .endOfFile) tokens []
        fun t inTokens => bne_iff_ne.mpr (span_ne t inTokens)
      simpa using all
    have padded_eq : padded tokens = tokens ++ [({} : Token)] := by
      rw [padded, if_neg]
      rw [Option.any_eq_true]
      rintro ⟨t, isLast, isEnd⟩
      exact span_ne t (List.mem_of_getLast? isLast) (by simpa using isEnd)
    rw [padded_eq]
    exact ⟨⟨tokens, ({} : Token), [], rounds, span_ne, rfl, enough⟩, rfl, span_eq.symm, rfl⟩

/-- A walk over tokens comes to what a parser gives. -/
theorem walkTokens?_eq {rounds : Nat} {tokens : List Token} {i : Input}
    (tape_eq : i.tape = ⟨padded tokens, rounds⟩) :
    walkTokens? rounds tokens = some ((Parser.wholeModule.run i.final { rest := i.span }).1,
      i.cursor (Parser.wholeModule.run i.final { rest := i.span }).2) := by
  have tokens_eq : i.tokens = padded tokens := congrArg Tape.tokens tape_eq
  have first_eq : (padded tokens)[0]? = some (i.span.headD i.final) := by
    rw [← tokens_eq, Input.tokens]
    cases i.span <;> rfl
  have start_eq : { current := i.span.headD i.final : Cursor } = i.cursor { rest := i.span } := by
    rw [Input.cursor, Nat.sub_self]
  have agrees : Walk.Agrees i { rest := i.span } Walk.wholeModule Parser.wholeModule :=
    Walk.follows_wholeModule _ (List.suffix_refl _)
  rw [walkTokens?, first_eq, Option.bind_some, start_eq, ← tape_eq]
  exact agrees.1

/-- What was read is a module unless there was something to complain about. -/
theorem parseTokens_eq {tokens span : List Token} {final : Token}
    (span_eq : span = tokens.takeWhile fun t => t.kind != .endOfFile)
    (final_eq : final = (tokens.find? fun t => t.kind = .endOfFile).getD {}) :
    parseTokens tokens =
      if (Parser.wholeModule.run final { rest := span }).2.complaints.isEmpty then
        .ok (Parser.wholeModule.run final { rest := span }).1
      else .error (Parser.wholeModule.run final { rest := span }).2.complaints := by
  rw [parseTokens, ← span_eq, ← final_eq]
  rfl

/-- **Every list of tokens is read to its end.** If a loop may take more rounds than there are
tokens, the walk over them has an outcome, which does not depend on the rounds. So the walk comes
to an end, and it looks at no token outside of the list. A parser gives the module if the walk has
nothing to complain about, and otherwise the complaints, all of which are errors. What follows the
first end of a file does not matter. -/
theorem parseTokens_total (tokens : List Token) :
    ∃ m c, (∀ rounds, tokens.length < rounds → walkTokens? rounds tokens = some (m, c)) ∧
      ((c.complaints = [] ∧ parseTokens tokens = .ok m) ∨
        (c.complaints ≠ [] ∧ parseTokens tokens = .error c.complaints ∧
          ∀ complaint ∈ c.complaints, complaint.diagnostic.severity = .error)) ∧
      ∀ before final after, tokens = before ++ final :: after → final.kind = .endOfFile →
        (∀ t ∈ before, t.kind ≠ .endOfFile) →
        (∀ rounds, before.length < rounds → walkTokens? rounds (before ++ [final]) = some (m, c)) ∧
          parseTokens (before ++ [final]) = parseTokens tokens := by
  obtain ⟨i, -, span_eq, final_eq⟩ := exists_input (Nat.lt_succ_self tokens.length)
  have parse_eq := parseTokens_eq span_eq final_eq
  refine ⟨(Parser.wholeModule.run i.final { rest := i.span }).1,
    i.cursor (Parser.wholeModule.run i.final { rest := i.span }).2, ?_, ?_, ?_⟩
  · intro rounds enough
    obtain ⟨j, tape_eq, span_eq', final_eq'⟩ := exists_input enough
    rw [walkTokens?_eq tape_eq, Input.cursor, Input.cursor, span_eq', final_eq', ← span_eq,
      ← final_eq]
  · rw [parse_eq, Input.cursor]
    cases (Parser.wholeModule.run i.final { rest := i.span }).2.complaints with
    | nil => exact .inl ⟨rfl, rfl⟩
    | cons complaint later => exact .inr ⟨by simp, rfl, fun _ _ => rfl⟩
  · rintro before final after rfl isEnd notEnds
    have cut := cut_eq notEnds isEnd after
    rw [cut.1] at span_eq
    rw [cut.2, Option.getD_some] at final_eq
    constructor
    · intro rounds enough
      -- What was removed is not a part of the cursor.
      have tape_eq : Input.tape ⟨before, final, [], rounds, notEnds, isEnd, enough⟩ =
          ⟨padded (before ++ [final]), rounds⟩ := by
        rw [padded, if_pos (by simp [isEnd])]
        rfl
      rw [walkTokens?_eq tape_eq, Input.cursor, Input.cursor, span_eq, final_eq]
    · have cut' := cut_eq notEnds isEnd []
      have short_eq := @parseTokens_eq (before ++ [final]) before final cut'.1.symm
        (by rw [cut'.2]; rfl)
      rw [parse_eq, short_eq, span_eq, final_eq]

/-- A function on lines in no order, and after the end of the file the start of another one. -/
def ragged : List Token :=
  [{ kind := .define, line := -1 }, { kind := .globalName, text := "f", line := -1 },
    { kind := .leftBrace, line := 9 }, { kind := .ident, text := "ret", line := 0 },
    { kind := .void, line := 0 }, { kind := .rightBrace, line := -5 }, ({} : Token),
    { kind := .define, line := 3 }, { kind := .rightBrace, line := 3 }]

/-- The module that is read from them. -/
def raggedModule : Module :=
  { funcs := [{ name := "f", blocks := [{ label := "fEntry", body := [{ opcode := .ret }] }] }] }

theorem parseTokens_total_ragged :
    (∀ rounds, 9 < rounds → (walkTokens? rounds ragged).map (·.1) = some raggedModule) ∧
      parseTokens ragged = .ok raggedModule ∧ parseTokens (ragged.take 7) = .ok raggedModule := by
  have walked : (walkTokens? 10 ragged).map (fun out => (out.1, out.2.complaints)) =
      some (raggedModule, []) := by decide
  obtain ⟨m, c, walk_eq, outcome, cut⟩ := parseTokens_total ragged
  have short := (cut (ragged.take 6) {} (ragged.drop 7) rfl rfl (by decide)).2
  have out_eq : m = raggedModule ∧ c.complaints = [] := by
    simpa [walk_eq 10 (by decide)] using walked
  obtain ⟨-, parsed⟩ | ⟨dirty, -⟩ := outcome
  · rw [out_eq.1] at parsed walk_eq
    refine ⟨fun rounds enough => ?_, parsed, short.trans parsed⟩
    rw [walk_eq rounds enough]
    rfl
  · exact absurd out_eq.2 dirty

end RiscBackend.Source
