/-
# Parsers over tokens

A parser reads a stream of tokens from the front. It collects complaints instead
of failing, so that one run reports every fault of a text. The type of parsers
records that the stream never grows, which is what makes repetition terminate.
-/

import RiscBackend.Source.Lexer

namespace RiscBackend.Source

/-- The tokens still to be read, the token read last, and the complaints so far. -/
structure Stream where
  previous : Token := {}
  rest : List Token
  complaints : List Complaint := []
  deriving Repr

/-- A parser takes the token that stands for the end of the input and a stream;
it gives a value and a stream that is not longer. -/
def Parser (α : Type) : Type :=
  (final : Token) → (s : Stream) → { out : α × Stream // out.2.rest.length ≤ s.rest.length }

namespace Parser

/-- The value and the stream that a parser gives. -/
def run {α : Type} (p : Parser α) (final : Token) (s : Stream) : α × Stream :=
  (p final s).val

instance : Monad Parser where
  pure a := fun _ s => ⟨(a, s), Nat.le_refl _⟩
  bind p f := fun final s =>
    let first := p final s
    let second := f first.val.1 final first.val.2
    ⟨second.val, Nat.le_trans second.property first.property⟩

/-- The next token, or the end of the input. -/
def current : Parser Token := fun final s =>
  ⟨(s.rest.headD final, s), Nat.le_refl _⟩

/-- The token read last. -/
def previous : Parser Token := fun _ s =>
  ⟨(s.previous, s), Nat.le_refl _⟩

/-- Record a complaint. -/
def report (token : Token) (fault : SyntaxFault) : Parser Unit := fun _ s =>
  ⟨((), { s with complaints := s.complaints ++ [{ token, fault }] }), Nat.le_refl _⟩

/-- Drop the tokens at the front that satisfy a test; the last of them becomes
the token read last. -/
def dropTokens (test : Token → Bool) : Token → List Token → Token × List Token
  | previous, [] => (previous, [])
  | previous, t :: rest => if test t then dropTokens test t rest else (previous, t :: rest)

/-- Dropping tokens does not lengthen the stream. -/
theorem dropTokens_length_le (test : Token → Bool) (previous : Token) (rest : List Token) :
    (dropTokens test previous rest).2.length ≤ rest.length := by
  induction rest generalizing previous with
  | nil => exact Nat.le_refl _
  | cons t rest ih =>
    unfold dropTokens
    split
    · exact Nat.le_succ_of_le (ih t)
    · exact Nat.le_refl _

/-- Read tokens while they satisfy a test. -/
def skipWhile (test : Token → Bool) : Parser Unit := fun _ s =>
  let left := dropTokens test s.previous s.rest
  ⟨((), { s with previous := left.1, rest := left.2 }), dropTokens_length_le _ _ _⟩

/-- Read one token, unless the input is at its end. -/
def advance : Parser Unit := fun _ s =>
  match h : s.rest with
  | [] => ⟨((), s), by simp [h]⟩
  | t :: rest => ⟨((), { s with previous := t, rest }), by simp⟩

/-- Read a token of one of the accepted classes, if it comes next. -/
def accept (test : TokenKind → Bool) : Parser Bool := do
  if test (← current).kind then
    advance
    return true
  return false

/-- Read a required mark, or complain about what stands in its place. -/
def require (what : Requirement) : Parser Bool := do
  let found ← current
  if found.kind = what.kind then
    advance
    return true
  report found (.required what found.kind)
  return false

/-- Whether the next token is on a given line. -/
def onLine (line : Int) : Parser Bool := do
  let next ← current
  return next.kind != .endOfFile && next.line = line

/-- Read the tokens that remain on a line. -/
def skipLine (line : Int) : Parser Unit :=
  skipWhile fun t => t.line = line

/-- Read items until a token stops the repetition or the input ends. Each item
is given its first token, already read. -/
def each {α : Type} (stop : Token → Bool) (item : Token → Parser α) : Parser (List α) :=
  fun final s =>
    match h : s.rest with
    | [] => ⟨([], s), by simp [h]⟩
    | t :: rest =>
      if stop t then ⟨([], s), by simp [h]⟩
      else
        let first := item t final { s with previous := t, rest }
        have shorter : first.val.2.rest.length < s.rest.length := by
          have bound := first.property
          simp only [h, List.length_cons]
          exact Nat.lt_succ_of_le bound
        let later := each stop item final first.val.2
        ⟨(first.val.1 :: later.val.1, later.val.2), by
          have bound := Nat.le_trans later.property (Nat.le_of_lt shorter)
          simpa only [h] using bound⟩
termination_by _ s => s.rest.length

end Parser

end RiscBackend.Source
