/-
# Reading tokens that stand alike

The grammar asks for the class and the text of a token and for whether two tokens share a line. It
does not ask where on its line a token stands, nor how far apart two lines are. So two lists of
tokens of the same classes and texts are read to the same module, or to the same faults, if the
lines of the one are those of the other under a map that keeps different lines apart.

Both runs of a parser are compared step by step: from streams that are alike it comes to values
that are related and to streams that are alike again. The token read last plays no part, since it
is only ever the place of a complaint.
-/

import Mathlib.Data.List.Forall2
import RiscBackend.Source.Grammar

namespace RiscBackend.Source

open IR (Operand Opcode Instruction Func Global Module)

/-- The tokens have one class and one text, and the line of the first is moved to that of the
second. -/
structure Token.Alike (moved : Int → Int) (t t' : Token) : Prop where
  kind_eq : t'.kind = t.kind
  text_eq : t'.text = t.text
  line_eq : t'.line = moved t.line

/-- The tokens still to be read are alike, and the faults so far are the same. -/
structure Stream.Alike (moved : Int → Int) (s s' : Stream) : Prop where
  rest : List.Forall₂ (Token.Alike moved) s.rest s'.rest
  faults : s'.complaints.map Complaint.fault = s.complaints.map Complaint.fault

/-- Different lines are kept apart, so both tokens are on a line or neither is. -/
theorem Token.Alike.onLine_eq {moved : Int → Int} {t t' : Token} (alike : t.Alike moved t')
    (injective : Function.Injective moved) (line : Int) :
    decide (t'.line = moved line) = decide (t.line = line) := by
  rw [alike.line_eq, decide_eq_decide]
  exact injective.eq_iff

namespace Parser

variable {α β : Type} {moved : Int → Int} {same : α → α → Prop} {same' : β → β → Prop}

/-- From streams that are alike, two parsers come to values that are the `same` in some sense and
to streams that are alike. -/
def Mirrors (moved : Int → Int) (same : α → α → Prop) (p p' : Parser α) : Prop :=
  ∀ ⦃final final' : Token⦄ ⦃s s' : Stream⦄, final.Alike moved final' → s.Alike moved s' →
    same (p.run final s).1 (p'.run final' s').1 ∧
      (p.run final s).2.Alike moved (p'.run final' s').2

section Rules

theorem mirrors_pure {a a' : α} (related : same a a') : Mirrors moved same (pure a) (pure a') :=
  fun _ _ _ _ _ alike => ⟨related, alike⟩

theorem mirrors_rfl (a : α) : Mirrors moved Eq (pure a) (pure a) :=
  mirrors_pure rfl

theorem Mirrors.bind {p p' : Parser α} {next next' : α → Parser β} (first : Mirrors moved same p p')
    (second : ∀ a a', same a a' → Mirrors moved same' (next a) (next' a')) :
    Mirrors moved same' (p >>= next) (p' >>= next') := by
  intro final final' s s' ends alike
  obtain ⟨related, alike'⟩ := first ends alike
  exact second _ _ related ends alike'

/-- A value that is the same for both can be named once. -/
theorem Mirrors.bindEq {p p' : Parser α} {next next' : α → Parser β} (first : Mirrors moved Eq p p')
    (second : ∀ a, Mirrors moved same' (next a) (next' a)) :
    Mirrors moved same' (p >>= next) (p' >>= next') := by
  refine first.bind fun a a' related => ?_
  cases related
  exact second a

theorem mirrors_current : Mirrors moved (Token.Alike moved) current current := by
  rintro final final' ⟨previous, rest, complaints⟩ ⟨previous', rest', complaints'⟩ ends alike
  refine ⟨?_, alike⟩
  obtain ⟨alike, -⟩ := alike
  cases alike with
  | nil => exact ends
  | cons first _ => exact first

theorem mirrors_previous : Mirrors moved (fun _ _ => True) previous previous :=
  fun _ _ _ _ _ alike => ⟨trivial, alike⟩

/-- A fault is a fault wherever it is found. -/
theorem mirrors_report (token token' : Token) (fault : SyntaxFault) :
    Mirrors moved Eq (report token fault) (report token' fault) := by
  intro final final' s s' _ alike
  refine ⟨rfl, alike.rest, ?_⟩
  show (s'.complaints ++ [_]).map _ = (s.complaints ++ [_]).map _
  rw [List.map_append, List.map_append, alike.faults]
  rfl

theorem mirrors_complaint (token token' : Token) (fault : SyntaxFault) (a : α) :
    Mirrors moved Eq (report token fault >>= fun _ => pure a)
      (report token' fault >>= fun _ => pure a) :=
  (mirrors_report token token' fault).bindEq fun _ => mirrors_rfl a

theorem alike_dropTokens {test test' : Token → Bool}
    (agree : ∀ t t', t.Alike moved t' → test' t' = test t) {rest rest' : List Token}
    (alike : List.Forall₂ (Token.Alike moved) rest rest') (previous previous' : Token) :
    List.Forall₂ (Token.Alike moved) (dropTokens test previous rest).2
      (dropTokens test' previous' rest').2 := by
  induction alike generalizing previous previous' with
  | nil => exact .nil
  | @cons t t' rest rest' first later ih =>
    rw [dropTokens, dropTokens, agree t t' first]
    split
    · exact ih t t'
    · exact .cons first later

theorem mirrors_skipWhile {test test' : Token → Bool}
    (agree : ∀ t t', t.Alike moved t' → test' t' = test t) :
    Mirrors moved Eq (skipWhile test) (skipWhile test') :=
  fun _ _ _ _ _ alike => ⟨rfl, alike_dropTokens agree alike.rest _ _, alike.faults⟩

/-- A test of the class alone gives the same for both. -/
theorem mirrors_skipKinds (test : TokenKind → Bool) :
    Mirrors moved Eq (skipWhile fun t => test t.kind) (skipWhile fun t => test t.kind) :=
  mirrors_skipWhile fun t t' alike => by rw [alike.kind_eq]

theorem mirrors_advance : Mirrors moved Eq advance advance := by
  rintro final final' ⟨previous, rest, complaints⟩ ⟨previous', rest', complaints'⟩ _ ⟨alike, faults⟩
  cases alike with
  | nil => exact ⟨rfl, .nil, faults⟩
  | cons _ later => exact ⟨rfl, later, faults⟩

theorem mirrors_accept (test : TokenKind → Bool) : Mirrors moved Eq (accept test) (accept test) := by
  refine mirrors_current.bind fun t t' alike => ?_
  rw [alike.kind_eq]
  split
  · exact mirrors_advance.bindEq fun _ => mirrors_rfl true
  · exact mirrors_rfl false

theorem mirrors_require (what : Requirement) : Mirrors moved Eq (require what) (require what) := by
  refine mirrors_current.bind fun t t' alike => ?_
  rw [alike.kind_eq]
  split
  · exact mirrors_advance.bindEq fun _ => mirrors_rfl true
  · exact mirrors_complaint t t' _ false

/-- Items are read alike if each of them is, one item for each first token. -/
theorem mirrors_each {stop stop' : Token → Bool} {item item' : Token → Parser α}
    (agree : ∀ t t', t.Alike moved t' → stop' t' = stop t)
    (one : ∀ t t', t.Alike moved t' → Mirrors moved Eq (item t) (item' t')) :
    Mirrors moved Eq (each stop item) (each stop' item') := by
  rintro final final' ⟨previous, rest, complaints⟩ ⟨previous', rest', complaints'⟩ ends alike
  induction remaining : rest.length using Nat.strongRecOn
    generalizing previous rest complaints previous' rest' complaints' with
  | _ remaining ih =>
    obtain ⟨alike, faults⟩ := alike
    cases alike with
    | nil =>
      rw [run, run, each, each]
      exact ⟨rfl, .nil, faults⟩
    | @cons t t' rest rest' first later =>
      rw [run, run, each, each]
      dsimp only
      rw [agree t t' first]
      split
      · exact ⟨rfl, .cons first later, faults⟩
      · have shorter := (item t final ⟨t, rest, complaints⟩).property
        have begins : Stream.Alike moved ⟨t, rest, complaints⟩ ⟨t', rest', complaints'⟩ :=
          ⟨later, faults⟩
        obtain ⟨item_eq, alike'⟩ := one t t' first ends begins
        obtain ⟨items_eq, alike''⟩ := ih _ (by
          rw [← remaining, List.length_cons]
          exact Nat.lt_succ_of_le shorter) _ _ _ _ _ _ alike' rfl
        exact ⟨congrArg₂ List.cons item_eq items_eq, alike''⟩

end Rules

section Grammar

theorem mirrors_skipTypes : Mirrors moved Eq skipTypes skipTypes :=
  mirrors_skipKinds fun kind => kind.isValueType || kind = .star

theorem mirrors_word {t t' : Token} (alike : t.Alike moved t') :
    Mirrors moved Eq (word t) (word t') := by
  rw [word, word, alike.text_eq]
  cases Text.readInt t.text with
  | none => exact mirrors_complaint t t' _ none
  | some value =>
    dsimp only
    split
    · exact mirrors_rfl _
    · exact mirrors_complaint t t' _ none

variable (injective : Function.Injective moved)
include injective

theorem mirrors_onLine (line : Int) : Mirrors moved Eq (onLine line) (onLine (moved line)) := by
  refine mirrors_current.bind fun t t' alike => mirrors_pure ?_
  rw [alike.kind_eq, alike.onLine_eq injective]

theorem mirrors_skipLine (line : Int) : Mirrors moved Eq (skipLine line) (skipLine (moved line)) :=
  mirrors_skipWhile fun _ _ alike => alike.onLine_eq injective line

theorem mirrors_operand (line : Int) : Mirrors moved Eq (operand line) (operand (moved line)) := by
  refine (mirrors_onLine injective line).bindEq fun isOn => ?_
  cases isOn with
  | false => exact mirrors_previous.bind fun t t' _ => mirrors_complaint t t' _ none
  | true =>
    refine mirrors_current.bind fun t t' alike => ?_
    rw [alike.kind_eq, alike.text_eq]
    cases t.kind with
    | number =>
      refine (mirrors_word alike).bindEq fun value? => ?_
      cases value? with
      | none => exact mirrors_rfl none
      | some value => exact mirrors_advance.bindEq fun _ => mirrors_rfl _
    | localName | globalName => exact mirrors_advance.bindEq fun _ => mirrors_rfl _
    | _ => exact mirrors_complaint t t' _ none

theorem mirrors_typedOperand (line : Int) :
    Mirrors moved Eq (typedOperand line) (typedOperand (moved line)) :=
  mirrors_skipTypes.bindEq fun _ => mirrors_operand injective line

omit injective in
theorem mirrors_operandPair {first first' second second' : Parser (Option Operand)}
    (comma : Requirement) (mirrors : Mirrors moved Eq first first')
    (mirrors' : Mirrors moved Eq second second') :
    Mirrors moved Eq (operandPair first second comma) (operandPair first' second' comma) := by
  refine mirrors.bindEq fun a? => ?_
  cases a? with
  | none => exact mirrors_rfl none
  | some a =>
    refine (mirrors_require comma).bindEq fun found => ?_
    cases found with
    | false => exact mirrors_rfl none
    | true =>
      refine mirrors'.bindEq fun b? => ?_
      cases b? with
      | none => exact mirrors_rfl none
      | some b => exact mirrors_rfl _

theorem mirrors_operands (line : Int) (opcode : Opcode) :
    Mirrors moved Eq (operands line opcode) (operands (moved line) opcode) := by
  have typed := mirrors_typedOperand injective line
  have single : Mirrors moved Eq (typedOperand line >>= fun a? => pure (a?.map ([·])))
      (typedOperand (moved line) >>= fun a? => pure (a?.map ([·]))) :=
    typed.bindEq fun a? => mirrors_rfl _
  cases opcode with
  | ret =>
    refine (mirrors_accept _).bindEq fun isVoid => ?_
    cases isVoid with
    | true => exact mirrors_rfl _
    | false => exact single
  | load =>
    refine mirrors_skipTypes.bindEq fun _ => (mirrors_require _).bindEq fun found => ?_
    cases found with
    | false => exact mirrors_rfl none
    | true => exact single
  | store => exact mirrors_operandPair _ typed typed
  | arith op =>
    refine (mirrors_skipKinds fun kind => kind = .ident).bindEq fun _ => ?_
    exact mirrors_operandPair _ typed (mirrors_operand injective line)
  | alloca | other | unlisted => exact mirrors_rfl _

theorem mirrors_operation (line : Int) (result : Option String) {t t' : Token}
    (alike : t.Alike moved t') :
    Mirrors moved Eq (operation line result t) (operation (moved line) result t') := by
  rw [operation, operation, alike.text_eq]
  refine (mirrors_operands injective line _).bindEq fun args? => ?_
  cases args? with
  | none => exact mirrors_rfl none
  | some args =>
    dsimp only
    cases Instruction.check { opcode := Opcode.ofName t.text, result, args } with
    | ok => exact mirrors_rfl _
    | error fault => exact mirrors_complaint t t' _ none

theorem mirrors_instructionParts {t t' : Token} (alike : t.Alike moved t') :
    Mirrors moved Eq (instructionParts t) (instructionParts t') := by
  rw [instructionParts, instructionParts, alike.kind_eq, alike.text_eq, alike.line_eq]
  cases t.kind with
  | localName =>
    refine (mirrors_require _).bindEq fun found => ?_
    cases found with
    | false => exact mirrors_rfl none
    | true =>
      refine mirrors_current.bind fun u u' alike' => ?_
      rw [alike'.kind_eq]
      split
      · exact mirrors_advance.bindEq fun _ => mirrors_operation injective _ _ alike'
      · exact mirrors_complaint u u' _ none
  | ident => exact mirrors_operation injective _ _ alike
  | _ => exact mirrors_complaint t t' _ none

theorem mirrors_instruction {t t' : Token} (alike : t.Alike moved t') :
    Mirrors moved Eq (instruction t) (instruction t') := by
  rw [instruction, instruction, alike.line_eq]
  refine (mirrors_instructionParts injective alike).bindEq fun i? => ?_
  exact (mirrors_skipLine injective _).bindEq fun _ => mirrors_rfl i?

theorem mirrors_read {t t' : Token} (alike : t.Alike moved t') :
    Mirrors moved Eq (BodyItem.read t) (BodyItem.read t') := by
  rw [BodyItem.read, BodyItem.read]
  refine mirrors_current.bind fun u u' alike' => ?_
  rw [alike.kind_eq, alike'.kind_eq, alike.text_eq, alike.line_eq,
    alike'.onLine_eq injective]
  split
  · exact mirrors_advance.bindEq fun _ => mirrors_rfl _
  · exact (mirrors_instruction injective alike).bindEq fun i? => mirrors_rfl _

theorem mirrors_globalParts {t t' : Token} (alike : t.Alike moved t') :
    Mirrors moved Eq (globalParts t) (globalParts t') := by
  have skips : Mirrors moved Eq
      (skipWhile fun u => u.line = t.line && u.kind != .global && u.kind != .constant)
      (skipWhile fun u => u.line = moved t.line && u.kind != .global && u.kind != .constant) := by
    refine mirrors_skipWhile fun u u' alike' => ?_
    rw [alike'.kind_eq, alike'.onLine_eq injective]
  rw [globalParts, globalParts, alike.text_eq, alike.line_eq]
  refine (mirrors_require _).bindEq fun found => ?_
  cases found with
  | false => exact mirrors_rfl none
  | true =>
    refine skips.bindEq fun _ => (mirrors_accept _).bindEq fun found => ?_
    cases found with
    | false => exact mirrors_complaint t t' _ none
    | true =>
      refine mirrors_skipTypes.bindEq fun _ => mirrors_current.bind fun u u' alike' => ?_
      rw [alike'.kind_eq, alike'.text_eq]
      split
      · refine (mirrors_word alike').bindEq fun value? => ?_
        cases value? with
        | none => exact mirrors_rfl none
        | some value => exact mirrors_advance.bindEq fun _ => mirrors_rfl _
      · split
        · exact mirrors_advance.bindEq fun _ => mirrors_rfl _
        · exact mirrors_complaint u u' _ none

theorem mirrors_func {t t' : Token} (alike : t.Alike moved t') :
    Mirrors moved Eq (func t) (func t') := by
  have skips : Mirrors moved Eq (skipWhile fun u => u.kind != .globalName && u.line = t.line)
      (skipWhile fun u => u.kind != .globalName && u.line = moved t.line) := by
    refine mirrors_skipWhile fun u u' alike' => ?_
    rw [alike'.kind_eq, alike'.onLine_eq injective]
  have body : Mirrors moved Eq (each (fun u => u.kind = .rightBrace) BodyItem.read)
      (each (fun u => u.kind = .rightBrace) BodyItem.read) := by
    refine mirrors_each (fun u u' alike' => ?_) fun u u' => mirrors_read injective
    rw [alike'.kind_eq]
  rw [func, func, alike.line_eq]
  refine skips.bindEq fun _ => mirrors_current.bind fun u u' alike' => ?_
  rw [alike'.kind_eq, alike'.text_eq]
  split
  · refine (mirrors_report t t' _).bindEq fun _ => ?_
    exact (mirrors_skipLine injective _).bindEq fun _ => mirrors_rfl none
  · refine mirrors_advance.bindEq fun _ => ?_
    refine (mirrors_skipKinds fun kind => kind != .leftBrace).bindEq fun _ => ?_
    refine (mirrors_require _).bindEq fun found => ?_
    cases found with
    | false => exact mirrors_rfl none
    | true =>
      refine body.bindEq fun items => (mirrors_require _).bindEq fun _ => ?_
      exact mirrors_rfl _

theorem mirrors_topItem {t t' : Token} (alike : t.Alike moved t') :
    Mirrors moved Eq (topItem t) (topItem t') := by
  rw [topItem, topItem, alike.kind_eq, alike.line_eq]
  have passes : Mirrors moved Eq (skipLine t.line >>= fun _ => pure ({} : Module))
      (skipLine (moved t.line) >>= fun _ => pure {}) :=
    (mirrors_skipLine injective t.line).bindEq fun _ => mirrors_rfl _
  cases t.kind with
  | globalName =>
    refine (mirrors_globalParts injective alike).bindEq fun g? => ?_
    exact (mirrors_skipLine injective t.line).bindEq fun _ => mirrors_rfl _
  | define => exact (mirrors_func injective alike).bindEq fun f? => mirrors_rfl _
  | _ => exact passes

end Grammar

end Parser

/-- What is wrong, without the places. -/
def faults (complaints : List Complaint) : List SyntaxFault :=
  complaints.map Complaint.fault

section Tokens

variable {moved : Int → Int} {tokens tokens' : List Token}

/-- The tokens before the end of a file are alike. -/
theorem alike_takeWhile (alike : List.Forall₂ (Token.Alike moved) tokens tokens') :
    List.Forall₂ (Token.Alike moved) (tokens.takeWhile fun t => t.kind != .endOfFile)
      (tokens'.takeWhile fun t => t.kind != .endOfFile) := by
  induction alike with
  | nil => exact .nil
  | cons first _ ih =>
    rw [List.takeWhile_cons, List.takeWhile_cons, first.kind_eq]
    split
    · exact .cons first ih
    · exact .nil

/-- The ends of the files are alike. Without one, the input ends nowhere in both. -/
theorem alike_final (alike : List.Forall₂ (Token.Alike moved) tokens tokens')
    (nowhere : moved 0 = 0) :
    ((tokens.find? fun t => t.kind = .endOfFile).getD {}).Alike moved
      ((tokens'.find? fun t => t.kind = .endOfFile).getD {}) := by
  induction alike with
  | nil => exact ⟨rfl, rfl, nowhere.symm⟩
  | cons first _ ih =>
    rw [List.find?_cons, List.find?_cons, first.kind_eq]
    split
    · exact first
    · exact ih

/-- **Tokens that stand alike are read alike**: to the same module, or to the same faults. -/
theorem parseTokens_alike (injective : Function.Injective moved) (nowhere : moved 0 = 0)
    (alike : List.Forall₂ (Token.Alike moved) tokens tokens') :
    (parseTokens tokens').mapError faults = (parseTokens tokens).mapError faults := by
  have items : Parser.Mirrors moved Eq (Parser.each (fun _ => false) topItem)
      (Parser.each (fun _ => false) topItem) :=
    Parser.mirrors_each (fun _ _ _ => rfl) fun _ _ => Parser.mirrors_topItem injective
  have begins : Stream.Alike moved { rest := tokens.takeWhile fun t => t.kind != .endOfFile }
      { rest := tokens'.takeWhile fun t => t.kind != .endOfFile } :=
    ⟨alike_takeWhile alike, rfl⟩
  obtain ⟨items_eq, left⟩ := items (alike_final alike nowhere) begins
  rw [parseTokens, parseTokens]
  dsimp only
  rw [← items_eq]
  have isEmpty_eq := congrArg List.isEmpty left.faults
  rw [List.isEmpty_map, List.isEmpty_map] at isEmpty_eq
  rw [isEmpty_eq]
  split
  · rfl
  · exact congrArg Except.error left.faults

end Tokens

end RiscBackend.Source
