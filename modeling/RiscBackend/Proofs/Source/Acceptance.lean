/-
# What parsers yield

A parser of instructions checks what it has read, and yields nothing when the check fails. So the
instructions of a module that was read from a text pass the check, whatever the text was and
whatever there was to complain about.
-/

import RiscBackend.Proofs.IR.Checked
import RiscBackend.Source.Grammar

namespace RiscBackend.Source

open IR (Operand Opcode Instruction Block Func Module)

namespace Parser

variable {α β : Type} {p : Parser α} {good : α → Prop} {fine : β → Prop}

/-- All values that a parser can give are good. -/
def Yields (p : Parser α) (good : α → Prop) : Prop :=
  ∀ final s, good (p.run final s).1

theorem yields_pure {a : α} (isGood : good a) : Yields (pure a) good :=
  fun _ _ => isGood

theorem Yields.bind {next : α → Parser β} (first : Yields p good)
    (second : ∀ a, good a → Yields (next a) fine) : Yields (p >>= next) fine :=
  fun final s => second _ (first final s) final (p.run final s).2

/-- What a parser gives may not matter. -/
theorem yields_bind {next : α → Parser β} (second : ∀ a, Yields (next a) fine) :
    Yields (p >>= next) fine :=
  fun final s => second _ final (p.run final s).2

theorem Yields.ite {c : Prop} [Decidable c] {q : Parser α} (first : Yields p good)
    (second : Yields q good) : Yields (if c then p else q) good := by
  split
  · exact first
  · exact second

/-- Items that are good one by one are all good. -/
theorem yields_each {stop : Token → Bool} {item : Token → Parser α}
    (one : ∀ t, Yields (item t) good) : Yields (each stop item) fun items => ∀ a ∈ items, good a := by
  intro final s
  obtain ⟨previous, rest, complaints⟩ := s
  induction remaining : rest.length using Nat.strongRecOn generalizing previous rest complaints with
  | _ remaining ih =>
    cases rest with
    | nil =>
      rw [run, each]
      simp
    | cons t rest =>
      rw [run, each]
      dsimp only
      split
      · simp
      · have shorter := (item t final { previous := t, rest, complaints }).property
        refine List.forall_mem_cons.mpr ⟨one t final _, ?_⟩
        refine ih _ ?_ _ _ _ rfl
        rw [← remaining, List.length_cons]
        exact Nat.lt_succ_of_le shorter

/-- All instructions that may have been read pass the check. -/
def PassesCheck (i? : Option Instruction) : Prop :=
  ∀ i ∈ i?, i.check = .ok ()

theorem passesCheck_none : PassesCheck none := nofun

/-- An operation with operands is checked. -/
theorem yields_operation (line : Int) (result : Option String) (token : Token) :
    Yields (operation line result token) PassesCheck := by
  refine yields_bind fun args? => ?_
  cases args? with
  | none => exact yields_pure passesCheck_none
  | some args =>
    dsimp only
    split
    · rename_i passes
      refine yields_pure fun i isRead => ?_
      cases isRead
      exact passes
    · exact yields_bind fun _ => yields_pure passesCheck_none

theorem yields_instruction (start : Token) : Yields (instruction start) PassesCheck := by
  have parts : Yields (instructionParts start) PassesCheck := by
    rw [instructionParts]
    split
    · refine yields_bind fun found => .ite (yields_pure passesCheck_none) ?_
      refine yields_bind fun token => .ite ?_ ?_
      · exact yields_bind fun _ => yields_operation _ _ token
      · exact yields_bind fun _ => yields_pure passesCheck_none
    · exact yields_operation _ _ start
    · exact yields_bind fun _ => yields_pure passesCheck_none
  exact parts.bind fun i passes => yields_bind fun _ => yields_pure passes

end Parser

namespace BodyItem

/-- The instruction on a line, if there is one, passes the check. -/
def PassesCheck : BodyItem → Prop
  | label _ => True
  | instruction i? => Parser.PassesCheck i?

theorem yields_read (start : Token) : Parser.Yields (read start) PassesCheck := by
  refine Parser.yields_bind fun next => .ite ?_ ?_
  · exact Parser.yields_bind fun _ => Parser.yields_pure trivial
  · exact (Parser.yields_instruction start).bind fun i passes => Parser.yields_pure passes

/-- The instructions of lines are those of the part before the first label and of the blocks. -/
theorem checked_split {items : List BodyItem} (pass : ∀ item ∈ items, item.PassesCheck) :
    (∀ i ∈ (split items).1, i.check = .ok ()) ∧
      ∀ b ∈ (split items).2, ∀ i ∈ b.body, i.check = .ok () := by
  induction items with
  | nil => simp [split]
  | cons item rest ih =>
    rw [List.forall_mem_cons] at pass
    obtain ⟨body, blocks⟩ := ih pass.2
    cases item with
    | label name => exact ⟨by simp [split], List.forall_mem_cons.mpr ⟨body, blocks⟩⟩
    | instruction i? =>
      refine ⟨fun i isMember => ?_, blocks⟩
      rcases List.mem_append.mp isMember with isRead | isLater
      · exact pass.1 i (Option.mem_toList.mp isRead)
      · exact body i isLater

theorem checked_blocks (function : String) {items : List BodyItem}
    (pass : ∀ item ∈ items, item.PassesCheck) :
    ∀ b ∈ blocks function items, ∀ i ∈ b.body, i.check = .ok () := by
  obtain ⟨body, later⟩ := checked_split pass
  rw [blocks]
  dsimp only
  split
  · exact later
  · exact List.forall_mem_cons.mpr ⟨body, later⟩

end BodyItem

/-- The functions that were read have checked instructions. -/
theorem Parser.yields_func (start : Token) :
    Yields (func start) fun f? => ∀ f ∈ f?, ∀ b ∈ f.blocks, ∀ i ∈ b.body, i.check = .ok () := by
  refine yields_bind fun _ => yields_bind fun name => .ite ?_ ?_
  · exact yields_bind fun _ => yields_bind fun _ => yields_pure nofun
  · refine yields_bind fun _ => yields_bind fun _ => yields_bind fun found =>
      .ite (yields_pure nofun) ?_
    refine (yields_each BodyItem.yields_read).bind fun items pass => yields_bind fun _ => ?_
    refine yields_pure fun f isRead => ?_
    cases isRead
    exact BodyItem.checked_blocks name.text pass

theorem yields_topItem (start : Token) : Parser.Yields (topItem start) Module.Checked := by
  rw [topItem]
  split
  · exact Parser.yields_bind fun g => Parser.yields_bind fun _ => Parser.yields_pure nofun
  · refine (Parser.yields_func start).bind fun f? checked => Parser.yields_pure fun f isRead => ?_
    exact checked f (Option.mem_toList.mp isRead)
  · exact Parser.yields_bind fun _ => Parser.yields_pure nofun

theorem checked_of_parseTokens {tokens : List Token} {m : Module}
    (accepted : parseTokens tokens = .ok m) : m.Checked := by
  rw [parseTokens] at accepted
  dsimp only at accepted
  split at accepted
  · cases accepted
    intro f inModule
    obtain ⟨item, isItem, inItem⟩ := List.mem_flatMap.mp inModule
    exact Parser.yields_each yields_topItem _ _ item isItem f inItem
  · cases accepted

/-- **What is read from a text passes the check.** -/
theorem checked_of_parse {file : Int} {text : String} {m : Module}
    (accepted : parse file text = .ok m) : m.Checked := by
  rw [parse] at accepted
  split at accepted
  · exact checked_of_parseTokens accepted
  · cases accepted

end RiscBackend.Source
