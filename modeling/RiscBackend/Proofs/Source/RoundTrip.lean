/-
# Modules are read back from their text

The canonical text of a module is cut into rows of tokens, and the parser turns the rows
back into the items of the module: one row into a global, the rows from a header to a
closing brace into a function.
-/

import RiscBackend.Proofs.Source.Reading
import RiscBackend.Proofs.Source.Spelled

namespace RiscBackend.Source

open IR (Operand Opcode Instruction Block Func Global)

section Lists

variable {α β γ : Type}

theorem exists_between {R : α → β → Prop} {S : β → γ → Prop} {first : List α} {last : List γ}
    (related : List.Forall₂ (fun a c => ∃ b, R a b ∧ S b c) first last) :
    ∃ middle, List.Forall₂ R first middle ∧ List.Forall₂ S middle last := by
  induction related with
  | nil => exact ⟨[], .nil, .nil⟩
  | cons head _ ih =>
    obtain ⟨b, left, right⟩ := head
    obtain ⟨middle, lefts, rights⟩ := ih
    exact ⟨b :: middle, .cons left lefts, .cons right rights⟩

theorem forall₂_mapIdx_map {R : β → γ → Prop} {f : Nat → α → β} {g : α → γ} {l : List α}
    (related : ∀ k, ∀ a ∈ l, R (f k a) (g a)) : List.Forall₂ R (l.mapIdx f) (l.map g) := by
  induction l generalizing f with
  | nil => exact .nil
  | cons a rest ih =>
    rw [List.mapIdx_cons, List.map_cons]
    refine .cons (related 0 a List.mem_cons_self) (ih fun k b inRest => ?_)
    exact related (k + 1) b (List.mem_cons_of_mem a inRest)

end Lists

/-- The line is read as a line of a body. -/
def LineOf (line : String) (item : BodyItem) : Prop :=
  ∃ tags, Spells line.toList tags ∧ Parser.ReadsLine tags item

/-- The lines are read as one item of the top level. -/
def LinesOf (lines : List String) (item : IR.Module) : Prop :=
  ∃ tags, List.Forall₂ Spells (lines.map String.toList) tags ∧ Parser.ReadsItem tags item

theorem lineOf_label {label : String} (isLabel : IsToken .ident label ∨ IsToken .number label) :
    LineOf (label ++ ":") (.label label) := by
  rcases isLabel with isToken | isToken
  · exact ⟨_, spells_label isToken (.inl rfl), Parser.readsLine_label (.inl rfl)⟩
  · exact ⟨_, spells_label isToken (.inr rfl), Parser.readsLine_label (.inr rfl)⟩

theorem lineOf_instruction (spelling : Spelling) {i : Instruction} (printable : i.Printable) :
    LineOf (instructionText spelling i) (.instruction i) :=
  ⟨_, spells_instruction spelling printable.checked printable.names,
    Parser.readsLine_instruction printable.checked printable.others⟩

theorem lineOf_block (style : Nat → Spelling) {b : Block} (printable : b.Printable) :
    List.Forall₂ LineOf (blockLines style b) (BodyItem.ofBlock b) := by
  refine .cons (lineOf_label printable.label) (forall₂_mapIdx_map fun k i inBody => ?_)
  exact lineOf_instruction (style k) (printable.body i inBody)

theorem linesOf_func (style : Nat → Nat → Spelling) {f : Func} (printable : f.Printable) :
    LinesOf (funcLines style f) { funcs := [f] } := by
  have body : List.Forall₂ LineOf (f.blocks.mapIdx fun k b => blockLines (style k) b).flatten
      (f.blocks.flatMap BodyItem.ofBlock) := by
    refine List.rel_flatten (forall₂_mapIdx_map fun k b inFunc => ?_)
    exact lineOf_block (style k) (printable.blocks b inFunc)
  obtain ⟨tags, spelled, reads⟩ := exists_between body
  have item := Parser.readsItem_func f.name reads
  rw [BodyItem.blocks_ofBlock] at item
  refine ⟨_, ?_, item⟩
  rw [funcLines, List.map_append, List.map_cons]
  refine .cons (spells_header printable.name) ?_
  exact List.rel_append (List.forall₂_map_left_iff.mpr spelled) (.cons spells_close .nil)

theorem linesOf_global {g : Global} (quotable : Quotable g.name) :
    LinesOf [globalText g] { globals := [g] } :=
  ⟨_, .cons (spells_global quotable) .nil, Parser.readsItem_global g⟩

/-- The module of some items. -/
def moduleOf (items : List IR.Module) : IR.Module :=
  { globals := items.flatMap IR.Module.globals, funcs := items.flatMap IR.Module.funcs }

/-- Tokens that are read as items make up a module. -/
theorem parseTokens_of_reads {tokens : List Token} {last : Token} {items : List IR.Module}
    (goOn : ∀ t ∈ tokens, t.kind ≠ .endOfFile) (isLast : last.kind = .endOfFile)
    (reads : Parser.Reads (Parser.each (fun _ => false) topItem) last tokens items []) :
    parseTokens (tokens ++ [last]) = .ok (moduleOf items) := by
  have found : (tokens ++ [last]).find? (fun t => t.kind = .endOfFile) = some last := by
    rw [List.find?_append, List.find?_eq_none.mpr (by simpa using goOn)]
    simp [isLast]
  have taken : (tokens ++ [last]).takeWhile (fun t => t.kind != .endOfFile) = tokens := by
    rw [List.takeWhile_append_of_pos (by simpa using goOn),
      List.takeWhile_cons_of_neg (by simp [isLast]), List.append_nil]
  obtain ⟨previous, run_eq⟩ := reads {} []
  rw [parseTokens, found, taken, Option.getD_some, run_eq]
  rfl

/-- **A text of items is read as the module of these items.** -/
theorem parse_of_linesOf {groups : List (List String)} {items : List IR.Module}
    (written : List.Forall₂ LinesOf groups items) (file : Int) :
    parse file (String.join (groups.flatten.map (· ++ "\n"))) = .ok (moduleOf items) := by
  obtain ⟨tags, spelled, reads⟩ := exists_between written
  have flat := List.rel_flatten (List.forall₂_map_left_iff.mpr spelled)
  obtain ⟨tokens, last, rows, goOn, isLast, placed⟩ := exists_rows flat file 1
  have lexed : lex file (String.join (groups.flatten.map (· ++ "\n"))) =
      { tokens := tokens ++ [last], complaints := [] } := by
    rw [← placed, lex, String.toList_join, ← List.map_flatten, List.flatMap_map, List.flatMap_map]
    simp
  rw [parse, lexed]
  exact parseTokens_of_reads goOn isLast (Parser.reads_items isLast reads rows)

/-- The lines of a module, one item after the other. -/
def itemLines (style : Nat → Nat → Nat → Spelling) (m : IR.Module) : List (List String) :=
  (m.globals.map fun g => [globalText g]) ++ m.funcs.mapIdx fun k f => funcLines (style k) f

theorem flatten_itemLines (style : Nat → Nat → Nat → Spelling) (m : IR.Module) :
    (itemLines style m).flatten = moduleLines style m := by
  rw [itemLines, List.flatten_append, moduleLines, ← List.flatMap_def, ← List.map_eq_flatMap]

/-- The items of a module. -/
def itemsOf (m : IR.Module) : List IR.Module :=
  (m.globals.map fun g => { globals := [g] }) ++ m.funcs.map fun f => { funcs := [f] }

theorem moduleOf_itemsOf (m : IR.Module) : moduleOf (itemsOf m) = m := by
  have noGlobals : m.funcs.flatMap (fun _ => ([] : List Global)) = [] :=
    List.flatMap_eq_nil_iff.mpr fun _ _ => rfl
  have noFuncs : m.globals.flatMap (fun _ => ([] : List Func)) = [] :=
    List.flatMap_eq_nil_iff.mpr fun _ _ => rfl
  simp [moduleOf, itemsOf, List.flatMap_map, noGlobals, noFuncs]

theorem linesOf_itemsOf {m : IR.Module} (printable : m.Printable)
    (style : Nat → Nat → Nat → Spelling) :
    List.Forall₂ LinesOf (itemLines style m) (itemsOf m) := by
  apply List.rel_append
  · rw [List.forall₂_map_left_iff, List.forall₂_map_right_iff, List.forall₂_same]
    exact fun g inModule => linesOf_global (printable.globals g inModule)
  · apply forall₂_mapIdx_map
    exact fun k f inModule => linesOf_func (style k) (printable.funcs f inModule)

/-- **A module is read back from its text.** The sigils of the operands and the words for
the instructions that are not lowered do not matter. -/
theorem parse_moduleText {m : IR.Module} (printable : m.Printable)
    (style : Nat → Nat → Nat → Spelling) (file : Int) :
    parse file (moduleText style m) = .ok m := by
  have parsed := parse_of_linesOf (linesOf_itemsOf printable style) file
  rwa [flatten_itemLines, moduleOf_itemsOf] at parsed

/-- A module with names that need quotes, a name that looks like a number, a number for a
label, and instructions that are not lowered. -/
def oddModule : IR.Module where
  globals := [{ name := "", value := -2147483648 }, { name := "-7", value := 5 }]
  funcs := [{
    name := "two words"
    blocks := [
      { label := "12"
        body := [{ opcode := .other }, .alloca "x:y", .store (.const (-1)) "x:y",
          .load ".a$b" "x:y", .binary (.arith .srem) "%" (.name ".a$b") (.name "-7"),
          { opcode := .other, result := some "r" }, { opcode := .ret, args := [.name "%"] }] },
      { label := "define.x", body := [{ opcode := .ret }] }] }]

/-- First operands are written as locals and second ones as globals; what is not lowered is
a call. -/
def callSpelling : Spelling where
  sigil
    | 0 => .ofLocal
    | _ => .ofGlobal
  operation := "call"
  isToken := by decide +kernel
  unknown := by decide +kernel

theorem parse_oddModule :
    oddModule.Printable ∧
      moduleLines (fun _ _ _ => callSpelling) oddModule =
        ["@\"\" = global i32 -2147483648",
          "@-7 = global i32 5",
          "define i32 @\"two words\"() \x7b",
          "12:",
          "  call",
          "  %\"x:y\" = alloca i32",
          "  store i32 -1, i32* @\"x:y\"",
          "  %.a$b = load i32, i32* %\"x:y\"",
          "  %\"%\" = srem i32 %.a$b, @-7",
          "  %r = call",
          "  ret i32 %\"%\"",
          "define.x:",
          "  ret void",
          "\x7d"] ∧
      parse 3 (moduleText (fun _ _ _ => callSpelling) oddModule) = .ok oddModule := by
  have printable : oddModule.Printable := by decide +kernel
  exact ⟨printable, by decide +kernel, parse_moduleText printable _ _⟩

end RiscBackend.Source
