/-
# The labels of a program

A program sets a label for every global, every function and every block, and all of them share
one namespace. Validation keeps the names of each kind apart: globals from globals, functions
from functions, the blocks of a function from each other. This module shows which labels a
program sets, and in which order, and what has to be kept apart beyond that for no label to be
set twice. It does not follow from validation, as the last theorem shows: two functions with a
block of the same name are enough.
-/

import Mathlib.Data.List.Lattice
import Mathlib.Data.List.Pairwise
import RiscBackend.Proofs.Lower.Separate
import RiscBackend.Proofs.Lower.Tasks

namespace RiscBackend

namespace Asm

/-- Whether a line sets a label. -/
def Line.isLabel (l : Line) : Bool :=
  match l.stmt with
  | .label _ => true
  | _ => false

/-- The line that sets a label. -/
def labelLine (name : String) : Line :=
  { stmt := .label name }

/-- The lines that set labels. -/
def labelLines (lines : List Line) : List Line :=
  lines.filter Line.isLabel

theorem labelLines_append (first second : List Line) :
    labelLines (first ++ second) = labelLines first ++ labelLines second :=
  List.filter_append ..

/-- Code without labels, line by line. -/
theorem labelLines_eq_nil {lines : List Line} (none : ∀ l ∈ lines, l.isLabel = false) :
    labelLines lines = [] := by
  apply List.filter_eq_nil_iff.mpr
  intro l inLines
  simp [none l inLines]

/-- The text of the line shows its label. -/
theorem text_labelLine (name : String) : (labelLine name).text = name ++ ":" := by
  simp [labelLine, Line.text, Stmt.text, String.join]

theorem nodup_texts_labelLines {names : List String} :
    ((names.map labelLine).map Line.text).Nodup ↔ names.Nodup := by
  rw [List.map_map]
  apply List.nodup_map_iff
  intro first second same
  simpa [text_labelLine] using same

/-- The texts of the lines of a program that set labels. -/
def Program.labelTexts (p : Program) : List String :=
  (labelLines p.lines).map Line.text

end Asm

namespace IR

/-- The labels of a function: its own, and those of its blocks. -/
def Func.labels (f : Func) : List String :=
  f.name :: f.blocks.map Block.label

/-- The names that a module needs labels for. -/
def Module.labels (m : Module) : List String :=
  m.globals.map Global.name ++ m.funcs.flatMap Func.labels

/-- What has to differ beside what validation checks: the names of a global and a function, of
a global and a block, of a function and a block, and of blocks of two functions. -/
structure Module.LabelsApart (m : Module) : Prop where
  global_func : ∀ g ∈ m.globals, ∀ f ∈ m.funcs, g.name ≠ f.name
  global_block : ∀ g ∈ m.globals, ∀ f ∈ m.funcs, ∀ b ∈ f.blocks, g.name ≠ b.label
  func_block : ∀ f ∈ m.funcs, ∀ h ∈ m.funcs, ∀ b ∈ h.blocks, f.name ≠ b.label
  block_block : m.funcs.Pairwise fun f h => ∀ b ∈ f.blocks, ∀ c ∈ h.blocks, b.label ≠ c.label

namespace Module

variable {m : Module}

theorem nodup_blockLabels (validated : m.validate = .ok ()) :
    ∀ f ∈ m.funcs, (f.blocks.map Block.label).Nodup := by
  obtain ⟨-, -, -, checked⟩ := validate_eq_ok_iff.mp validated
  exact fun f inModule => (checked f inModule).1

/-- The labels of two functions are disjoint when the functions have different names, neither
is named like a block of the other, and their blocks have different labels. -/
theorem disjoint_labels_iff {f h : Func} :
    List.Disjoint f.labels h.labels ↔
      f.name ≠ h.name ∧ (∀ c ∈ h.blocks, f.name ≠ c.label) ∧ (∀ b ∈ f.blocks, h.name ≠ b.label) ∧
        ∀ b ∈ f.blocks, ∀ c ∈ h.blocks, b.label ≠ c.label := by
  simp only [Func.labels, List.disjoint_left, List.mem_cons, List.mem_map, not_or, not_exists,
    not_and]
  grind

/-- In a valid module no label is needed twice exactly when what validation does not compare is
apart as well. -/
theorem nodup_labels_iff (validated : m.validate = .ok ()) : m.labels.Nodup ↔ m.LabelsApart := by
  have valid := valid_of_validate validated
  have ownBlocks := nodup_blockLabels validated
  have symm : Std.Symm (Function.onFun List.Disjoint Func.labels) := ⟨fun _ _ apart => apart.symm⟩
  have names_ne : m.funcs.Pairwise fun f h => f.name ≠ h.name :=
    List.pairwise_map.mp valid.nodup_funcs
  rw [labels, List.nodup_append, List.nodup_flatMap]
  constructor
  · rintro ⟨-, ⟨own, disjoint⟩, across⟩
    have fromGlobal {g : Global} (isGlobal : g ∈ m.globals) {f : Func} (isFunc : f ∈ m.funcs)
        {label : String} (isLabel : label ∈ f.labels) : g.name ≠ label :=
      across g.name (List.mem_map_of_mem isGlobal) label
        (List.mem_flatMap.mpr ⟨f, isFunc, isLabel⟩)
    constructor
    · exact fun g isGlobal f isFunc => fromGlobal isGlobal isFunc List.mem_cons_self
    · exact fun g isGlobal f isFunc b isBlock =>
        fromGlobal isGlobal isFunc (List.mem_cons_of_mem _ (List.mem_map_of_mem isBlock))
    · intro f isFunc h isFunc' b isBlock same
      by_cases equal : f = h
      · subst equal
        exact (List.nodup_cons.mp (own f isFunc)).1 (same ▸ List.mem_map_of_mem isBlock)
      · have apart := disjoint.forall isFunc isFunc' equal
        exact (disjoint_labels_iff.mp apart).2.1 b isBlock same
    · exact disjoint.imp fun apart => (disjoint_labels_iff.mp apart).2.2.2
  · intro apart
    refine ⟨valid.nodup_globals, ⟨?_, ?_⟩, ?_⟩
    · intro f isFunc
      refine List.nodup_cons.mpr ⟨fun isBlock => ?_, ownBlocks f isFunc⟩
      obtain ⟨b, isBlock, same⟩ := List.mem_map.mp isBlock
      exact apart.func_block f isFunc f isFunc b isBlock same.symm
    · refine (names_ne.and apart.block_block).imp_of_mem ?_
      rintro f h isFunc isFunc' ⟨name_ne, blocks_ne⟩
      exact disjoint_labels_iff.mpr ⟨name_ne, apart.func_block f isFunc h isFunc',
        apart.func_block h isFunc' f isFunc, blocks_ne⟩
    · intro name isName label isLabel
      obtain ⟨g, isGlobal, rfl⟩ := List.mem_map.mp isName
      obtain ⟨f, isFunc, inFunc⟩ := List.mem_flatMap.mp isLabel
      rcases List.mem_cons.mp inFunc with rfl | inBlocks
      · exact apart.global_func g isGlobal f isFunc
      · obtain ⟨b, isBlock, rfl⟩ := List.mem_map.mp inBlocks
        exact apart.global_block g isGlobal f isFunc b isBlock

end Module

end IR

namespace Lower

open IR (Block Func Global Module)
open Asm (Line labelLine labelLines)

namespace Emit

variable {α β : Type}

/-- A step that, if it succeeds, sets these labels in this order. -/
def Sets (step : Emit α) (names : List String) : Prop :=
  ∀ env a, (step.run env).outcome = .ok a →
    labelLines (step.run env).lines = names.map labelLine

theorem sets_pure {a : α} : Sets (pure a) [] :=
  fun _ _ _ => rfl

theorem Sets.bind {step : Emit α} {next : α → Emit β} {names later : List String}
    (first : Sets step names) (second : ∀ a, Sets (next a) later) :
    Sets (step >>= next) (names ++ later) := by
  intro env b succeeds
  obtain ⟨a, here, after⟩ := outcome_bind_eq_ok succeeds
  rw [run_bind_of_ok here, Asm.labelLines_append, first env a here, second a _ b after,
    List.map_append]

/-- A loop sets the labels of its members one after the other. -/
theorem sets_forEach {step : α → Emit Unit} {names : α → List String} {members : List α}
    (each : ∀ a ∈ members, Sets (step a) (names a)) :
    Sets (forEach step members) (members.flatMap names) := by
  induction members with
  | nil => exact sets_pure
  | cons a rest ih =>
    rw [List.forall_mem_cons] at each
    rw [List.flatMap_cons]
    exact each.1.bind fun _ => ih each.2

end Emit

open Emit

/-- What is done within a block sets no label. -/
theorem Site.Performs.isLabel_eq_false {site : Site} {env env' : Env} {a : Action}
    {lines : List Line} {ds : Diagnostics} (performs : site.Performs env a lines ds env') :
    ∀ l ∈ lines, l.isLabel = false := by
  cases performs with
  | skip | reloadNothing | putUnknown | declare => simp
  | readGlobal | assignGlobal => simp [Line.isLabel, Line.ofInstr]
  | _ => simp [Line.isLabel, Line.ofInstr, Site.slotLine]

theorem Task.sets_nothing (t : Task) : Sets t.emit [] := by
  intro env _ succeeds
  exact Asm.labelLines_eq_nil (Task.performs succeeds).isLabel_eq_false

variable {config : Config} {source : Module}

/-- A block sets its label. -/
theorem sets_lowerBlock {function : String} {crossing : List String} {b : Block}
    (wellFormed : ∀ i ∈ b.body, i.WellFormed) :
    Sets (lowerBlock config function crossing b) [b.label] := by
  intro env a succeeds
  cases entered : Site.ofBlock config function crossing env b with
  | error fault =>
    rw [run_lowerBlock_of_error wellFormed entered] at succeeds
    cases succeeds
  | ok site =>
    rw [run_lowerBlock_of_ok wellFormed entered] at succeeds ⊢
    have inside : labelLines ((forEach Task.emit (site.blockTasks b)).run env).lines =
        ((site.blockTasks b).flatMap fun _ => []).map labelLine :=
      sets_forEach (fun t _ => t.sets_nothing) env a succeeds
    show labelLine b.label :: labelLines _ = _
    rw [inside]
    simp

theorem labelLines_header (globals : List Global) :
    labelLines (header globals) = (globals.map Global.name).map labelLine := by
  have ofGlobals : labelLines (globals.flatMap globalLines) =
      (globals.map Global.name).map labelLine := by
    rw [labelLines, List.filter_flatMap, List.map_map]
    exact List.map_eq_flatMap.symm
  rw [header, Asm.labelLines_append]
  cases globals with
  | nil => rfl
  | cons g rest =>
    show labelLines ((g :: rest).flatMap globalLines) ++ [] = _
    rw [ofGlobals, List.append_nil]

/-- A function sets its own label and those of its blocks. -/
theorem labelLines_func {f : Func} (wellFormed : ∀ b ∈ f.blocks, ∀ i ∈ b.body, i.WellFormed)
    (succeeds : (blocksCode config source f).outcome = .ok ()) :
    labelLines (prologue config f ++ (blocksCode config source f).lines ++ epilogue config) =
      f.labels.map labelLine := by
  have ofBlocks : labelLines (blocksCode config source f).lines =
      (f.blocks.flatMap fun b => [b.label]).map labelLine :=
    sets_forEach (fun b isBlock => sets_lowerBlock (wellFormed b isBlock)) _ () succeeds
  rw [Asm.labelLines_append, Asm.labelLines_append, ofBlocks]
  show [labelLine f.name] ++ _ ++ [] = _
  rw [List.append_nil, ← List.map_eq_flatMap]
  rfl

/-- A program sets the labels of the globals, and then those of each function. -/
theorem labelLines_of_lowerModule {program : Asm.Program} {ds : Diagnostics}
    (valid : source.Valid) (lowered : lowerModule config source = (.ok program, ds)) :
    labelLines program.lines = source.labels.map labelLine := by
  obtain ⟨succeed, lines_eq⟩ := lines_of_lowerModule valid lowered
  have ofFuncs : labelLines (source.funcs.flatMap fun f =>
      prologue config f ++ (blocksCode config source f).lines ++ epilogue config) =
      (source.funcs.flatMap Func.labels).map labelLine := by
    rw [labelLines, List.filter_flatMap, List.map_flatMap]
    apply List.flatMap_congr
    intro f isFunc
    exact labelLines_func (valid.wellFormed_body isFunc) (succeed f isFunc)
  rw [lines_eq, Asm.labelLines_append, labelLines_header, ofFuncs, Module.labels, List.map_append]

/-- **When no label is set twice.** The program of a validated module sets a label for each
global, each function and each block, in this order. No two of these lines are equal exactly
when no function shares its name with a global, no block shares its label with a global, with a
function or with a block of another function. -/
theorem labelTexts_nodup_iff {program : Asm.Program} {ds : Diagnostics}
    (validated : source.validate = .ok ())
    (lowered : lowerModule config source = (.ok program, ds)) :
    program.labelTexts = (source.globals.map Global.name ++
        source.funcs.flatMap fun f => f.name :: f.blocks.map Block.label).map (· ++ ":") ∧
      (program.labelTexts.Nodup ↔ source.LabelsApart) := by
  have lines_eq := labelLines_of_lowerModule (Module.valid_of_validate validated) lowered
  rw [Asm.Program.labelTexts, lines_eq]
  constructor
  · rw [List.map_map]
    exact List.map_congr_left fun name _ => Asm.text_labelLine name
  · rw [Asm.nodup_texts_labelLines]
    exact Module.nodup_labels_iff validated

/-- A module with a global and two functions, where the block of the second has a label of
choice. -/
def signposted (label : String) : Module where
  globals := [{ name := "g", value := 7 }]
  funcs :=
    [{ name := "main"
       blocks :=
        [{ label := "mainEntry", body := [.load "x" "g"] },
          { label := "mainExit", body := [.ret (.name "x")] }] },
      { name := "aside"
        blocks := [{ label, body := [.ret (.const 1)] }] }]

/-- With a label of its own for the last block every label is set once. -/
theorem labelTexts_nodup_iff_signposted :
    (signposted "asideEntry").validate = .ok () ∧
      ∃ program ds, lowerModule {} (signposted "asideEntry") = (.ok program, ds) ∧
        program.labelTexts = ["g:", "main:", "mainEntry:", "mainExit:", "aside:", "asideEntry:"] ∧
        program.labelTexts.Nodup := by
  have validated : (signposted "asideEntry").validate = .ok () := by decide
  have succeeds : (lowerModule {} (signposted "asideEntry")).1.toOption.isSome = true := by
    simp only [lowerModule, Lowering.addModule, signposted, Emit.forEach, lowerFunc, lowerBlock,
      Alloc.allocate, Alloc.assign, scanOrder_blockTable]
    decide +kernel
  have apart : (signposted "asideEntry").LabelsApart := by
    constructor <;> decide
  refine ⟨validated, ?_⟩
  cases lowered : lowerModule {} (signposted "asideEntry") with
  | mk result ds =>
    rw [lowered] at succeeds
    cases result with
    | error fault => cases succeeds
    | ok program =>
      obtain ⟨texts_eq, nodup_iff⟩ := labelTexts_nodup_iff validated lowered
      exact ⟨program, ds, rfl, texts_eq, nodup_iff.mpr apart⟩

/-- Validation lets the last block have the label of the first, and it is then set twice. -/
theorem label_set_twice :
    (signposted "mainEntry").validate = .ok () ∧
      (lowerModule {} (signposted "mainEntry")).1.toOption.map Asm.Program.labelTexts =
        some ["g:", "main:", "mainEntry:", "mainExit:", "aside:", "mainEntry:"] := by
  constructor
  · decide
  · simp only [lowerModule, Lowering.addModule, signposted, Emit.forEach, lowerFunc, lowerBlock,
      Alloc.allocate, Alloc.assign, scanOrder_blockTable]
    decide +kernel

end Lower

end RiscBackend
