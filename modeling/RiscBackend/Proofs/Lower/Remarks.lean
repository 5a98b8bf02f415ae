/-
# Comments and warnings

Comments on moves between registers and slots, and warnings, are for the reader. Two lowerings
of a module that differ in nothing else have the same code: both give a program, of which one
has comments on some lines that the other has not, or both fail in the same way. A program can
as well be written one statement at a time, with the comments of a line added to the line that was
written last.

Of the strict mode this cannot be said. It decides whether there is a program at all.
-/

import RiscBackend.Proofs.Lower.Lockstep

namespace RiscBackend

/-- The errors among the reports. -/
def Diagnostics.errors (ds : Diagnostics) : Diagnostics :=
  ds.filter fun d => d.severity = .error

theorem Diagnostics.errors_append (ds es : Diagnostics) :
    errors (ds ++ es) = ds.errors ++ es.errors :=
  List.filter_append ..

theorem Diagnostics.hasErrors_eq (ds : Diagnostics) : ds.hasErrors = !ds.errors.isEmpty := by
  rw [hasErrors, errors, Bool.eq_iff_iff]
  simp

namespace Asm.Program

/-- Write a line: its statement first, and then its comments. -/
def write (p : Program) (l : Line) : Program :=
  l.notes.foldl note (p.push l.stmt)

/-- A comment goes to the line that was written last. -/
theorem note_concat (lines : List Line) (l : Line) (text : String) :
    note { lines := lines ++ [l] } text =
      { lines := lines ++ [{ l with notes := l.notes ++ [text] }] } := by
  simp [note, List.modify_eq_take_drop]

theorem foldl_note_concat (lines : List Line) (l : Line) (notes : List String) :
    notes.foldl note { lines := lines ++ [l] } =
      { lines := lines ++ [{ l with notes := l.notes ++ notes }] } := by
  induction notes generalizing l with
  | nil => rw [List.foldl_nil, List.append_nil]
  | cons text rest ih =>
    rw [List.foldl_cons, note_concat, ih, List.append_assoc]
    rfl

/-- Writing a line adds it at the end, with its comments. -/
theorem write_eq (p : Program) (l : Line) : p.write l = { lines := p.lines ++ [l] } :=
  foldl_note_concat p.lines { stmt := l.stmt } l.notes

/-- A program is what its lines write. -/
theorem foldl_write (p : Program) : p.lines.foldl write {} = p := by
  have written (done lines : List Line) :
      lines.foldl write { lines := done } = { lines := done ++ lines } := by
    induction lines generalizing done with
    | nil => rw [List.foldl_nil, List.append_nil]
    | cons l rest ih =>
      rw [List.foldl_cons, write_eq, ih, List.append_assoc]
      rfl
  exact written [] p.lines

end Asm.Program

namespace Lower

open IR (Func Global Module)
open Asm (Line Instr Program)
open Alloc (Interval)

/-- A line that moves a value is written as a statement, with a comment after it if comments are
on. -/
theorem write_slotLine (p : Program) (site : Site) (i : Instr) (verb : String) (iv : Interval) :
    p.write (site.slotLine i verb iv) =
      if site.config.feature .annotate then (p.push (.instr i)).note (verb ++ " " ++ iv.name)
      else p.push (.instr i) := by
  unfold Site.slotLine
  split <;> rfl

/-- A line, and the same line with a comment if it moves a value between a register and the slot
of a name. -/
inductive Remarked (stack : String) (frame : Frame) : Line → Line → Prop
  | plain (l : Line) : Remarked stack frame l l
  | remark {i : Instr} {verb name : String} {noted : Line}
      (moves : SlotMove stack frame i verb name) (stmt_eq : noted.stmt = .instr i)
      (text_eq : noted.text = (Line.ofInstr i).text ++ " # " ++ verb ++ " " ++ name) :
      Remarked stack frame (.ofInstr i) noted

theorem Remarked.mono {stack : String} {frame frame' : Frame} {l l' : Line}
    (grows : frame.Grows frame') (remarked : Remarked stack frame l l') :
    Remarked stack frame' l l' := by
  cases remarked with
  | plain => exact .plain l
  | remark moves stmt_eq text_eq => exact .remark (moves.mono grows) stmt_eq text_eq

/-- The comment stands at the end of the line. -/
theorem text_moveLine (i : Instr) (verb name : String) :
    (moveLine true i verb name).text = (Line.ofInstr i).text ++ " # " ++ verb ++ " " ++ name := by
  simp [moveLine, Line.text, Line.ofInstr, String.join, String.append_assoc]

theorem remarked_moveLine {stack verb name : String} {frame : Frame} {i : Instr}
    (moves : SlotMove stack frame i verb name) (annotate : Bool) :
    Remarked stack frame (moveLine false i verb name) (moveLine annotate i verb name) := by
  cases annotate with
  | false => exact .plain _
  | true => exact .remark moves rfl (text_moveLine i verb name)

/-- The accord of two lowerings with and without comments. -/
def Accord.remarking (stack : String) (annotate annotate' : Bool) : Accord where
  line frame l l' :=
    (annotate' = annotate → l' = l) ∧ (annotate = false → Remarked stack frame l l')
  reports ds ds' := ds'.errors = ds.errors
  line_refl _ l := ⟨fun _ => rfl, fun _ => .plain l⟩
  line_mono grows corresponds := ⟨corresponds.1, fun plain => (corresponds.2 plain).mono grows⟩
  reports_nil := rfl
  reports_append := by
    intro ds ds' es es' first second
    rw [Diagnostics.errors_append, Diagnostics.errors_append, first, second]

/-- Warnings are no errors. -/
theorem errors_warnings (on : Bool) (w : Warning) (place message : String) :
    (warnings on w place message).errors = [] := by
  cases on <;> rfl

variable {config : Config} {feature : Feature → Bool} {warning : Warning → Bool}

theorem Accord.remarking_permits (strict_eq : feature .strict = config.feature .strict) :
    (Accord.remarking config.stackRegister (config.feature .annotate)
      (feature .annotate)).Permits config feature warning where
  moves moves := by
    refine ⟨fun same => by rw [same], fun plain => ?_⟩
    rw [plain]
    exact remarked_moveLine moves _
  unresolved place fault := by
    show Diagnostics.errors (if feature .strict then _ else _) = _
    rw [unresolvedReports, strict_eq]
    split
    · rfl
    · exact (errors_warnings _ _ _ _).trans (errors_warnings _ _ _ _).symm
  warns w place message _ := (errors_warnings _ _ _ _).trans (errors_warnings _ _ _ _).symm

/-- Faults of one kind. Reports that make a lowering fail may differ in warnings. -/
inductive LoweringFault.Alike : LoweringFault → LoweringFault → Prop
  | refl (fault : LoweringFault) : Alike fault fault
  | diagnostics {ds ds' : Diagnostics} (same : ds'.errors = ds.errors) :
      Alike (.diagnostics ds) (.diagnostics ds')

/-- **Comments and warnings keep the code.** Let the switches of a configuration be set anew, but
not the strict mode and not validation. If a module was refused then it still is, in the same
way. Otherwise there is a program in both cases, with the same number of lines: the same program if
comments are on in both cases or in none, and if they were off before, then each function has the
lines it had, with a comment at the end of some lines that move a value between a register and the
slot that the name has in the frame of the function. -/
theorem lowerModule_keeps_code_under_remarks
    (strict_eq : feature .strict = config.feature .strict)
    (validate_eq : feature .validate = config.feature .validate) (m : Module) :
    (∀ fault, (lowerModule config m).1 = .error fault →
      ∃ fault', (lowerModule (config.withSwitches feature warning) m).1 = .error fault' ∧
        fault.Alike fault') ∧
    (∀ p, (lowerModule config m).1 = .ok p →
      ∃ p', (lowerModule (config.withSwitches feature warning) m).1 = .ok p' ∧
        p'.lines.length = p.lines.length ∧
        (feature .annotate = config.feature .annotate → p' = p) ∧
        (config.feature .annotate = false →
          p.lines = header (startEnv config m.globals).globals ++
            m.funcs.flatMap (fun f => (codeOf config m.globals f).lines) ∧
          p'.lines = header (startEnv config m.globals).globals ++
            m.funcs.flatMap (fun f =>
              (codeOf (config.withSwitches feature warning) m.globals f).lines) ∧
          ∀ f ∈ m.funcs,
            List.Forall₂ (Remarked config.stackRegister (codeOf config m.globals f).env.frame)
              (codeOf config m.globals f).lines
              (codeOf (config.withSwitches feature warning) m.globals f).lines)) := by
  have permits : Accord.Permits _ config feature warning := Accord.remarking_permits strict_eq
  have same : refusal? (config.withSwitches feature warning) m = refusal? config m :=
    refusal?_withSwitches validate_eq m
  cases refusal : refusal? config m with
  | some fault =>
    rw [lowerModule_of_refused refusal, lowerModule_of_refused (same.trans refusal)]
    exact ⟨fun fault' is => ⟨fault', is, .refl fault'⟩, by simp⟩
  | none =>
    rw [lowerModule_of_admitted refusal, lowerModule_of_admitted (same.trans refusal)]
    obtain ⟨outcome_eq, errors_eq⟩ := moduleCode_withSwitches permits m
    cases outcome : (moduleCode config m).outcome with
    | error fault =>
      rw [Code.verdict_of_error outcome, Code.verdict_of_error (outcome_eq.trans outcome)]
      exact ⟨fun fault' is => ⟨fault', is, .refl fault'⟩, by simp⟩
    | ok =>
      rw [Code.verdict_of_ok outcome, Code.verdict_of_ok (outcome_eq.trans outcome),
        Diagnostics.hasErrors_eq, Diagnostics.hasErrors_eq, errors_eq]
      cases (moduleCode config m).diagnostics.errors.isEmpty with
      | false =>
        refine ⟨fun fault is => ?_, by simp⟩
        cases is
        exact ⟨_, rfl, .diagnostics errors_eq⟩
      | true =>
        refine ⟨by simp, fun p is => ⟨_, rfl, ?_⟩⟩
        cases is
        rw [moduleCode_of_ok outcome, moduleCode_of_ok (outcome_eq.trans outcome)]
        have corresponds f := (joins_codeOf permits m.globals f).lines
        refine ⟨?_, fun same => ?_, fun plain => ?_⟩
        · rw [List.length_append, List.length_append, List.length_flatMap, List.length_flatMap]
          congr 2
          exact List.map_congr_left fun f _ => (corresponds f).length_eq.symm
        · congr 2
          refine List.flatMap_congr fun f _ => ?_
          exact List.forall₂_eq_eq_eq ▸ ((corresponds f).imp fun l l' related => related.1 same).flip
        · refine ⟨rfl, rfl, fun f _ => ?_⟩
          exact (corresponds f).imp fun l l' related => related.2 plain

/-- Comments on, and no warnings. -/
def annotated (config : Config) : Config :=
  config.withSwitches (fun f => f = .annotate || config.feature f) fun _ => false

/-- With one register there is something to remark in each of the three ways. In a frame of two
slots the lowering fails, with and without comments. -/
theorem lowerModule_keeps_code_under_remarks_crowded :
    (∃ p p', (lowerModule { registers := ["s1"] } crowded).1 = .ok p ∧
      (lowerModule (annotated { registers := ["s1"] }) crowded).1 = .ok p' ∧
      p'.lines.flatMap Line.notes = ["spill x", "write-back y", "reload x"] ∧
      p'.lines.length = p.lines.length ∧
      ∃ code code', p.lines = header crowded.globals ++ code ∧
        p'.lines = header crowded.globals ++ code' ∧
        List.Forall₂ (Remarked "sp"
          (codeOf { registers := ["s1"] } crowded.globals crowdedMain).env.frame) code code') ∧
    ∃ fault fault', (lowerModule { registers := ["s1"], frameSize := 8 } crowded).1 = .error fault ∧
      (lowerModule (annotated { registers := ["s1"], frameSize := 8 }) crowded).1 =
        .error fault' ∧ fault.Alike fault' := by
  have notes : (lowerModule (annotated { registers := ["s1"] }) crowded).1.toOption.map
      (fun p => p.lines.flatMap Line.notes) = some ["spill x", "write-back y", "reload x"] := by
    simp only [lowerModule, Lowering.addModule, crowded, crowdedMain, Emit.forEach, lowerFunc,
      lowerBlock, Alloc.allocate, Alloc.assign, scanOrder_blockTable]
    decide +kernel
  have lowers : (lowerModule { registers := ["s1"] } crowded).1.toOption.isSome = true := by
    simp only [lowerModule, Lowering.addModule, crowded, crowdedMain, Emit.forEach, lowerFunc,
      lowerBlock, Alloc.allocate, Alloc.assign, scanOrder_blockTable]
    decide +kernel
  have fails : (lowerModule { registers := ["s1"], frameSize := 8 } crowded).1.toOption.isSome =
      false := by
    simp only [lowerModule, Lowering.addModule, crowded, crowdedMain, Emit.forEach, lowerFunc,
      lowerBlock, Alloc.allocate, Alloc.assign, scanOrder_blockTable]
    decide +kernel
  obtain ⟨-, keeps⟩ : _ ∧ _ :=
    @lowerModule_keeps_code_under_remarks { registers := ["s1"] } _ (fun _ => false)
      (show (annotated { registers := ["s1"] }).feature .strict = _ from rfl) rfl crowded
  obtain ⟨stays, -⟩ : _ ∧ _ :=
    @lowerModule_keeps_code_under_remarks { registers := ["s1"], frameSize := 8 } _ (fun _ => false)
      (show (annotated { registers := ["s1"], frameSize := 8 }).feature .strict = _ from rfl) rfl
      crowded
  constructor
  · cases lowered : (lowerModule { registers := ["s1"] } crowded).1 with
    | error fault =>
      rw [lowered] at lowers
      cases lowers
    | ok p =>
      obtain ⟨p', lowered', length_eq, -, related⟩ := keeps p lowered
      obtain ⟨lines_eq, lines_eq', remarked⟩ := related rfl
      have annotates : (lowerModule (annotated { registers := ["s1"] }) crowded).1 = .ok p' := lowered'
      rw [annotates] at notes
      have single (code : Func → List Line) : crowded.funcs.flatMap code = code crowdedMain :=
        List.append_nil _
      rw [single, globals_startEnv (by decide)] at lines_eq lines_eq'
      exact ⟨p, p', rfl, annotates, Option.some.inj notes, length_eq, _, _, lines_eq, lines_eq',
        remarked crowdedMain (by decide)⟩
  · cases lowered : (lowerModule { registers := ["s1"], frameSize := 8 } crowded).1 with
    | ok p =>
      rw [lowered] at fails
      cases fails
    | error fault =>
      obtain ⟨fault', fails', alike⟩ := stays fault lowered
      exact ⟨fault, fault', rfl, fails', alike⟩

end Lower

end RiscBackend
