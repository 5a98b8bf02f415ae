/-
# Routines

The text section of a program is a row of routines, one per function, and each of
them ends in the only exit that it holds. So a routine can be cut out of a program
again, and running the program from the label of a function up to the exit is running
its routine.
-/

import RiscBackend.Lower.Module
import RiscBackend.Proofs.Lower.Execution
import RiscBackend.Proofs.Lower.Frame

namespace RiscBackend

open Asm (Line Instr)
open IR (Instruction Block Func)

namespace Asm

/-- Whether a line is an exit. -/
def Line.isExit (l : Line) : Bool :=
  l.stmt = .instr .ecall

/-- The pieces of code that end in an exit. Lines after the last exit are no
routine. -/
def routinesOf : List Line → List (List Line)
  | [] => []
  | line :: rest =>
    if line.isExit then [line] :: routinesOf rest
    else
      match routinesOf rest with
      | [] => []
      | first :: others => (line :: first) :: others

/-- The routines in the text section of a program. -/
def Program.routines (p : Program) : List (List Line) :=
  routinesOf ((p.lines.dropWhile fun l => l.stmt ≠ .directive "globl" ["main"]).drop 1)

/-- Code whose only exit is its last line is the first routine of what it begins. -/
theorem routinesOf_append {body rest : List Line} {last : Line} (isExit : last.isExit = true)
    (inner : ∀ l ∈ body, l.isExit = false) :
    routinesOf (body ++ last :: rest) = (body ++ [last]) :: routinesOf rest := by
  induction body with
  | nil => simp [routinesOf, isExit]
  | cons line body ih =>
    rw [List.forall_mem_cons] at inner
    rw [List.cons_append, routinesOf, ih inner.2]
    simp [inner.1]

end Asm

namespace Lower

namespace Emit

variable {α β : Type}

/-- A step that keeps to its function: it emits no exit, and leaves the globals and
the size of the frames alone. This holds also when the step fails. -/
def Confined (step : Emit α) : Prop :=
  ∀ env, (∀ l ∈ (step.run env).lines, l.isExit = false) ∧
    (step.run env).env.globals = env.globals ∧ (step.run env).env.frameSize = env.frameSize

/-- A step that emits nothing keeps to its function if its environment does. -/
theorem confined_of_silent {step : Emit α} (silent : ∀ env, (step.run env).lines = [] ∧
      (step.run env).env.globals = env.globals ∧
      (step.run env).env.frameSize = env.frameSize) : Confined step := by
  intro env
  obtain ⟨lines_eq, kept⟩ := silent env
  exact ⟨by simp [lines_eq], kept⟩

theorem confined_pure {a : α} : Confined (pure a) :=
  confined_of_silent fun _ => ⟨rfl, rfl, rfl⟩

theorem confined_bind {step : Emit α} {next : α → Emit β} (first : Confined step)
    (second : ∀ a, Confined (next a)) : Confined (step >>= next) := by
  intro env
  obtain ⟨noExit, globals_eq, size_eq⟩ := first env
  cases outcome : (step.run env).outcome with
  | error fault =>
    rw [run_bind_of_error outcome]
    exact ⟨noExit, globals_eq, size_eq⟩
  | ok a =>
    obtain ⟨noExit', globals_eq', size_eq'⟩ := second a (step.run env).env
    rw [run_bind_of_ok outcome]
    refine ⟨fun l isMember => ?_, globals_eq'.trans globals_eq, size_eq'.trans size_eq⟩
    exact (List.mem_append.mp isMember).elim (noExit l) (noExit' l)

theorem confined_getEnv : Confined getEnv :=
  confined_of_silent fun _ => ⟨rfl, rfl, rfl⟩

theorem confined_line {l : Line} (noExit : l.isExit = false) : Confined (line l) := by
  intro env
  refine ⟨fun l' isMember => ?_, rfl, rfl⟩
  rw [List.mem_singleton.mp isMember]
  exact noExit

theorem confined_instr {i : Instr} (noExit : i ≠ .ecall) : Confined (instr i) :=
  confined_line (by simpa [Line.isExit, Line.ofInstr] using noExit)

theorem confined_diagnose {d : Diagnostic} : Confined (diagnose d) :=
  confined_of_silent fun _ => ⟨rfl, rfl, rfl⟩

theorem confined_fail {fault : BlockFault} : Confined (fail fault : Emit α) :=
  confined_of_silent fun _ => ⟨rfl, rfl, rfl⟩

theorem confined_forEach {step : α → Emit Unit} (each : ∀ a, Confined (step a))
    (members : List α) : Confined (forEach step members) :=
  forEach_of_forall_mem confined_pure (fun first second => confined_bind first fun _ => second)
    fun a _ => each a

/-- A step that, if it succeeds, emits one routine. -/
def Closed (step : Emit α) : Prop :=
  ∀ env a, (step.run env).outcome = .ok a →
    (∃ body last, (step.run env).lines = body ++ [last] ∧ last.isExit = true ∧
      ∀ l ∈ body, l.isExit = false) ∧
    (step.run env).env.globals = env.globals ∧ (step.run env).env.frameSize = env.frameSize

theorem closed_bind {step : Emit α} {next : α → Emit β} (first : Confined step)
    (second : ∀ a, Closed (next a)) : Closed (step >>= next) := by
  intro env b succeeds
  obtain ⟨noExit, globals_eq, size_eq⟩ := first env
  cases outcome : (step.run env).outcome with
  | error fault =>
    rw [run_bind_of_error outcome] at succeeds
    cases succeeds
  | ok a =>
    rw [run_bind_of_ok outcome] at succeeds ⊢
    obtain ⟨⟨body, last, lines_eq, isExit, inner⟩, globals_eq', size_eq'⟩ :=
      second a (step.run env).env b succeeds
    refine ⟨⟨(step.run env).lines ++ body, last, ?_, isExit, ?_⟩, globals_eq'.trans globals_eq,
      size_eq'.trans size_eq⟩
    · dsimp only
      rw [lines_eq, List.append_assoc]
    · intro l isMember
      exact (List.mem_append.mp isMember).elim (noExit l) (inner l)

/-- An exit after which nothing is emitted. -/
theorem closed_exit {next : Unit → Emit α} (confined : Confined (next ()))
    (silent : ∀ env, ((next ()).run env).lines = []) : Closed (instr .ecall >>= next) := by
  intro env a _
  obtain ⟨-, globals_eq, size_eq⟩ := confined env
  rw [run_bind_of_ok rfl]
  refine ⟨⟨[], .ofInstr .ecall, ?_, rfl, by simp⟩, globals_eq, size_eq⟩
  dsimp only
  rw [silent]
  rfl

end Emit

open Emit

namespace Site

variable {site : Site}

theorem confined_fail {α : Type} {cause : CodeFault} : Confined (site.fail cause : Emit α) :=
  Emit.confined_fail

theorem confined_unresolved {fault : PlacementFault} : Confined (site.unresolved fault) := by
  rw [unresolved]
  split
  · exact confined_diagnose
  · split
    · exact confined_diagnose
    · exact confined_pure

theorem confined_slotFor {name : String} : Confined (site.slotFor name) := by
  intro env
  rw [slotFor, run_getEnv_bind]
  cases given : env.slotFor name with
  | error fault => exact confined_fail env
  | ok result =>
    obtain ⟨frame, -, env_eq⟩ := Env.slotFor_eq_ok given
    dsimp only
    rw [env_eq]
    exact confined_pure _

theorem confined_loadGlobal {rd name : String} : Confined (loadGlobal rd name) :=
  confined_bind (confined_instr (by simp)) fun _ => confined_instr (by simp)

theorem confined_loadLocal {rd name : String} : Confined (site.loadLocal rd name) := by
  rw [loadLocal]
  split
  · exact confined_bind confined_unresolved fun _ => confined_instr (by simp)
  · split
    · exact confined_instr (by simp)
    · refine confined_bind confined_getEnv fun env => ?_
      split
      · exact confined_instr (by simp)
      · exact confined_bind confined_unresolved fun _ => confined_instr (by simp)

theorem confined_loadOperand {rd : String} {operand : IR.Operand} :
    Confined (site.loadOperand rd operand) := by
  cases operand with
  | const value => exact confined_instr (by simp)
  | name name =>
    refine confined_bind confined_getEnv fun env => ?_
    split
    · exact confined_loadGlobal
    · exact confined_loadLocal
  | hole => exact confined_pure

theorem confined_storeLocal {name rs : String} : Confined (site.storeLocal name rs) := by
  rw [storeLocal]
  split
  · exact confined_unresolved
  · split
    · exact confined_instr (by simp)
    · exact confined_bind confined_slotFor fun _ => confined_instr (by simp)

theorem confined_operandAt {i : Instruction} {index : Nat} :
    Confined (site.operandAt i index) := by
  rw [operandAt]
  split
  · exact confined_pure
  · exact confined_fail

theorem confined_resultOf {i : Instruction} : Confined (site.resultOf i) := by
  rw [resultOf]
  split
  · exact confined_pure
  · exact confined_fail

theorem confined_select {i : Instruction} : Confined (site.select i) := by
  rw [select]
  dsimp only
  split
  · refine confined_bind confined_operandAt fun first => confined_bind confined_loadOperand
      fun _ => confined_bind confined_operandAt fun second => confined_bind confined_loadOperand
      fun _ => confined_bind (confined_instr (by simp)) fun _ => confined_bind confined_resultOf
      fun name => confined_storeLocal
  · split
    · exact confined_loadOperand
    · exact confined_pure
  · exact confined_bind confined_resultOf fun name =>
      confined_of_silent fun _ => ⟨rfl, rfl, rfl⟩
  · refine confined_bind confined_operandAt fun first => confined_bind confined_getEnv
      fun env => ?_
    split
    · exact confined_bind confined_loadGlobal fun _ => confined_bind confined_resultOf
        fun name => confined_storeLocal
    · exact confined_bind confined_loadOperand fun _ => confined_bind confined_resultOf
        fun name => confined_storeLocal
  · refine confined_bind confined_operandAt fun target => confined_bind confined_operandAt
      fun value => confined_bind confined_loadOperand fun _ => confined_bind confined_getEnv
      fun env => ?_
    split
    · exact confined_bind (confined_instr (by simp)) fun _ => confined_instr (by simp)
    · exact confined_storeLocal
  · exact confined_pure
  · exact confined_fail

theorem confined_slotLine {i : Instr} {verb : String} {iv : Alloc.Interval}
    (noExit : i ≠ .ecall) : Confined (Emit.line (site.slotLine i verb iv)) :=
  confined_line (by simpa [Line.isExit, slotLine] using noExit)

theorem confined_spill {iv : Alloc.Interval} : Confined (site.spill iv) := by
  rw [spill]
  split
  · exact confined_pure
  · refine confined_bind confined_slotFor fun offset =>
      confined_bind (confined_slotLine (by simp)) fun _ => ?_
    split
    · exact confined_diagnose
    · exact confined_pure

theorem confined_reload {iv : Alloc.Interval} : Confined (site.reload iv) := by
  rw [reload]
  split
  · exact confined_pure
  · refine confined_bind confined_getEnv fun env => ?_
    split
    · exact confined_unresolved
    · exact confined_slotLine (by simp)

theorem confined_writeBack {iv : Alloc.Interval} : Confined (site.writeBack iv) := by
  rw [writeBack]
  split
  · exact confined_pure
  · exact confined_bind confined_slotFor fun offset =>
      confined_slotLine (by simp)

theorem confined_steps (body : List Instruction) : ∀ site : Site, Confined (site.steps body) := by
  induction body with
  | nil => exact fun site => confined_pure
  | cons i rest ih =>
    intro site
    refine confined_bind ?_ fun _ => ih _
    exact confined_bind (confined_forEach (fun iv => confined_spill) _) fun _ =>
      confined_bind (confined_forEach (fun iv => confined_reload) _) fun _ => confined_select

end Site

theorem confined_lowerBlock {config : Config} {function : String} {crossing : List String}
    {b : Block} : Confined (lowerBlock config function crossing b) := by
  refine confined_bind (confined_line rfl) fun _ => confined_bind confined_getEnv fun env => ?_
  dsimp only
  split
  · exact Emit.confined_fail
  · refine confined_bind (Site.confined_steps _ _) fun _ => ?_
    split
    · exact confined_forEach (fun iv => Site.confined_writeBack) _
    · exact confined_pure

theorem confined_frameWarning {config : Config} {function : String} :
    Confined (frameWarning config function) := by
  refine confined_bind confined_getEnv fun env => ?_
  dsimp only
  split
  · exact confined_diagnose
  · exact confined_pure

/-- **The code of a function is a routine.** -/
theorem closed_lowerFunc (config : Config) (f : Func) : Closed (lowerFunc config f) := by
  refine closed_bind (confined_of_silent fun _ => ⟨rfl, rfl, rfl⟩) fun _ =>
    closed_bind (confined_line rfl) fun _ => closed_bind (confined_instr (by simp)) fun _ =>
    closed_bind (confined_forEach (fun b => confined_lowerBlock) _) fun _ =>
    closed_bind (confined_instr (by simp)) fun _ => closed_bind (confined_instr (by simp)) fun _ =>
    closed_exit confined_frameWarning fun env => ?_
  rw [frameWarning, run_getEnv_bind]
  dsimp only
  split <;> rfl

/-- The code of functions is a row of routines, each made in an environment with the
same globals. -/
theorem routinesOf_forEach_lowerFunc {config : Config} (funcs : List Func) :
    ∀ {env : Env}, ((forEach (lowerFunc config) funcs).run env).outcome = .ok () →
      ∀ {k : Nat} {f : Func}, funcs[k]? = some f →
        ∃ start : Env, start.globals = env.globals ∧ start.frameSize = env.frameSize ∧
          ((lowerFunc config f).run start).outcome = .ok () ∧
          (Asm.routinesOf ((forEach (lowerFunc config) funcs).run env).lines)[k]? =
            some ((lowerFunc config f).run start).lines := by
  induction funcs with
  | nil =>
    intro _ _ _ _ isFunc
    cases isFunc
  | cons first rest ih =>
    intro env succeeds k f isFunc
    cases outcome : ((lowerFunc config first).run env).outcome with
    | error fault =>
      rw [forEach, run_bind_of_error outcome] at succeeds
      cases succeeds
    | ok =>
      rw [forEach, run_bind_of_ok outcome] at succeeds ⊢
      obtain ⟨⟨body, last, lines_eq, isExit, inner⟩, globals_eq, size_eq⟩ :=
        closed_lowerFunc config first env _ outcome
      have routines_eq (later : List Line) :
          Asm.routinesOf (((lowerFunc config first).run env).lines ++ later) =
            ((lowerFunc config first).run env).lines :: Asm.routinesOf later := by
        rw [lines_eq, List.append_assoc]
        exact Asm.routinesOf_append isExit inner
      rw [routines_eq]
      cases k with
      | zero =>
        obtain rfl : first = f := by simpa using isFunc
        exact ⟨env, rfl, rfl, outcome, rfl⟩
      | succ k =>
        obtain ⟨start, globals_eq', size_eq', succeeds', isRoutine⟩ := ih succeeds isFunc
        exact ⟨start, globals_eq'.trans globals_eq, size_eq'.trans size_eq, succeeds', isRoutine⟩

/-- The routines of a program are those of the code after its header. -/
theorem routines_header (globals : List IR.Global) (code : List Line) :
    Asm.Program.routines { lines := header globals ++ code } = Asm.routinesOf code := by
  have before : ∀ l ∈ (if globals.isEmpty then []
      else { stmt := .directive "data" [] } :: globals.flatMap globalLines) ++
        [{ stmt := .directive "text" [] }],
      (decide (l.stmt ≠ .directive "globl" ["main"])) = true := by
    intro l isMember
    rcases List.mem_append.mp isMember with isData | isText
    · split at isData
      · cases isData
      · rcases List.mem_cons.mp isData with rfl | isGlobal
        · decide
        · obtain ⟨g, -, isLine⟩ := List.mem_flatMap.mp isGlobal
          rw [globalLines] at isLine
          obtain rfl | rfl : l = { stmt := .label g.name } ∨ l = { stmt := .word g.value } := by
            simpa using isLine
          · simp
          · simp
    · rw [List.mem_singleton.mp isText]
      decide
  have header_eq : header globals ++ code = ((if globals.isEmpty then []
      else { stmt := .directive "data" [] } :: globals.flatMap globalLines) ++
        [{ stmt := .directive "text" [] }]) ++
      { stmt := .directive "globl" ["main"] } :: code := by
    simp [header]
  rw [Asm.Program.routines, header_eq, List.dropWhile_append_of_pos before]
  rfl

end Lower

end RiscBackend
