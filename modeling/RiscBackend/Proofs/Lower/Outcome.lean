/-
# What lowering a module comes to

A module is refused at once, for a fault of its structure or because there are no registers,
or its functions are lowered in a row. A function does not notice the functions before it:
it starts with an empty frame and nothing hidden, and the globals and the size of the frames
are the same for all. So lowering a module is lowering each function on its own and putting
the codes into a row, up to the first that stops at a fault.

Nothing is assumed about the module here. It need not be valid.
-/

import RiscBackend.Proofs.Lower.Routines
import RiscBackend.Proofs.Lower.Sequence

namespace RiscBackend.Lower

open IR (Func Global Module)
open Asm (Line)
open Emit

/-- What lowering yields, the environment aside. -/
structure Code where
  lines : List Line
  diagnostics : Diagnostics
  outcome : Except BlockFault Unit

/-- The code of an emission. -/
def Emission.code (e : Emission Unit) : Code :=
  { lines := e.lines, diagnostics := e.diagnostics, outcome := e.outcome }

namespace Code

/-- Codes in a row. Nothing follows a code that stops at a fault. -/
def row : List Code → Code
  | [] => { lines := [], diagnostics := [], outcome := .ok () }
  | c :: rest =>
    match c.outcome with
    | .error _ => c
    | .ok () =>
      { lines := c.lines ++ (row rest).lines
        diagnostics := c.diagnostics ++ (row rest).diagnostics
        outcome := (row rest).outcome }

variable {c : Code} {codes rest : List Code} {fault : BlockFault}

theorem row_cons_of_ok (succeeds : c.outcome = .ok ()) :
    row (c :: rest) =
      { lines := c.lines ++ (row rest).lines
        diagnostics := c.diagnostics ++ (row rest).diagnostics
        outcome := (row rest).outcome } := by
  rw [row, succeeds]

theorem row_cons_of_error (fails : c.outcome = .error fault) : row (c :: rest) = c := by
  rw [row, fails]

/-- A code alone is a row. -/
theorem row_singleton (c : Code) : row [c] = c := by
  obtain ⟨lines, ds, outcome⟩ := c
  cases outcome with
  | error fault => rfl
  | ok => simp [row]

/-- Codes without a fault make a row of all their lines and diagnostics. -/
theorem row_of_ok (succeed : ∀ c ∈ codes, c.outcome = .ok ()) :
    row codes =
      { lines := codes.flatMap lines, diagnostics := codes.flatMap diagnostics
        outcome := .ok () } := by
  induction codes with
  | nil => rfl
  | cons c rest ih =>
    rw [List.forall_mem_cons] at succeed
    rw [row_cons_of_ok succeed.1, ih succeed.2, List.flatMap_cons, List.flatMap_cons]

/-- A row succeeds exactly when each of its codes does. -/
theorem outcome_row_eq_ok : (row codes).outcome = .ok () ↔ ∀ c ∈ codes, c.outcome = .ok () := by
  constructor
  · intro succeeds
    induction codes with
    | nil => simp
    | cons c rest ih =>
      cases outcome : c.outcome with
      | error fault =>
        rw [row_cons_of_error outcome, outcome] at succeeds
        cases succeeds
      | ok =>
        rw [row_cons_of_ok outcome] at succeeds
        exact List.forall_mem_cons.mpr ⟨outcome, ih succeeds⟩
  · intro succeed
    rw [row_of_ok succeed]

/-- A row stops at the fault of its first code that has one. -/
theorem outcome_row_eq_error (fails : (row codes).outcome = .error fault) :
    ∃ before c after, codes = before ++ c :: after ∧ (∀ d ∈ before, d.outcome = .ok ()) ∧
      c.outcome = .error fault := by
  induction codes with
  | nil => cases fails
  | cons c rest ih =>
    cases outcome : c.outcome with
    | error fault' =>
      rw [row_cons_of_error outcome] at fails
      exact ⟨[], c, rest, rfl, by simp, fails⟩
    | ok =>
      rw [row_cons_of_ok outcome] at fails
      obtain ⟨before, d, after, rfl, succeed, stops⟩ := ih fails
      exact ⟨c :: before, d, after, rfl, List.forall_mem_cons.mpr ⟨outcome, succeed⟩, stops⟩

/-- What a row of functions makes of a module: a fault, errors that were reported on the
way, or a program. -/
def verdict (globals : List Global) (c : Code) : Except LoweringFault Asm.Program :=
  match c.outcome with
  | .error fault => .error (.block fault)
  | .ok () =>
    if c.diagnostics.hasErrors then .error (.diagnostics c.diagnostics)
    else .ok { lines := header globals ++ c.lines }

theorem verdict_of_error {globals : List Global} (fails : c.outcome = .error fault) :
    c.verdict globals = .error (.block fault) := by
  rw [verdict, fails]

theorem verdict_of_ok {globals : List Global} (succeeds : c.outcome = .ok ()) :
    c.verdict globals =
      if c.diagnostics.hasErrors then .error (.diagnostics c.diagnostics)
      else .ok { lines := header globals ++ c.lines } := by
  rw [verdict, succeeds]

end Code

variable {config : Config} {globals : List Global} {f : Func} {env : Env}

/-- The environment in which the functions of a module with these globals start. -/
def startEnv (config : Config) (globals : List Global) : Env :=
  globals.foldl Env.define (.ofFrameSize config.frameSize)

/-- The emission of a function beside these globals, and nothing else. -/
def codeOf (config : Config) (globals : List Global) (f : Func) : Emission Unit :=
  (lowerFunc config f).run (startEnv config globals)

/-- Distinct globals are all there is at the start. -/
theorem globals_startEnv (nodup : (globals.map Global.name).Nodup) :
    (startEnv config globals).globals = globals := by
  rw [startEnv, foldl_define_eq globals _ nodup fun g _ => rfl]
  rfl

/-- Whatever was lowered before, a function gets its own code. -/
theorem run_lowerFunc_eq_codeOf (same : env.beginFunction = (startEnv config globals).beginFunction) :
    (lowerFunc config f).run env = codeOf config globals f := by
  have begins (env' : Env) : (lowerFunc config f).run env' =
      (lowerFunc config f).run env'.beginFunction := rfl
  rw [codeOf, begins, same, ← begins]

/-- Lowering a function changes nothing with which the next one starts. -/
theorem beginFunction_lowerFunc (succeeds : ((lowerFunc config f).run env).outcome = .ok ()) :
    ((lowerFunc config f).run env).env.beginFunction = env.beginFunction := by
  obtain ⟨-, globals_eq, size_eq⟩ := closed_lowerFunc config f env () succeeds
  rw [Env.beginFunction, Env.beginFunction, globals_eq, size_eq]

/-- **Functions in a row.** Lowering functions one after another is lowering each of them on
its own. -/
theorem code_forEach_lowerFunc (funcs : List Func)
    (same : env.beginFunction = (startEnv config globals).beginFunction) :
    ((forEach (lowerFunc config) funcs).run env).code =
      Code.row (funcs.map fun f => (codeOf config globals f).code) := by
  induction funcs generalizing env with
  | nil => rfl
  | cons f rest ih =>
    have run_eq : (lowerFunc config f).run env = codeOf config globals f :=
      run_lowerFunc_eq_codeOf same
    rw [forEach, List.map_cons]
    cases outcome : (codeOf config globals f).outcome with
    | error fault =>
      rw [run_bind_of_error (by rw [run_eq, outcome]), Code.row_cons_of_error outcome, run_eq,
        ← outcome]
    | ok =>
      have succeeds : ((lowerFunc config f).run env).outcome = .ok () := by rw [run_eq, outcome]
      rw [run_bind_of_ok succeeds, Code.row_cons_of_ok outcome,
        ← ih ((beginFunction_lowerFunc succeeds).trans same), run_eq]
      rfl

/-- Why a module is refused before any of its functions is lowered. -/
def refusal? (config : Config) (m : Module) : Option LoweringFault :=
  match if config.feature .validate then m.validate else .ok () with
  | .error fault => some (.invalidModule fault)
  | .ok () => if config.registers.isEmpty then some .emptyPool else none

/-- The code of a module's functions in a row. -/
def moduleCode (config : Config) (m : Module) : Code :=
  .row (m.funcs.map fun f => (codeOf config m.globals f).code)

/-- The functions in a row succeed exactly when each of them does. -/
theorem outcome_moduleCode_eq_ok {m : Module} :
    (moduleCode config m).outcome = .ok () ↔
      ∀ f ∈ m.funcs, (codeOf config m.globals f).outcome = .ok () := by
  rw [moduleCode, Code.outcome_row_eq_ok, List.forall_mem_map]
  rfl

/-- When they succeed, all their lines and diagnostics are there. -/
theorem moduleCode_of_ok {m : Module} (succeeds : (moduleCode config m).outcome = .ok ()) :
    moduleCode config m =
      { lines := m.funcs.flatMap fun f => (codeOf config m.globals f).lines
        diagnostics := m.funcs.flatMap fun f => (codeOf config m.globals f).diagnostics
        outcome := .ok () } := by
  rw [moduleCode, Code.outcome_row_eq_ok] at succeeds
  rw [moduleCode, Code.row_of_ok succeeds, List.flatMap_map, List.flatMap_map]
  rfl

/-- When they fail, the first function that fails is to blame. -/
theorem outcome_moduleCode_eq_error {m : Module} {fault : BlockFault}
    (fails : (moduleCode config m).outcome = .error fault) :
    ∃ before f after, m.funcs = before ++ f :: after ∧
      (∀ g ∈ before, (codeOf config m.globals g).outcome = .ok ()) ∧
      (codeOf config m.globals f).outcome = .error fault := by
  obtain ⟨codes, c, codes', split_eq, succeed, stops⟩ := Code.outcome_row_eq_error fails
  obtain ⟨before, later, funcs_eq, rfl, later_eq⟩ := List.map_eq_append_iff.mp split_eq
  obtain ⟨f, after, rfl, rfl, -⟩ := List.map_eq_cons_iff.mp later_eq
  exact ⟨before, f, after, funcs_eq, List.forall_mem_map.mp succeed, stops⟩

/-- A module that is refused leaves everything as it was. -/
theorem Lowering.addModule_of_refused {l : Lowering} {m : Module} {fault : LoweringFault}
    (refused : refusal? l.config m = some fault) : l.addModule m = (l, .error fault) := by
  rw [refusal?] at refused
  rw [addModule]
  dsimp only
  cases verdict : (if l.config.feature .validate then m.validate else .ok ()) with
  | error e =>
    rw [verdict] at refused
    cases refused
    rfl
  | ok =>
    rw [verdict] at refused
    dsimp only at refused ⊢
    split at refused
    · rename_i none
      cases refused
      rw [if_pos none]
    · cases refused

/-- The verdict on a module that is admitted comes from its code and from what was reported
before. -/
theorem Lowering.addModule_of_admitted {l : Lowering} {m : Module}
    (admitted : refusal? l.config m = none) {env : Env} {e : Emission Unit}
    (env_eq : m.globals.foldl Env.define l.env = env)
    (run_eq : (forEach (lowerFunc l.config) m.funcs).run env = e) :
    l.addModule m =
      ({ l with
          env := e.env
          program := { lines := l.program.lines ++ header env.globals ++ e.lines }
          diagnostics := l.diagnostics ++ e.diagnostics },
        match e.outcome with
        | .error fault => .error (.block fault)
        | .ok () =>
          if Diagnostics.hasErrors (l.diagnostics ++ e.diagnostics) then
            .error (.diagnostics (l.diagnostics ++ e.diagnostics))
          else .ok ()) := by
  rw [refusal?] at admitted
  rw [addModule]
  dsimp only
  rw [env_eq, run_eq]
  cases verdict : (if l.config.feature .validate then m.validate else .ok ()) with
  | error e =>
    rw [verdict] at admitted
    cases admitted
  | ok =>
    rw [verdict] at admitted
    dsimp only at admitted ⊢
    split at admitted
    · cases admitted
    · rename_i some
      rw [if_neg some]
      cases e.outcome with
      | error fault => rfl
      | ok =>
        dsimp only
        split <;> rfl

theorem lowerModule_of_refused {m : Module} {fault : LoweringFault}
    (refused : refusal? config m = some fault) : lowerModule config m = (.error fault, []) := by
  rw [lowerModule, Lowering.addModule_of_refused refused]
  rfl

/-- **Lowering a module.** A module that is not refused is lowered function by function. -/
theorem lowerModule_of_admitted {m : Module} (admitted : refusal? config m = none) :
    lowerModule config m =
      ((moduleCode config m).verdict (startEnv config m.globals).globals,
        (moduleCode config m).diagnostics) := by
  have row_eq : ((forEach (lowerFunc config) m.funcs).run (startEnv config m.globals)).code =
      moduleCode config m := code_forEach_lowerFunc m.funcs rfl
  cases run_eq : (forEach (lowerFunc config) m.funcs).run (startEnv config m.globals) with
  | mk lines ds env outcome =>
    rw [lowerModule,
      Lowering.addModule_of_admitted (l := .ofConfig config) admitted rfl run_eq, ← row_eq, run_eq]
    cases outcome with
    | error fault => rfl
    | ok =>
      show (Except.map _ (if ds.hasErrors then _ else _), ds) = (if ds.hasErrors then _ else _, ds)
      cases ds.hasErrors <;> rfl

/-- A valid module is admitted when there are registers. -/
theorem refusal?_eq_none {m : Module} (nonempty : config.registers ≠ [])
    (validated : config.feature .validate = true → m.validate = .ok ()) :
    refusal? config m = none := by
  have passes : (if config.feature .validate then m.validate else .ok ()) = .ok () := by
    split
    · rename_i validates
      exact validated validates
    · rfl
  rw [refusal?, passes]
  simpa using nonempty

/-- What the refusal of a module means. -/
theorem refusal?_eq_some {m : Module} {fault : LoweringFault}
    (refused : refusal? config m = some fault) :
    (config.feature .validate = true ∧ ∃ e, m.validate = .error e ∧ fault = .invalidModule e) ∨
      (config.registers = [] ∧ fault = .emptyPool) := by
  rw [refusal?] at refused
  split at refused
  · rename_i e fails
    left
    split at fails
    · rename_i validates
      cases refused
      exact ⟨validates, e, fails, rfl⟩
    · cases fails
  · right
    split at refused
    · rename_i none
      cases refused
      exact ⟨by simpa using none, rfl⟩
    · cases refused

end RiscBackend.Lower
