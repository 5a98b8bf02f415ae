/-
# Functions are lowered separately

A function starts with an empty frame and nothing hidden, and it leaves the globals and
the size of the frames alone. So its code does not depend on the functions before it: the
program of a module is its header and the code of each function on its own, and the
diagnostics are those of each function.
-/

import RiscBackend.Proofs.Lower.Meaning
import RiscBackend.Proofs.Lower.Outcome

namespace RiscBackend.Lower

open IR (Func)
open Asm (Line)
open Emit

/-- The environment in which a function of a module starts. -/
def entryEnv (config : Config) (source : IR.Module) : Env :=
  { Env.ofFrameSize config.frameSize with globals := source.globals }

/-- The code of a function of a module. -/
def funcCode (config : Config) (source : IR.Module) (f : Func) : Emission Unit :=
  (lowerFunc config f).run (entryEnv config source)

variable {config : Config} {source : IR.Module} {f : Func} {env : Env}

/-- Whatever was lowered before, a function gets its own code. -/
theorem run_lowerFunc_eq (globals_eq : env.globals = source.globals)
    (size_eq : env.frameSize = config.frameSize) :
    (lowerFunc config f).run env = funcCode config source f := by
  have begins (env' : Env) : (lowerFunc config f).run env' =
      (lowerFunc config f).run env'.beginFunction := rfl
  have start_eq : env.beginFunction = entryEnv config source := by
    rw [Env.beginFunction, globals_eq, size_eq]
    rfl
  rw [begins, start_eq, funcCode]

/-- Functions that are lowered one after another are lowered each on its own. -/
theorem run_eq_of_mem_visits {funcs : List Func} {v : Func × Env}
    (globals_eq : env.globals = source.globals) (size_eq : env.frameSize = config.frameSize)
    (visited : v ∈ visits (lowerFunc config) funcs env) :
    (lowerFunc config v.1).run v.2 = funcCode config source v.1 := by
  have kept : v.2.globals = source.globals ∧ v.2.frameSize = config.frameSize := by
    refine kept_of_mem_visits (fun env => env.globals = source.globals ∧
      env.frameSize = config.frameSize) ?_ ⟨globals_eq, size_eq⟩ visited
    rintro f - env ⟨globals_eq, size_eq⟩ succeeds
    obtain ⟨-, same_globals, same_size⟩ := closed_lowerFunc config f env () succeeds
    exact ⟨same_globals.trans globals_eq, same_size.trans size_eq⟩
  exact run_lowerFunc_eq kept.1 kept.2

/-- Functions are lowered in a row when each of them is. Their code is then a row of
routines, and their diagnostics come in the same order. -/
theorem forEach_lowerFunc_eq {funcs : List Func} (globals_eq : env.globals = source.globals)
    (size_eq : env.frameSize = config.frameSize)
    (succeed : ∀ f ∈ funcs, (funcCode config source f).outcome = .ok ()) :
    Asm.routinesOf ((forEach (lowerFunc config) funcs).run env).lines =
        funcs.map (fun f => (funcCode config source f).lines) ∧
      ((forEach (lowerFunc config) funcs).run env).diagnostics =
        funcs.flatMap fun f => (funcCode config source f).diagnostics := by
  induction funcs generalizing env with
  | nil => exact ⟨rfl, rfl⟩
  | cons first rest ih =>
    rw [List.forall_mem_cons] at succeed
    have run_eq : (lowerFunc config first).run env = funcCode config source first :=
      run_lowerFunc_eq globals_eq size_eq
    have here : ((lowerFunc config first).run env).outcome = .ok () := by rw [run_eq, succeed.1]
    obtain ⟨⟨body, last, lines_eq, isExit, inner⟩, same_globals, same_size⟩ :=
      closed_lowerFunc config first env () here
    obtain ⟨routines_eq, diagnostics_eq⟩ :=
      ih (same_globals.trans globals_eq) (same_size.trans size_eq) succeed.2
    rw [forEach, run_bind_of_ok here]
    constructor
    · dsimp only
      rw [lines_eq, List.append_assoc, List.singleton_append, Asm.routinesOf_append isExit inner,
        routines_eq, ← lines_eq, run_eq, List.map_cons]
    · dsimp only
      rw [diagnostics_eq, run_eq, List.flatMap_cons]

/-- If functions are lowered in a row, each of them is lowered. -/
theorem funcCode_eq_ok {funcs : List Func} (globals_eq : env.globals = source.globals)
    (size_eq : env.frameSize = config.frameSize)
    (succeeds : ((forEach (lowerFunc config) funcs).run env).outcome = .ok ()) :
    ∀ f ∈ funcs, (funcCode config source f).outcome = .ok () := by
  induction funcs generalizing env with
  | nil => simp
  | cons first rest ih =>
    rw [forEach] at succeeds
    obtain ⟨_, here, later⟩ := outcome_bind_eq_ok succeeds
    obtain ⟨-, same_globals, same_size⟩ := closed_lowerFunc config first env () here
    rw [List.forall_mem_cons, ← run_lowerFunc_eq globals_eq size_eq]
    exact ⟨here, ih (same_globals.trans globals_eq) (same_size.trans size_eq) later⟩

/-- The globals of a valid module are all that its functions start with. -/
theorem foldl_define_eq_entryEnv (valid : source.Valid) :
    source.globals.foldl Env.define (.ofFrameSize config.frameSize) = entryEnv config source :=
  foldl_define_ofFrameSize valid.nodup_globals config.frameSize

/-- A module that is refused at once has no diagnostics, and every other one has those of
its functions. -/
theorem diagnostics_lowerModule (config : Config) (source : IR.Module) :
    ((lowerModule config source).2 = [] ∧ ∀ program, (lowerModule config source).1 ≠ .ok program) ∨
      (lowerModule config source).2 = ((forEach (lowerFunc config) source.funcs).run
        (source.globals.foldl Env.define (.ofFrameSize config.frameSize))).diagnostics := by
  rw [lowerModule, Lowering.addModule]
  dsimp only
  split
  · exact .inl ⟨rfl, by simp [Except.map]⟩
  · split
    · exact .inl ⟨rfl, by simp [Except.map]⟩
    · right
      split
      · rfl
      · split <;> rfl

/-- A valid module is reported about only by its functions. -/
theorem mem_diagnostics_lowerModule {d : Diagnostic} (valid : source.Valid)
    (reported : d ∈ (lowerModule config source).2) :
    d ∈ ((forEach (lowerFunc config) source.funcs).run (entryEnv config source)).diagnostics := by
  rcases diagnostics_lowerModule config source with ⟨none, -⟩ | diagnostics_eq
  · simp [none] at reported
  · rwa [diagnostics_eq, foldl_define_eq_entryEnv valid] at reported

/-- **The code of a module.** -/
theorem lowerModule_separates {program : Asm.Program} {ds : Diagnostics}
    (validates : config.feature .validate = true)
    (lowered : lowerModule config source = (.ok program, ds)) :
    source.Valid ∧ (∀ f ∈ source.funcs, (funcCode config source f).outcome = .ok ()) ∧
      program.routines = source.funcs.map (fun f => (funcCode config source f).lines) ∧
      ds = source.funcs.flatMap fun f => (funcCode config source f).diagnostics := by
  obtain ⟨valid, env, globals_eq, size_eq, succeeds, rfl⟩ := lowerModule_eq_ok validates lowered
  have succeed := funcCode_eq_ok globals_eq size_eq succeeds
  refine ⟨valid, succeed, ?_, ?_⟩
  · rw [routines_header, (forEach_lowerFunc_eq globals_eq size_eq succeed).1]
  · rcases diagnostics_lowerModule config source with ⟨-, refused⟩ | diagnostics_eq
    · exact absurd (congrArg Prod.fst lowered) (refused _)
    · rw [lowered, foldl_define_eq_entryEnv valid] at diagnostics_eq
      exact diagnostics_eq.trans (forEach_lowerFunc_eq rfl rfl succeed).2

/-- The code of the blocks of a function of a module. -/
def blocksCode (config : Config) (source : IR.Module) (f : Func) : Emission Unit :=
  (forEach (lowerBlock config f.name (Alloc.crossing f)) f.blocks).run (entryEnv config source)

/-- The first lines of a function: its label, and its frame is opened. -/
def prologue (config : Config) (f : Func) : List Line :=
  [{ stmt := .label f.name },
    .ofInstr (.addi config.stackRegister config.stackRegister (-config.frameSize))]

/-- The last lines of a function: its frame is closed, and it exits. -/
def epilogue (config : Config) : List Line :=
  [.ofInstr (.addi config.stackRegister config.stackRegister config.frameSize),
    .ofInstr (.li config.syscallRegister config.exitSyscall), .ofInstr .ecall]

/-- The code of a function is that of its blocks between the two. -/
theorem funcCode_eq_blocksCode (succeeds : (funcCode config source f).outcome = .ok ()) :
    (blocksCode config source f).outcome = .ok () ∧
      (funcCode config source f).lines =
        prologue config f ++ (blocksCode config source f).lines ++ epilogue config ∧
      (blocksCode config source f).diagnostics <+: (funcCode config source f).diagnostics := by
  have silent (env : Env) : ((frameWarning config f.name).run env).lines = [] := by
    rw [frameWarning, run_getEnv_bind]
    dsimp only
    split <;> rfl
  rw [funcCode, lowerFunc] at succeeds ⊢
  rw [run_bind_of_ok rfl, run_bind_of_ok rfl, run_bind_of_ok rfl] at succeeds ⊢
  obtain ⟨_, blocks_ok, -⟩ := outcome_bind_eq_ok succeeds
  rw [run_bind_of_ok blocks_ok, run_bind_of_ok rfl, run_bind_of_ok rfl, run_bind_of_ok rfl]
  refine ⟨blocks_ok, ?_, ?_⟩
  · dsimp only
    rw [silent, List.append_assoc]
    rfl
  · exact List.prefix_append _ _

/-- **The lines of a module.** A valid module that is lowered, under whatever settings, has its
header and then the code of its functions, each of which is lowered. -/
theorem lines_of_lowerModule {program : Asm.Program} {ds : Diagnostics} (valid : source.Valid)
    (lowered : lowerModule config source = (.ok program, ds)) :
    (∀ f ∈ source.funcs, (blocksCode config source f).outcome = .ok ()) ∧
      program.lines = header source.globals ++ source.funcs.flatMap fun f =>
        prologue config f ++ (blocksCode config source f).lines ++ epilogue config := by
  have start_eq : startEnv config source.globals = entryEnv config source :=
    foldl_define_eq_entryEnv valid
  have code_eq (f : Func) : codeOf config source.globals f = funcCode config source f := by
    rw [codeOf, start_eq, funcCode]
  cases refused : refusal? config source with
  | some fault =>
    rw [lowerModule_of_refused refused] at lowered
    cases lowered
  | none =>
    rw [lowerModule_of_admitted refused] at lowered
    have verdict := congrArg Prod.fst lowered
    cases outcome : (moduleCode config source).outcome with
    | error fault =>
      rw [Code.verdict_of_error outcome] at verdict
      cases verdict
    | ok =>
      rw [Code.verdict_of_ok outcome] at verdict
      split at verdict
      · cases verdict
      · cases verdict
        have succeed := outcome_moduleCode_eq_ok.mp outcome
        simp only [code_eq] at succeed
        constructor
        · exact fun f inModule => (funcCode_eq_blocksCode (succeed f inModule)).1
        · rw [moduleCode_of_ok outcome, start_eq]
          apply congrArg (header source.globals ++ ·)
          apply List.flatMap_congr
          intro f inModule
          rw [code_eq, (funcCode_eq_blocksCode (succeed f inModule)).2.1]

/-- A function is reported about by its blocks, or for the use of its frame. -/
theorem mem_diagnostics_funcCode {d : Diagnostic}
    (reported : d ∈ (funcCode config source f).diagnostics) :
    d ∈ (blocksCode config source f).diagnostics ∨ ∃ used : Int64,
      d.message = s!"function uses {used} of {config.frameSize} stack frame bytes" := by
  rw [funcCode, lowerFunc] at reported
  rw [run_bind_of_ok rfl, run_bind_of_ok rfl, run_bind_of_ok rfl] at reported
  rcases mem_diagnostics_bind reported with inBlocks | ⟨_, -, atEnd⟩
  · exact .inl inBlocks
  · right
    rw [run_bind_of_ok rfl, run_bind_of_ok rfl, run_bind_of_ok rfl, frameWarning,
      run_getEnv_bind] at atEnd
    dsimp only at atEnd
    split at atEnd
    · obtain rfl := List.mem_singleton.mp atEnd
      exact ⟨_, rfl⟩
    · cases atEnd

end RiscBackend.Lower
