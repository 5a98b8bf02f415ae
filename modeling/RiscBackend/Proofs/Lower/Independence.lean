/-
# Functions are lowered independently

Lowering passes one environment through all functions of a module: the globals, the names
that hide them, the frame and its slots. Nothing of it leaks from one function into the next.
A lenient lowering of a valid module is determined by the lowerings of the modules that keep
its globals and one of its functions each.
-/

import RiscBackend.Proofs.Lower.Lockstep

namespace RiscBackend

namespace IR

/-- The module with its globals and one function alone. -/
def Module.only (m : Module) (f : Func) : Module :=
  { globals := m.globals, funcs := [f] }

/-- A valid module stays valid with one of its functions alone. -/
theorem Module.validate_only {m : Module} (validated : m.validate = .ok ()) {f : Func}
    (inModule : f ∈ m.funcs) : (m.only f).validate = .ok () := by
  rw [validate_eq_ok_iff] at validated ⊢
  obtain ⟨nodup, named, -, checked⟩ := validated
  refine ⟨nodup, named, List.nodup_singleton f.name, fun g isOnly => ?_⟩
  rw [List.mem_singleton.mp isOnly]
  exact checked f inModule

end IR

namespace Lower

open IR (Func Global Module)
open Asm (Line)

/-- Without errors, the verdict on a code is how it ended. -/
theorem Code.verdict_of_harmless {c : Code} (harmless : c.diagnostics.hasErrors = false)
    (globals : List Global) :
    c.verdict globals =
      match c.outcome with
      | .error fault => .error (.block fault)
      | .ok () => .ok { lines := header globals ++ c.lines } := by
  rw [verdict, harmless]
  rfl

variable {config : Config} {m : Module}

/-- A valid module in lenient mode: how the row of its functions ends is how the module ends. -/
theorem lowerModule_lenient (validated : m.validate = .ok ()) (nonempty : config.registers ≠ [])
    (lenient : config.feature .strict = false) :
    lowerModule config m =
      (match (moduleCode config m).outcome with
        | .error fault => .error (.block fault)
        | .ok () => .ok { lines := header m.globals ++ (moduleCode config m).lines },
        (moduleCode config m).diagnostics) := by
  rw [lowerModule_of_admitted (refusal?_eq_none nonempty fun _ => validated),
    globals_startEnv (IR.Module.valid_of_validate validated).nodup_globals,
    Code.verdict_of_harmless (hasErrors_moduleCode lenient m)]

/-- One function alone: the module ends as the code of the function does. -/
theorem lowerModule_only (validated : m.validate = .ok ()) (nonempty : config.registers ≠ [])
    (lenient : config.feature .strict = false) {f : Func} (inModule : f ∈ m.funcs) :
    lowerModule config (m.only f) =
      (match (codeOf config m.globals f).outcome with
        | .error fault => .error (.block fault)
        | .ok () => .ok { lines := header m.globals ++ (codeOf config m.globals f).lines },
        (codeOf config m.globals f).diagnostics) := by
  have alone : moduleCode config (m.only f) = (codeOf config m.globals f).code :=
    Code.row_singleton _
  rw [lowerModule_lenient (IR.Module.validate_only validated inModule) nonempty lenient, alone]
  rfl

/-- The code of a function succeeds exactly when the module with it alone is lowered. -/
theorem outcome_codeOf_eq_ok (validated : m.validate = .ok ()) (nonempty : config.registers ≠ [])
    (lenient : config.feature .strict = false) {f : Func} (inModule : f ∈ m.funcs) :
    (codeOf config m.globals f).outcome = .ok () ↔
      ∃ p, (lowerModule config (m.only f)).1 = .ok p := by
  rw [lowerModule_only validated nonempty lenient inModule]
  cases (codeOf config m.globals f).outcome <;> simp

/-- **Independence of functions.** A valid module is lowered exactly when each of its functions
is, beside the same globals and nothing else. The program is then the header followed by the
code of the functions, each the one that follows the header when the function is alone, and what
is reported is what is reported about the functions, in order. Otherwise the module fails as the
first function does that fails alone. -/
theorem lowerModule_functions_independent (validated : m.validate = .ok ())
    (nonempty : config.registers ≠ []) (lenient : config.feature .strict = false) :
    ((∃ p, (lowerModule config m).1 = .ok p) ↔
      ∀ f ∈ m.funcs, ∃ p, (lowerModule config (m.only f)).1 = .ok p) ∧
    (∀ p, (lowerModule config m).1 = .ok p →
      (∃ codes : List (List Line), p.lines = header m.globals ++ codes.flatten ∧
        List.Forall₂ (fun f code => (lowerModule config (m.only f)).1 =
          .ok { lines := header m.globals ++ code }) m.funcs codes) ∧
      (lowerModule config m).2 = m.funcs.flatMap fun f => (lowerModule config (m.only f)).2) ∧
    (∀ fault, (lowerModule config m).1 = .error fault →
      ∃ before f after, m.funcs = before ++ f :: after ∧
        (∀ g ∈ before, ∃ p, (lowerModule config (m.only g)).1 = .ok p) ∧
        (lowerModule config (m.only f)).1 = .error fault) := by
  have whole := lowerModule_lenient validated nonempty lenient
  have single {f : Func} := @lowerModule_only config m validated nonempty lenient f
  have lowers_iff {f : Func} := @outcome_codeOf_eq_ok config m validated nonempty lenient f
  cases outcome : (moduleCode config m).outcome with
  | error fault =>
    rw [outcome] at whole
    obtain ⟨before, f, after, funcs_eq, succeed, stops⟩ := outcome_moduleCode_eq_error outcome
    have inModule : f ∈ m.funcs := by simp [funcs_eq]
    have fails : (lowerModule config (m.only f)).1 = .error (.block fault) := by
      rw [single inModule, stops]
    rw [whole]
    refine ⟨⟨by simp, fun lowers => ?_⟩, by simp, fun fault' same => ?_⟩
    · obtain ⟨p, lowered⟩ := lowers f inModule
      cases fails.symm.trans lowered
    · cases same
      refine ⟨before, f, after, funcs_eq, fun g isBefore => ?_, fails⟩
      exact (lowers_iff (by simp [funcs_eq, isBefore])).mp (succeed g isBefore)
  | ok =>
    have succeed := outcome_moduleCode_eq_ok.mp outcome
    rw [moduleCode_of_ok outcome] at whole
    rw [whole]
    refine ⟨⟨fun _ f inModule => ?_, fun _ => ⟨_, rfl⟩⟩, fun p same => ?_, by simp⟩
    · exact (lowers_iff inModule).mp (succeed f inModule)
    · cases same
      refine ⟨⟨m.funcs.map fun f => (codeOf config m.globals f).lines, rfl, ?_⟩, ?_⟩
      · rw [List.forall₂_map_right_iff, List.forall₂_same]
        intro f inModule
        rw [single inModule, succeed f inModule]
      · refine List.flatMap_congr fun f inModule => ?_
        rw [single inModule]

/-- A function with a local that hides a global. -/
def prelude : Func where
  name := "prelude"
  blocks :=
    [{ label := "entry"
       body :=
        [.alloca "g", .store (.const 1) "g", .binary (.arith .add) "x" (.name "g") (.name "g"),
          .ret (.name "x")] }]

/-- Two functions beside one global, which the first hides and the second reads and writes. -/
def staged : Module where
  globals := crowded.globals
  funcs := [prelude, crowdedMain]

/-- In large frames both functions are lowered. In a frame of two slots the second one fails, and
its fault is that of the module. -/
theorem lowerModule_functions_independent_staged :
    staged.validate = .ok () ∧
    (∃ p first second, (lowerModule { registers := ["s1"] } staged).1 = .ok p ∧
      p.lines = header staged.globals ++ (first ++ second) ∧
      (lowerModule { registers := ["s1"] } (staged.only prelude)).1 =
        .ok { lines := header staged.globals ++ first } ∧
      (lowerModule { registers := ["s1"] } (staged.only crowdedMain)).1 =
        .ok { lines := header staged.globals ++ second }) ∧
    ∃ fault, (lowerModule { registers := ["s1"], frameSize := 8 } staged).1 = .error fault ∧
      (∃ p, (lowerModule { registers := ["s1"], frameSize := 8 } (staged.only prelude)).1 = .ok p) ∧
      (lowerModule { registers := ["s1"], frameSize := 8 } (staged.only crowdedMain)).1 =
        .error fault := by
  have validated : staged.validate = .ok () := by decide
  obtain ⟨-, large, -⟩ : _ ∧ _ ∧ _ :=
    @lowerModule_functions_independent { registers := ["s1"] } staged validated (by simp) rfl
  obtain ⟨-, -, small⟩ : _ ∧ _ ∧ _ :=
    @lowerModule_functions_independent { registers := ["s1"], frameSize := 8 } staged validated
      (by simp) rfl
  have lowers : (lowerModule { registers := ["s1"] } staged).1.toOption.isSome = true := by
    simp only [lowerModule, Lowering.addModule, staged, prelude, crowdedMain, Emit.forEach,
      lowerFunc, lowerBlock, Alloc.allocate, Alloc.assign, scanOrder_blockTable]
    decide +kernel
  have fails : (lowerModule { registers := ["s1"], frameSize := 8 } staged).1.toOption = none := by
    simp only [lowerModule, Lowering.addModule, staged, prelude, crowdedMain, Emit.forEach,
      lowerFunc, lowerBlock, Alloc.allocate, Alloc.assign, scanOrder_blockTable]
    decide +kernel
  have begins : (lowerModule { registers := ["s1"], frameSize := 8 }
      (staged.only prelude)).1.toOption.isSome = true := by
    simp only [lowerModule, Lowering.addModule, IR.Module.only, prelude, Emit.forEach, lowerFunc,
      lowerBlock, Alloc.allocate, Alloc.assign, scanOrder_blockTable]
    decide +kernel
  refine ⟨validated, ?_, ?_⟩
  · cases lowered : (lowerModule { registers := ["s1"] } staged).1 with
    | error fault =>
      rw [lowered] at lowers
      cases lowers
    | ok p =>
      obtain ⟨⟨codes, lines_eq, alone⟩, -⟩ := large p lowered
      cases alone with
      | cons first later =>
        cases later with
        | cons second none =>
          cases none
          refine ⟨p, _, _, rfl, ?_, first, second⟩
          simpa using lines_eq
  · cases lowered : (lowerModule { registers := ["s1"], frameSize := 8 } staged).1 with
    | ok p =>
      rw [lowered] at fails
      cases fails
    | error fault =>
      obtain ⟨before, f, after, funcs_eq, succeed, stops⟩ := small fault lowered
      cases before with
      | nil =>
        obtain ⟨rfl, -⟩ := List.cons.inj funcs_eq
        rw [stops] at begins
        cases begins
      | cons g before =>
        obtain ⟨rfl, later_eq⟩ := List.cons.inj funcs_eq
        have isSecond : f = crowdedMain := by
          have : f ∈ [crowdedMain] := later_eq ▸ by simp
          simpa using this
        subst isSecond
        exact ⟨fault, rfl, succeed prelude (by simp), stops⟩

end Lower

end RiscBackend
