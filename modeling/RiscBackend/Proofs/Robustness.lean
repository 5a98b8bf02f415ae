/-
# No text breaks a backend

The lowerings have faults for instructions without the parts that they need, for operations that
they do not know and for registers that are not to be had. None of these can be met with a module
that was read from a text, or with any module of checked instructions, under a configuration that
can be set up, whether modules are validated or not. A backend then fails for one of these reasons
only: validation is on and finds a fault with the names of the module, a frame has no room, or
names without a place are errors. The second and the third are known to one of the backends alone.
-/

import RiscBackend.Proofs.Config.Configured
import RiscBackend.Proofs.Lower.Failures
import RiscBackend.Proofs.Lower.Lockstep
import RiscBackend.Proofs.Qbe.Meaning
import RiscBackend.Proofs.Source.Acceptance

namespace RiscBackend

open IR (Func Module)

namespace Lower

/-- How lowering a module of checked instructions can end. -/
inductive Ending (config : Config) (m : Module) : Except LoweringFault Asm.Program → Prop
  | program (p : Asm.Program) : Ending config m (.ok p)
  | misnamed {fault : IR.ModuleFault} (validates : config.feature .validate = true)
      (invalid : m.validate = .error fault) (naming : fault.isNaming = true) :
      Ending config m (.error (.invalidModule fault))
  | exhausted {f : Func} {b : IR.Block} {fault : BlockFault} (inModule : f ∈ m.funcs)
      (inFunc : b ∈ f.blocks) (exhausted : fault.Exhausted f.name b.label) :
      Ending config m (.error (.block fault))
  | reported {ds : Diagnostics} (strict : config.feature .strict = true)
      (errors : ds.hasErrors = true) : Ending config m (.error (.diagnostics ds))

variable {config : Config} {m : Module}

theorem ending_lowerModule (configured : config.Configured) (checked : m.Checked) :
    Ending config m (lowerModule config m).1 := by
  have usable := configured.usable
  cases refusal : refusal? config m with
  | some fault =>
    rw [lowerModule_of_refused refusal]
    rcases refusal?_eq_some refusal with ⟨validates, e, invalid, rfl⟩ | ⟨empty, -⟩
    · exact .misnamed validates invalid (checked.isNaming invalid)
    · exact absurd empty usable.nonempty
  | none =>
    rw [lowerModule_of_admitted refusal]
    cases outcome : (moduleCode config m).outcome with
    | error fault =>
      rw [Code.verdict_of_error outcome]
      obtain ⟨before, f, after, funcs_eq, -, stops⟩ := outcome_moduleCode_eq_error outcome
      have inModule : f ∈ m.funcs := by simp [funcs_eq]
      obtain ⟨b, inFunc, exhausted⟩ :=
        failsOnly_lowerFunc usable.nonempty usable.nodup (checked.wellFormed inModule) _ _ stops
      exact .exhausted inModule inFunc exhausted
    | ok =>
      rw [Code.verdict_of_ok outcome]
      cases errors : (moduleCode config m).diagnostics.hasErrors with
      | false => exact .program _
      | true =>
        refine .reported ?_ errors
        by_contra lenient
        rw [hasErrors_moduleCode (by simpa using lenient)] at errors
        cases errors

end Lower

namespace Qbe

/-- How lowering such a module to QBE can end. -/
inductive Ending (config : Config) (m : Module) : Except Fault Program → Prop
  | program (p : Program) : Ending config m (.ok p)
  | misnamed {fault : IR.ModuleFault} (validates : config.feature .validate = true)
      (invalid : m.validate = .error fault) (naming : fault.isNaming = true) :
      Ending config m (.error (.invalidModule fault))

theorem exists_lowerFunc_eq {f : IR.Func} (wellFormed : ∀ b ∈ f.blocks, ∀ i ∈ b.body, i.WellFormed)
    (env : Lower.Env) : ∃ g, lowerFunc env f = .ok g := by
  cases blocks_eq : f.blocks with
  | nil =>
    rw [lowerFunc, blocks_eq]
    exact ⟨_, rfl⟩
  | cons b rest =>
    rw [blocks_eq] at wellFormed
    obtain ⟨stmts, env', -, lowered, -⟩ := exists_loweredBlocks wellFormed env.beginFunction
    rw [lowerFunc, blocks_eq, lowered]
    exact ⟨_, rfl⟩

theorem exists_mapM_lowerFunc_eq {funcs : List IR.Func} (env : Lower.Env)
    (wellFormed : ∀ f ∈ funcs, ∀ b ∈ f.blocks, ∀ i ∈ b.body, i.WellFormed) :
    ∃ gs, funcs.mapM (lowerFunc env) = .ok gs := by
  induction funcs with
  | nil => exact ⟨[], rfl⟩
  | cons f rest ih =>
    rw [List.forall_mem_cons] at wellFormed
    obtain ⟨g, first⟩ := exists_lowerFunc_eq wellFormed.1 env
    obtain ⟨gs, later⟩ := ih wellFormed.2
    rw [List.mapM_cons, first, later]
    exact ⟨_, rfl⟩

theorem ending_lower (config : Config) {m : Module} (checked : m.Checked) :
    Ending config m (lower config m) := by
  obtain ⟨gs, lowered⟩ := exists_mapM_lowerFunc_eq
    (m.globals.foldl Lower.Env.define (.ofFrameSize config.frameSize))
    fun f inModule => checked.wellFormed inModule
  rw [lower]
  dsimp only
  rw [lowered]
  split
  · rename_i validates
    cases invalid : m.validate with
    | error fault => exact .misnamed validates invalid (checked.isNaming invalid)
    | ok => exact .program _
  · exact .program _

end Qbe

/-- **Robustness.** The instructions of a module that is read from a text pass the check. A module
whose instructions pass the check is lowered by each backend, under every configuration that can be
set up, or it is refused for one of the reasons above. -/
theorem backends_withstand_every_text :
    (∀ file text m, Source.parse file text = .ok m → m.Checked) ∧
    ∀ config : Config, config.Configured → ∀ m : Module, m.Checked →
      Lower.Ending config m (Lower.lowerModule config m).1 ∧
      Qbe.Ending config m (Qbe.lower config m) :=
  ⟨fun _ _ _ accepted => Source.checked_of_parse accepted,
    fun config configured _ checked =>
      ⟨Lower.ending_lowerModule configured checked, Qbe.ending_lower config checked⟩⟩

/-- A text that returns a name without a value. -/
def strayText : String :=
  "@g = global i32 5\n" ++
  "define i32 @main() \x7b\n" ++
  "entry:\n" ++
  "  %x = load i32, i32* @g\n" ++
  "next:\n" ++
  "  ret i32 %w\n" ++
  "\x7d\n"

/-- What is read from it. -/
def stray : Module where
  globals := [{ name := "g", value := 5 }]
  funcs :=
    [{ name := "main"
       blocks :=
        [{ label := "entry", body := [.load "x" "g"] },
          { label := "next", body := [.ret (.name "w")] }] }]

/-- One register, one slot, names without a place are errors, and modules are not validated. -/
def unforgiving : Config :=
  (Config.processFlags { registers := ["s1"], frameSize := 4 } ["-Fstrict", "-Fno-validate"]).1

/-- The text is accepted, and the lowering fails because of what it reports. -/
theorem backends_withstand_every_text_stray :
    Source.parse 0 strayText = .ok stray ∧ unforgiving.Configured ∧ stray.Checked ∧
      (Lower.lowerModule unforgiving stray).1.toOption = none ∧
      Lower.Ending unforgiving stray (Lower.lowerModule unforgiving stray).1 ∧
      Qbe.Ending unforgiving stray (Qbe.lower unforgiving stray) := by
  have accepted : Source.parse 0 strayText = .ok stray := by
    have read : (Source.parse 0 strayText).toOption = some stray := by decide +kernel
    cases parsed : Source.parse 0 strayText with
    | error complaints =>
      rw [parsed] at read
      cases read
    | ok m =>
      rw [parsed] at read
      cases read
      rfl
  have configured : unforgiving.Configured :=
    .flags (.frameSize (.registers .default (show Config.setRegisters {} ["s1"] = _ from rfl))
      (show Config.setFrameSize { registers := ["s1"] } 4 = _ from rfl)) _
  have checked := backends_withstand_every_text.1 0 strayText stray accepted
  exact ⟨accepted, configured, checked, by decide +kernel,
    backends_withstand_every_text.2 unforgiving configured stray checked⟩

end RiscBackend
