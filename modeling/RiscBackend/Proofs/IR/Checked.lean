/-
# Modules of checked instructions

A reader of source texts checks every instruction by itself. Nothing is known then about the names
of the module. Names are all that can make such a module invalid: a global without a name, or a
name or a label that is given twice.
-/

import RiscBackend.Proofs.IR.WellFormed

namespace RiscBackend.IR

/-- Every instruction of a module passes the check. -/
def Module.Checked (m : Module) : Prop :=
  ∀ f ∈ m.funcs, ∀ b ∈ f.blocks, ∀ i ∈ b.body, i.check = .ok ()

instance (m : Module) : Decidable m.Checked :=
  inferInstanceAs (Decidable (∀ f ∈ m.funcs, ∀ b ∈ f.blocks, ∀ i ∈ b.body, i.check = .ok ()))

/-- Whether a fault of a module is about names and not about an instruction. -/
def ModuleFault.isNaming : ModuleFault → Bool
  | instruction .. => false
  | _ => true

/-- Checks one after another fail with the fault of the first, or pass it and fail with that of the
second. -/
theorem bind_eq_error {ε α : Type} {check : Except ε Unit} {next : Unit → Except ε α} {fault : ε}
    (fails : (check >>= next) = .error fault) :
    check = .error fault ∨ check = .ok () ∧ next () = .error fault := by
  cases check with
  | error first =>
    cases fails
    exact .inl rfl
  | ok => exact .inr ⟨rfl, fails⟩

theorem isNaming_of_checkBlocks {function : String} {seen : List String} {blocks : List Block}
    {fault : ModuleFault} (checked : ∀ b ∈ blocks, ∀ i ∈ b.body, i.check = .ok ())
    (invalid : checkBlocks function seen blocks = .error fault) : fault.isNaming = true := by
  induction blocks generalizing seen with
  | nil => cases invalid
  | cons b rest ih =>
    rw [List.forall_mem_cons] at checked
    rw [checkBlocks] at invalid
    split at invalid
    · cases invalid
      rfl
    · rcases bind_eq_error invalid with bodyFails | ⟨-, restFails⟩
      · rw [checkBody_eq_ok_iff.mpr checked.1] at bodyFails
        cases bodyFails
      · exact ih checked.2 restFails

theorem isNaming_of_checkFuncs {seen : List String} {funcs : List Func} {fault : ModuleFault}
    (checked : ∀ f ∈ funcs, ∀ b ∈ f.blocks, ∀ i ∈ b.body, i.check = .ok ())
    (invalid : checkFuncs seen funcs = .error fault) : fault.isNaming = true := by
  induction funcs generalizing seen with
  | nil => cases invalid
  | cons f rest ih =>
    rw [List.forall_mem_cons] at checked
    rw [checkFuncs] at invalid
    split at invalid
    · cases invalid
      rfl
    · rcases bind_eq_error invalid with blocksFail | ⟨-, restFails⟩
      · exact isNaming_of_checkBlocks checked.1 blocksFail
      · exact ih checked.2 restFails

theorem isNaming_of_checkGlobals {seen : List String} {globals : List Global} {fault : ModuleFault}
    (invalid : checkGlobals seen globals = .error fault) : fault.isNaming = true := by
  induction globals generalizing seen with
  | nil => cases invalid
  | cons g rest ih =>
    rw [checkGlobals] at invalid
    split at invalid
    · cases invalid
      rfl
    · split at invalid
      · cases invalid
        rfl
      · exact ih invalid

/-- **Checked instructions leave only names to complain about.** -/
theorem Module.Checked.isNaming {m : Module} (checked : m.Checked) {fault : ModuleFault}
    (invalid : m.validate = .error fault) : fault.isNaming = true := by
  rw [validate] at invalid
  rcases bind_eq_error invalid with globalsFail | ⟨-, funcsFail⟩
  · exact isNaming_of_checkGlobals globalsFail
  · exact isNaming_of_checkFuncs checked funcsFail

theorem Module.Checked.wellFormed {m : Module} (checked : m.Checked) {f : Func}
    (inModule : f ∈ m.funcs) : ∀ b ∈ f.blocks, ∀ i ∈ b.body, i.WellFormed :=
  fun b inFunc i inBody => Instruction.wellFormed_of_check (checked f inModule b inFunc i inBody)

end RiscBackend.IR
