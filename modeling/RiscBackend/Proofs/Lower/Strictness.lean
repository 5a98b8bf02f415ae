/-
# Strict lowering

A name without a place is met at three kinds of sites, and the lowering goes on after each of
them with some default. The strict mode changes none of this. It reports as errors what the
lenient mode reports as warnings, and the errors decide at the end whether there is a program.
-/

import RiscBackend.Proofs.Lower.Lockstep

namespace RiscBackend

namespace Diagnostic

/-- A warning about a name without a place. -/
def isUnresolved (d : Diagnostic) : Bool :=
  d.severity = .warning && d.flag = Warning.unresolved.name

/-- Such a warning as an error at the same place with the same message. Errors are under no
switch. -/
def promoted (d : Diagnostic) : Diagnostic :=
  if d.isUnresolved then { d with severity := .error, flag := "" } else d

theorem promoted_of_not_isUnresolved {d : Diagnostic} (resolved : d.isUnresolved = false) :
    d.promoted = d := by
  rw [promoted, resolved, if_neg Bool.false_ne_true]

/-- Only what is promoted becomes an error. -/
theorem severity_promoted (d : Diagnostic) :
    d.promoted.severity = .error ↔ d.isUnresolved = true ∨ d.severity = .error := by
  rw [promoted]
  split <;> simp [*]

end Diagnostic

/-- Promotion turns harmless reports into errors exactly when there is something to promote. -/
theorem Diagnostics.hasErrors_map_promoted {ds : Diagnostics} (harmless : ds.hasErrors = false) :
    hasErrors (ds.map Diagnostic.promoted) = ds.any Diagnostic.isUnresolved := by
  rw [hasErrors, List.any_eq_false] at harmless
  rw [hasErrors, List.any_map, Bool.eq_iff_iff, List.any_eq_true, List.any_eq_true]
  refine exists_congr fun d => and_congr_right fun reported => ?_
  rw [Function.comp_apply, decide_eq_true_iff, Diagnostic.severity_promoted]
  exact or_iff_left (by simpa using harmless d reported)

theorem Diagnostics.map_promoted_eq_self {ds : Diagnostics}
    (resolved : ds.any Diagnostic.isUnresolved = false) : ds.map Diagnostic.promoted = ds := by
  rw [List.any_eq_false] at resolved
  have unchanged : ∀ d ∈ ds, d.promoted = id d := fun d reported =>
    Diagnostic.promoted_of_not_isUnresolved (by simpa using resolved d reported)
  rw [List.map_congr_left unchanged, List.map_id]

namespace Lower

open IR (Func Global Module)

/-- The accord of a lenient lowering with the strict one. -/
def Accord.promoting : Accord where
  line _ l l' := l' = l
  reports ds ds' := ds' = ds.map Diagnostic.promoted
  line_refl _ _ := rfl
  line_mono _ same := same
  reports_nil := rfl
  reports_append := by
    rintro ds _ es _ rfl rfl
    rw [List.map_append]

/-- Warnings under other switches are not promoted. -/
theorem map_promoted_warnings {w : Warning} (other : w ≠ .unresolved) (on : Bool)
    (place message : String) :
    (warnings on w place message).map Diagnostic.promoted = warnings on w place message := by
  have resolved : w.name ≠ Warning.unresolved.name := by
    cases w <;> simp_all [Warning.name]
  cases on with
  | false => rfl
  | true =>
    rw [warnings, if_pos rfl, List.map_singleton, Diagnostic.promoted_of_not_isUnresolved]
    simp [Diagnostic.isUnresolved, resolved]

variable {config : Config}

/-- Making a lenient configuration strict changes one switch. -/
theorem withSwitches_strict (config : Config) :
    (config.setFeature .strict false).withSwitches (config.setFeature .strict true).feature
      config.warning = config.setFeature .strict true := rfl

theorem Accord.promoting_permits (warns : config.warning .unresolved = true) :
    Accord.promoting.Permits (config.setFeature .strict false)
      (config.setFeature .strict true).feature config.warning where
  moves _ := rfl
  unresolved place fault := by
    show _ = List.map _ (warnings (config.warning .unresolved) .unresolved place fault.message)
    rw [warns]
    rfl
  warns w place message other := (map_promoted_warnings other _ place message).symm

/-- The strict code of a module ends as the lenient one, with the reports promoted and, where it
gets to the end, with the same lines. -/
theorem moduleCode_strict (warns : config.warning .unresolved = true) (m : Module) :
    (moduleCode (config.setFeature .strict true) m).outcome =
        (moduleCode (config.setFeature .strict false) m).outcome ∧
      (moduleCode (config.setFeature .strict true) m).diagnostics =
        (moduleCode (config.setFeature .strict false) m).diagnostics.map Diagnostic.promoted ∧
      ((moduleCode (config.setFeature .strict false) m).outcome = .ok () →
        (moduleCode (config.setFeature .strict true) m).lines =
          (moduleCode (config.setFeature .strict false) m).lines) := by
  have permits := Accord.promoting_permits warns
  obtain ⟨outcome_eq, reports_eq⟩ := moduleCode_withSwitches permits m
  rw [withSwitches_strict] at outcome_eq reports_eq
  refine ⟨outcome_eq, reports_eq, fun succeeds => ?_⟩
  rw [moduleCode_of_ok succeeds, moduleCode_of_ok (outcome_eq.trans succeeds)]
  refine List.flatMap_congr fun f _ => ?_
  have lines := (joins_codeOf permits m.globals f).lines
  exact List.forall₂_eq_eq_eq ▸ lines.flip

/-- **Strict mode.** When warnings about names without a place are on, the strict lowering of a
module is the lenient one with these warnings promoted to errors. It fails where the lenient one
does, with the same fault. Otherwise it gives the same program and the same reports if there is
nothing to promote, and else it fails with all the reports, promoted and in the same order. -/
theorem strict_lowering_promotes_unresolved (warns : config.warning .unresolved = true)
    (m : Module) {result : Except LoweringFault Asm.Program} {ds : Diagnostics}
    (lenient : lowerModule (config.setFeature .strict false) m = (result, ds)) :
    (∀ fault, result = .error fault →
      (lowerModule (config.setFeature .strict true) m).1 = .error fault) ∧
    (∀ p, result = .ok p →
      ((∃ p', (lowerModule (config.setFeature .strict true) m).1 = .ok p') ↔
        ds.any Diagnostic.isUnresolved = false) ∧
      (ds.any Diagnostic.isUnresolved = false →
        lowerModule (config.setFeature .strict true) m = (.ok p, ds)) ∧
      (ds.any Diagnostic.isUnresolved = true →
        lowerModule (config.setFeature .strict true) m =
          (.error (.diagnostics (ds.map Diagnostic.promoted)), ds.map Diagnostic.promoted))) := by
  have same : refusal? (config.setFeature .strict true) m =
      refusal? (config.setFeature .strict false) m := by
    rw [← withSwitches_strict]
    exact refusal?_withSwitches rfl m
  cases refusal : refusal? (config.setFeature .strict false) m with
  | some fault =>
    rw [lowerModule_of_refused refusal] at lenient
    cases lenient
    rw [lowerModule_of_refused (same.trans refusal)]
    exact ⟨fun _ => id, by simp⟩
  | none =>
    rw [lowerModule_of_admitted refusal] at lenient
    rw [lowerModule_of_admitted (same.trans refusal)]
    have harmless : (moduleCode (config.setFeature .strict false) m).diagnostics.hasErrors = false :=
      hasErrors_moduleCode rfl m
    obtain ⟨outcome_eq, reports_eq, lines_eq⟩ := moduleCode_strict warns m
    rw [reports_eq]
    cases outcome : (moduleCode (config.setFeature .strict false) m).outcome with
    | error fault =>
      rw [Code.verdict_of_error outcome] at lenient
      cases lenient
      rw [Code.verdict_of_error (outcome_eq.trans outcome)]
      exact ⟨fun _ => id, by simp⟩
    | ok =>
      rw [Code.verdict_of_ok outcome, harmless] at lenient
      cases lenient
      rw [Code.verdict_of_ok (outcome_eq.trans outcome), reports_eq, lines_eq outcome,
        Diagnostics.hasErrors_map_promoted harmless]
      refine ⟨by simp, fun p same => ?_⟩
      cases same
      cases promotes : (moduleCode (config.setFeature .strict false) m).diagnostics.any
        Diagnostic.isUnresolved with
      | true => exact ⟨by simp, by simp, fun _ => rfl⟩
      | false =>
        refine ⟨⟨fun _ => rfl, fun _ => ⟨_, rfl⟩⟩, fun _ => ?_, by simp⟩
        rw [Diagnostics.map_promoted_eq_self promotes]
        rfl

/-- A function that needs one slot, and that ends with a name without a value. -/
def dangling : Module where
  funcs :=
    [{ name := "main"
       blocks :=
        [{ label := "entry", body := [.binary (.arith .add) "x" (.const 1) (.const 2)] },
          { label := "next", body := [.store (.name "x") "x"] },
          { label := "last", body := [.ret (.name "w")] }] }]

/-- In a frame of one slot, which the function uses up, the lenient lowering warns about the name
and about the frame, and the strict one makes an error of the former. Without any room both fail
at the same place. -/
theorem strict_lowering_promotes_unresolved_dangling :
    (∃ p ds, lowerModule
        (Config.setFeature { frameSize := 4, warning := fun _ => true } .strict false) dangling =
          (.ok p, ds) ∧
      ds.map Diagnostic.flag = ["unresolved", "frame"] ∧
      lowerModule
        (Config.setFeature { frameSize := 4, warning := fun _ => true } .strict true) dangling =
          (.error (.diagnostics (ds.map Diagnostic.promoted)), ds.map Diagnostic.promoted)) ∧
    ∃ fault,
      (lowerModule (Config.setFeature { frameSize := 0 } .strict false) dangling).1 =
        .error fault ∧
      (lowerModule (Config.setFeature { frameSize := 0 } .strict true) dangling).1 =
        .error fault := by
  let tight : Config := { frameSize := 4, warning := fun _ => true }
  have lowers : (lowerModule (tight.setFeature .strict false) dangling).1.toOption.isSome = true := by
    decide +kernel
  have flags : (lowerModule (tight.setFeature .strict false) dangling).2.map Diagnostic.flag =
    ["unresolved", "frame"] := by decide +kernel
  have warned : (lowerModule (tight.setFeature .strict false) dangling).2.any
    Diagnostic.isUnresolved = true := by decide +kernel
  have fails : (lowerModule (Config.setFeature { frameSize := 0 } .strict false)
    dangling).1.toOption.isSome = false := by decide +kernel
  constructor
  · cases lenient : lowerModule (tight.setFeature .strict false) dangling with
    | mk result ds =>
      rw [lenient] at lowers flags warned
      cases result with
      | error fault => cases lowers
      | ok p =>
        obtain ⟨-, promotes⟩ := strict_lowering_promotes_unresolved rfl dangling lenient
        exact ⟨p, ds, rfl, flags, (promotes p rfl).2.2 warned⟩
  · cases lenient : lowerModule (Config.setFeature { frameSize := 0 } .strict false) dangling with
    | mk result ds =>
      rw [lenient] at fails
      cases result with
      | ok p => cases fails
      | error fault =>
        obtain ⟨stays, -⟩ := strict_lowering_promotes_unresolved rfl dangling lenient
        exact ⟨fault, rfl, stays fault rfl⟩

end Lower

end RiscBackend
