/-
# Configurations that can be set up

A configuration is set up from the default: registers, frame sizes and targets are chosen,
features and warnings are switched, one by one, by flags, or by the switches of a command line.
Apart from the target and the switches such a configuration is one with chosen registers and
frames, so lowering can rely on it.
-/

import RiscBackend.Config.Flags
import RiscBackend.Config.Groups
import RiscBackend.Config.Target
import RiscBackend.Proofs.Config.Chosen

namespace RiscBackend.Config

/-- The configurations that can be set up. -/
inductive Configured : Config → Prop
  | default : Configured {}
  | registers {c c' : Config} {names : List String} (configured : Configured c)
      (set : c.setRegisters names = .ok c') : Configured c'
  | frameSize {c c' : Config} {size : Int64} (configured : Configured c)
      (set : c.setFrameSize size = .ok c') : Configured c'
  | target {c c' : Config} {host : Host} {target note : String} (configured : Configured c)
      (set : c.setTarget host target = .ok (c', note)) : Configured c'
  | feature {c : Config} (configured : Configured c) (f : Feature) (enabled : Bool) :
      Configured (c.setFeature f enabled)
  | warning {c : Config} (configured : Configured c) (w : Warning) (enabled : Bool) :
      Configured (c.setWarning w enabled)
  | flag {c c' : Config} {flag : String} (configured : Configured c)
      (applied : c.applyFlag? flag = some c') : Configured c'
  | flags {c : Config} (configured : Configured c) (flags : List String) :
      Configured (c.processFlags flags).1
  | groups {c : Config} (configured : Configured c) (fs : Cli.FlagSet) :
      Configured (c.applyGroups fs)

/-- Two configurations differ at most in their target and their switches. -/
def Resembles (c c' : Config) : Prop :=
  c' = { c with
    feature := c'.feature, warning := c'.warning
    backend := c'.backend, target := c'.target, arch := c'.arch }

namespace Resembles

theorem refl (c : Config) : Resembles c c := rfl

theorem trans {c c' c'' : Config} (first : Resembles c c') (second : Resembles c' c'') :
    Resembles c c'' := by
  rw [Resembles] at first second ⊢
  rw [second, first]

theorem setFeature (c : Config) (f : Feature) (enabled : Bool) :
    Resembles c (c.setFeature f enabled) := rfl

theorem setWarning (c : Config) (w : Warning) (enabled : Bool) :
    Resembles c (c.setWarning w enabled) := rfl

theorem setTarget {c c' : Config} {host : Host} {target note : String}
    (set : c.setTarget host target = .ok (c', note)) : Resembles c c' := by
  rw [Config.setTarget] at set
  split at set
  dsimp only at set
  split at set
  · split at set
    · cases set
      rfl
    · cases set
  · split at set
    · split at set <;>
      · cases set
        rfl
    · cases set

theorem foldl {α : Type} {step : Config → α → Config} (each : ∀ c a, Resembles c (step c a))
    (members : List α) (c : Config) : Resembles c (members.foldl step c) := by
  induction members generalizing c with
  | nil => exact refl c
  | cons a rest ih => exact (each c a).trans (ih (step c a))

theorem applyFlag? {c c' : Config} {flag : String} (applied : c.applyFlag? flag = some c') :
    Resembles c c' := by
  rw [Config.applyFlag?] at applied
  split at applied
  · split at applied
    · cases applied
      exact foldl (fun c w => setWarning c w _) _ _
    · obtain ⟨w, -, rfl⟩ := Option.map_eq_some_iff.mp applied
      exact setWarning c w _
  · obtain ⟨f, -, rfl⟩ := Option.map_eq_some_iff.mp applied
    exact setFeature c f _

theorem applyFlags (flags : List String) (c : Config) : Resembles c (c.applyFlags flags).1 := by
  induction flags generalizing c with
  | nil => exact refl c
  | cons flag rest ih =>
    unfold Config.applyFlags
    split
    · rename_i applied
      exact (applyFlag? applied).trans (ih _)
    · exact ih c

theorem applyGroups (c : Config) (fs : Cli.FlagSet) : Resembles c (c.applyGroups fs) :=
  (foldl (fun c w => setWarning c w (switched fs (c.warningEntry w))) _ _).trans
    (foldl (fun c f => setFeature c f (switched fs (c.featureEntry f))) _ _)

/-- Registers that one of the two can be set to, the other can be set to as well. -/
theorem setRegisters {c c' d' : Config} {names : List String} (resembles : Resembles c c')
    (set : c'.setRegisters names = .ok d') :
    ∃ d, c.setRegisters names = .ok d ∧ Resembles d d' := by
  rw [Config.setRegisters] at set
  split at set
  · cases set
  · rename_i nonempty
    split at set
    · cases set
    · rename_i checked
      cases set
      have fit := checkRegisters_eq_ok_iff.mp checked
      rw [resembles] at fit
      have checked' : c.checkRegisters [] names = .ok () := checkRegisters_eq_ok_iff.mpr fit
      refine ⟨{ c with registers := names }, ?_, ?_⟩
      · rw [Config.setRegisters, if_neg nonempty, checked']
      · rw [resembles]
        rfl

theorem setFrameSize {c c' d' : Config} {size : Int64} (resembles : Resembles c c')
    (set : c'.setFrameSize size = .ok d') :
    ∃ d, c.setFrameSize size = .ok d ∧ Resembles d d' := by
  rw [Config.setFrameSize] at set
  split at set
  · cases set
  · rename_i fit
    cases set
    refine ⟨{ c with frameSize := size }, ?_, ?_⟩
    · rw [Config.setFrameSize, if_neg fit]
    · rw [resembles]
      rfl

/-- Lowering can rely on the one as on the other. -/
theorem usable {c c' : Config} (resembles : Resembles c c') (usable : c.Usable) : c'.Usable := by
  rw [resembles]
  exact
    ⟨usable.nonempty, usable.nodup, usable.first_not_mem, usable.second_not_mem,
      usable.stack_not_mem, usable.first_ne_second, usable.stack_ne_first, usable.stack_ne_second,
      usable.stack_ne_return, usable.syscall_ne_return, usable.stack_ne_syscall,
      usable.frameSize_pos⟩

end Resembles

/-- A configuration that can be set up resembles one with chosen registers and frames. -/
theorem Configured.exists_chosen {c : Config} (configured : Configured c) :
    ∃ base, Chosen base ∧ Resembles base c := by
  induction configured with
  | default => exact ⟨{}, .default, .refl {}⟩
  | registers _ set ih =>
    obtain ⟨base, chosen, resembles⟩ := ih
    obtain ⟨base', set', resembles'⟩ := resembles.setRegisters set
    exact ⟨base', chosen.registers set', resembles'⟩
  | frameSize _ set ih =>
    obtain ⟨base, chosen, resembles⟩ := ih
    obtain ⟨base', set', resembles'⟩ := resembles.setFrameSize set
    exact ⟨base', chosen.frameSize set', resembles'⟩
  | target _ set ih =>
    obtain ⟨base, chosen, resembles⟩ := ih
    exact ⟨base, chosen, resembles.trans (.setTarget set)⟩
  | feature _ f enabled ih =>
    obtain ⟨base, chosen, resembles⟩ := ih
    exact ⟨base, chosen, resembles.trans (.setFeature _ f enabled)⟩
  | warning _ w enabled ih =>
    obtain ⟨base, chosen, resembles⟩ := ih
    exact ⟨base, chosen, resembles.trans (.setWarning _ w enabled)⟩
  | flag _ applied ih =>
    obtain ⟨base, chosen, resembles⟩ := ih
    exact ⟨base, chosen, resembles.trans (.applyFlag? applied)⟩
  | flags _ flags ih =>
    obtain ⟨base, chosen, resembles⟩ := ih
    exact ⟨base, chosen, resembles.trans ((Resembles.applyFlags _ _).trans (.applyFlags _ _))⟩
  | groups _ fs ih =>
    obtain ⟨base, chosen, resembles⟩ := ih
    exact ⟨base, chosen, resembles.trans (.applyGroups _ fs)⟩

/-- Lowering can rely on every configuration that can be set up. -/
theorem Configured.usable {c : Config} (configured : Configured c) : c.Usable := by
  obtain ⟨base, chosen, resembles⟩ := configured.exists_chosen
  exact resembles.usable chosen.usable

end RiscBackend.Config
