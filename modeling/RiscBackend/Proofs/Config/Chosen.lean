/-
# Configurations with chosen registers and frames

A user chooses the pool of registers and the size of the frames; the other settings
stay at their defaults. Whatever is chosen, the registers that the lowering works
with are distinct from each other and from the pool, and a frame has a positive
size.
-/

import Mathlib.Data.List.Nodup
import RiscBackend.Config.Basic

namespace RiscBackend.Config

/-- The configurations that come from the default by choosing registers and frame
sizes. -/
inductive Chosen : Config → Prop
  | default : Chosen {}
  | registers {c c' : Config} {names : List String} (chosen : Chosen c)
      (set : c.setRegisters names = .ok c') : Chosen c'
  | frameSize {c c' : Config} {size : Int64} (chosen : Chosen c)
      (set : c.setFrameSize size = .ok c') : Chosen c'

/-- What lowering relies on. -/
structure Usable (c : Config) : Prop where
  nonempty : c.registers ≠ []
  nodup : c.registers.Nodup
  first_not_mem : c.scratch.1 ∉ c.registers
  second_not_mem : c.scratch.2 ∉ c.registers
  stack_not_mem : c.stackRegister ∉ c.registers
  first_ne_second : c.scratch.1 ≠ c.scratch.2
  stack_ne_first : c.stackRegister ≠ c.scratch.1
  stack_ne_second : c.stackRegister ≠ c.scratch.2
  stack_ne_return : c.stackRegister ≠ c.returnRegister
  syscall_ne_return : c.syscallRegister ≠ c.returnRegister
  stack_ne_syscall : c.stackRegister ≠ c.syscallRegister
  frameSize_pos : 0 < c.frameSize.toInt

/-- Registers pass the check exactly when they are named, distinct, new and not
reserved. -/
theorem checkRegisters_eq_ok_iff {c : Config} {seen names : List String} :
    c.checkRegisters seen names = .ok () ↔
      names.Nodup ∧ ∀ name ∈ names, name ≠ "" ∧ name ∉ seen ∧ c.isReserved name = false := by
  induction names generalizing seen with
  | nil => simp [checkRegisters]
  | cons name rest ih =>
    rw [checkRegisters]
    by_cases unnamed : name = ""
    · simp [unnamed]
    · by_cases repeated : name ∈ seen
      · simp [unnamed, repeated]
      · by_cases reserved : c.isReserved name = true
        · simp [unnamed, repeated, reserved]
        · rw [if_neg unnamed, if_neg (by simpa using repeated), if_neg reserved, ih]
          rw [Bool.not_eq_true] at reserved
          grind

/-- A frame size is accepted when it is a positive number of words, and nothing else is
changed. -/
theorem setFrameSize_eq_ok {c c' : Config} {size : Int64} (set : c.setFrameSize size = .ok c') :
    c' = { c with frameSize := size } ∧ 0 < size.toInt ∧ 4 ∣ size.toInt := by
  rw [setFrameSize] at set
  split at set
  · cases set
  · rename_i fit
    cases set
    simp only [Bool.or_eq_true, decide_eq_true_eq, bne_iff_ne, not_or, not_not] at fit
    refine ⟨rfl, by simpa [Int64.le_iff_toInt_le] using fit.1, ?_⟩
    apply Int.dvd_of_tmod_eq_zero
    show size.toInt.tmod wordSize.toInt = 0
    rw [← Int64.toInt_mod, fit.2]
    rfl

/-- A choice changes the pool and the frame size only, and both are fit for use. -/
theorem Chosen.settings {c : Config} (chosen : Chosen c) :
    ∃ registers frameSize, c = { registers, frameSize } ∧ registers ≠ [] ∧ registers.Nodup ∧
      (∀ name ∈ registers, Config.isReserved {} name = false) ∧ 0 < frameSize.toInt := by
  induction chosen with
  | default => exact ⟨_, _, rfl, by decide, by decide, by decide, by decide⟩
  | @registers c c' names _ set ih =>
    obtain ⟨registers, frameSize, rfl, -, -, -, positive⟩ := ih
    rw [setRegisters] at set
    split at set
    · cases set
    · rename_i nonempty
      split at set
      · cases set
      · rename_i checked
        cases set
        obtain ⟨nodup, fit⟩ := checkRegisters_eq_ok_iff.mp checked
        exact ⟨names, frameSize, rfl, by simpa using nonempty, nodup,
          fun name isMember => (fit name isMember).2.2, positive⟩
  | @frameSize c c' size _ set ih =>
    obtain ⟨registers, frameSize, rfl, nonempty, nodup, free, -⟩ := ih
    obtain ⟨rfl, positive, -⟩ := setFrameSize_eq_ok set
    exact ⟨registers, size, rfl, nonempty, nodup, free, positive⟩

/-- Lowering can rely on every choice. -/
theorem Chosen.usable {c : Config} (chosen : Chosen c) : c.Usable := by
  obtain ⟨registers, frameSize, rfl, nonempty, nodup, free, positive⟩ := chosen.settings
  have absent (name : String) (reserved : Config.isReserved {} name = true) :
      name ∉ registers := fun isMember => by simp [free name isMember] at reserved
  exact
    { nonempty, nodup
      first_not_mem := absent "t0" (by decide)
      second_not_mem := absent "t1" (by decide)
      stack_not_mem := absent "sp" (by decide)
      first_ne_second := by simp
      stack_ne_first := by simp
      stack_ne_second := by simp
      stack_ne_return := by simp
      syscall_ne_return := by simp
      stack_ne_syscall := by simp
      frameSize_pos := positive }

/-- No operation is computed in the register for return values. -/
theorem Chosen.return_ne_first {c : Config} (chosen : Chosen c) :
    c.returnRegister ≠ c.scratch.1 := by
  obtain ⟨registers, frameSize, rfl, -⟩ := chosen.settings
  simp

theorem Chosen.return_ne_second {c : Config} (chosen : Chosen c) :
    c.returnRegister ≠ c.scratch.2 := by
  obtain ⟨registers, frameSize, rfl, -⟩ := chosen.settings
  simp

/-- A choice leaves the switches alone. -/
theorem Chosen.switches {c : Config} (chosen : Chosen c) :
    c.feature = Feature.initial ∧ c.warning = Warning.initial := by
  obtain ⟨registers, frameSize, rfl, -⟩ := chosen.settings
  exact ⟨rfl, rfl⟩

/-- A frame is made of words. -/
theorem Chosen.dvd_frameSize {c : Config} (chosen : Chosen c) : 4 ∣ c.frameSize.toInt := by
  induction chosen with
  | default => decide
  | registers _ set ih =>
    rw [setRegisters] at set
    split at set
    · cases set
    · split at set
      · cases set
      · cases set
        exact ih
  | @frameSize c c' size _ set _ =>
    obtain ⟨rfl, -, whole⟩ := setFrameSize_eq_ok set
    exact whole

end RiscBackend.Config
