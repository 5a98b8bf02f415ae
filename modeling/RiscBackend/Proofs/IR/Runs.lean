/-
# What runs can do

The effect of one instruction on the store is stated once, for every form of
instruction, and then carried along a run: which names have been declared, which
locals can have a value, and where a run can have returned.
-/

import RiscBackend.Proofs.Alloc.FirstMention
import RiscBackend.Proofs.IR.WellFormed

namespace RiscBackend.IR

open Alloc (declares declaredBy mentions)

namespace Module

variable {m : Module} {fresh : Option Int32} {s s' : Store} {i : Instruction}

/-- Running code in two parts. -/
theorem runCode?_append (first second : List Instruction) :
    m.runCode? fresh s (first ++ second) =
      match m.runCode? fresh s first with
      | some (.running s) => m.runCode? fresh s second
      | stopped => stopped := by
  induction first generalizing s with
  | nil => rfl
  | cons i rest ih =>
    rw [List.cons_append, runCode?, runCode?]
    split
    · exact ih
    · rename_i notRunning
      split
      · rename_i running
        exact absurd running (notRunning _)
      · rfl

/-- An instruction after which the run goes on is no return. -/
theorem Steps.opcode_ne_ret (steps : m.Steps fresh s i (.running s')) : i.opcode ≠ .ret := by
  cases steps with
  | _ => simp

/-- An instruction has declared what it declares, and the locals that have a value had
one before or were written by it. -/
theorem Steps.of_running (steps : m.Steps none s i (.running s')) :
    s'.declared = declares i ++ s.declared ∧
      ∀ name, s'.locals name ≠ none → s.locals name ≠ none ∨ i.opcode ≠ .other ∧
        (i.result = some name ∨ .name name ∈ i.args) := by
  have written (name : String) (word : Int32) (other : String)
      (hasValue : (s.setLocal name word).locals other ≠ none) :
      s.locals other ≠ none ∨ name = other := by
    by_cases isName : other = name
    · exact .inr isName.symm
    · exact .inl (by simpa [Store.setLocal, isName] using hasValue)
  cases steps with
  | arith =>
    refine ⟨rfl, fun other hasValue => ?_⟩
    exact (written _ _ other hasValue).imp_right fun same => ⟨by simp, .inl (congrArg some same)⟩
  | @alloca name =>
    refine ⟨rfl, fun other hasValue => .inl ?_⟩
    by_cases isName : other = name
    · simp [Store.declare, isName] at hasValue
    · simpa [Store.declare, isName] using hasValue
  | load =>
    refine ⟨rfl, fun other hasValue => ?_⟩
    exact (written _ _ other hasValue).imp_right fun same => ⟨by simp, .inl (congrArg some same)⟩
  | store =>
    rw [Store.write]
    split
    · exact ⟨rfl, fun other hasValue => .inl hasValue⟩
    · refine ⟨rfl, fun other hasValue => ?_⟩
      refine (written _ _ other hasValue).imp_right fun same => ⟨by simp, .inr ?_⟩
      simp [Instruction.store, same]
  | other => exact ⟨rfl, fun other hasValue => .inl hasValue⟩

/-- An instruction that returns is a return. -/
theorem Steps.of_returned {value : Int32} (steps : m.Steps fresh s i (.returned value s')) :
    i.opcode = .ret := by
  cases steps with
  | ret => rfl
  | retValue => rfl

theorem runCode?_cons_eq_running {rest : List Instruction}
    (ran : m.runCode? fresh s (i :: rest) = some (.running s')) :
    ∃ next, m.step? fresh s i = some (.running next) ∧
      m.runCode? fresh next rest = some (.running s') := by
  rw [runCode?] at ran
  split at ran
  · rename_i next stepped
    exact ⟨next, stepped, ran⟩
  · rename_i notRunning
    exact absurd ran (notRunning _)

/-- Code that is run to its end holds no return. -/
theorem ne_ret_of_runCode? {code : List Instruction} (wellFormed : ∀ i ∈ code, i.WellFormed)
    (ran : m.runCode? fresh s code = some (.running s')) : ∀ i ∈ code, i.opcode ≠ .ret := by
  induction code generalizing s with
  | nil => simp
  | cons i rest ih =>
    rw [List.forall_mem_cons] at wellFormed ⊢
    obtain ⟨next, stepped, ran⟩ := runCode?_cons_eq_running ran
    exact ⟨(steps_of_step? wellFormed.1 stepped).opcode_ne_ret, ih wellFormed.2 ran⟩

/-- Code that is run to its end has declared and written what its instructions declare
and write. -/
theorem runCode?_eq_running {code : List Instruction} (wellFormed : ∀ i ∈ code, i.WellFormed)
    (ran : m.runCode? none s code = some (.running s')) :
    s'.declared = declaredBy s.declared code ∧
      ∀ name, s'.locals name ≠ none → s.locals name ≠ none ∨
        ∃ i ∈ code, i.opcode ≠ .other ∧ (i.result = some name ∨ .name name ∈ i.args) := by
  induction code generalizing s with
  | nil =>
    cases ran
    exact ⟨rfl, fun name hasValue => .inl hasValue⟩
  | cons i rest ih =>
    rw [List.forall_mem_cons] at wellFormed
    obtain ⟨next, stepped, ran⟩ := runCode?_cons_eq_running ran
    obtain ⟨declared, written⟩ := (steps_of_step? wellFormed.1 stepped).of_running
    obtain ⟨declared', written'⟩ := ih wellFormed.2 ran
    refine ⟨?_, fun name hasValue => ?_⟩
    · rw [declared', declared]
      rfl
    · rcases written' name hasValue with old | ⟨j, inRest, writes⟩
      · exact (written name old).imp_right fun writes => ⟨i, List.mem_cons_self, writes⟩
      · exact .inr ⟨j, List.mem_cons_of_mem _ inRest, writes⟩

/-- Code that returns holds a return. -/
theorem exists_ret_of_returned {code : List Instruction} {value : Int32}
    (wellFormed : ∀ i ∈ code, i.WellFormed)
    (ran : m.runCode? fresh s code = some (.returned value s')) :
    ∃ i ∈ code, i.opcode = .ret := by
  induction code generalizing s with
  | nil => cases ran
  | cons i rest ih =>
    rw [List.forall_mem_cons] at wellFormed
    rw [runCode?] at ran
    split at ran
    · obtain ⟨j, inRest, isRet⟩ := ih wellFormed.2 ran
      exact ⟨j, List.mem_cons_of_mem _ inRest, isRet⟩
    · exact ⟨i, List.mem_cons_self, (steps_of_step? wellFormed.1 ran).of_returned⟩

/-- A run passes through code without returns. -/
theorem exists_running_of_append {first second : List Instruction} {progress : Progress}
    (wellFormed : ∀ i ∈ first, i.WellFormed) (noRet : ∀ i ∈ first, i.opcode ≠ .ret)
    (ran : m.runCode? fresh s (first ++ second) = some progress) :
    ∃ next, m.runCode? fresh s first = some (.running next) ∧
      m.runCode? fresh next second = some progress := by
  rw [runCode?_append] at ran
  cases passed : m.runCode? fresh s first with
  | none =>
    rw [passed] at ran
    cases ran
  | some reached =>
    rw [passed] at ran
    cases reached with
    | running next => exact ⟨next, rfl, ran⟩
    | returned value next =>
      obtain ⟨i, isMember, isRet⟩ := exists_ret_of_returned wellFormed passed
      exact absurd isRet (noRet i isMember)

/-- A run ends at a return, whatever stands after it. -/
theorem runCode?_ret {rest : List Instruction} (wellFormed : i.WellFormed)
    (isRet : i.opcode = .ret) : m.runCode? fresh s (i :: rest) = m.step? fresh s i := by
  rw [runCode?]
  split
  · rename_i next stepped
    exact absurd isRet (steps_of_step? wellFormed stepped).opcode_ne_ret
  · rfl

end Module

end RiscBackend.IR
