/-
# What code touches

A line writes at most one register, and it reaches memory only through the register that
holds the address. So a register that no line writes keeps its value, and code that
stores through the stack register only leaves the data section alone.
-/

import RiscBackend.Proofs.Lower.Routines

namespace RiscBackend.Asm

/-- The register that an instruction writes. -/
def Instr.target? : Instr → Option String
  | li rd _ | la rd _ | mv rd _ | lw rd _ _ | addi rd _ _ | arith _ rd _ _ => some rd
  | sw _ _ _ | ecall => none
  | plain _ operands => operands.head?

namespace Line

/-- The line writes a register. -/
def Writes (l : Line) (register : String) : Prop :=
  ∃ i, l.stmt = .instr i ∧ i.target? = some register

/-- The line reads the word at an offset from the address in a register. -/
def LoadsAt (l : Line) (base : String) (offset : Int64) : Prop :=
  ∃ rd, l.stmt = .instr (.lw rd offset base)

/-- The line overwrites the word at an offset from the address in a register. -/
def SavesAt (l : Line) (base : String) (offset : Int64) : Prop :=
  ∃ rs, l.stmt = .instr (.sw rs offset base)

/-- The line reads or overwrites that word. -/
def Reaches (l : Line) (base : String) (offset : Int64) : Prop :=
  l.LoadsAt base offset ∨ l.SavesAt base offset

theorem LoadsAt.not_savesAt {l : Line} {base base' : String} {offset offset' : Int64}
    (loads : l.LoadsAt base offset) : ¬ l.SavesAt base' offset' := by
  rintro ⟨rs, isSave⟩
  obtain ⟨rd, isLoad⟩ := loads
  cases isLoad.symm.trans isSave

/-- A line reaches one word only. -/
theorem LoadsAt.offset_eq {l : Line} {base base' : String} {offset offset' : Int64}
    (loads : l.LoadsAt base offset) (reaches : l.Reaches base' offset') : offset' = offset := by
  rcases reaches with ⟨rd', isLoad'⟩ | saves
  · obtain ⟨rd, isLoad⟩ := loads
    cases isLoad.symm.trans isLoad'
    rfl
  · exact absurd saves loads.not_savesAt

theorem SavesAt.offset_eq {l : Line} {base base' : String} {offset offset' : Int64}
    (saves : l.SavesAt base offset) (reaches : l.Reaches base' offset') : offset' = offset := by
  rcases reaches with loads | ⟨rs', isSave'⟩
  · exact absurd saves loads.not_savesAt
  · obtain ⟨rs, isSave⟩ := saves
    cases isSave.symm.trans isSave'
    rfl

/-- What a line writes is decided by its instruction. -/
theorem writes_iff {l : Line} {i : Instr} (isInstr : l.stmt = .instr i) {register : String} :
    l.Writes register ↔ i.target? = some register := by
  simp [Writes, isInstr]

@[simp]
theorem stmt_ofInstr (i : Instr) : (ofInstr i).stmt = .instr i := rfl

end Line

namespace Machine

variable {m m' : Machine} {register stack : String}

/-- An instruction changes no register but its target. -/
theorem registers_of_execute? {i : Instr} (other : i.target? ≠ some register)
    (executed : m.execute? i = some m') : m'.registers register = m.registers register := by
  have kept {rd : String} {value : Value} (ne : some rd ≠ some register) :
      (m.set rd value).registers register = m.registers register :=
    set_registers_of_ne m value fun same => ne (congrArg some same.symm)
  cases i with
  | li rd value | mv rd value =>
    cases executed
    exact kept other
  | la rd symbol =>
    rw [execute?] at executed
    split at executed
    · cases executed
      exact kept other
    · cases executed
  | lw rd offset base =>
    obtain ⟨value, -, set_eq⟩ := Option.bind_eq_some_iff.mp executed
    cases set_eq
    exact kept other
  | sw rs offset base =>
    rw [execute?] at executed
    cases holds : m.registers base with
    | word value =>
      rw [holds] at executed
      cases executed
    | symbol name =>
      rw [holds, store?] at executed
      split at executed
      · cases executed
        rfl
      · cases executed
    | stack top =>
      rw [holds] at executed
      cases executed
      rfl
  | addi rd rs value =>
    rw [execute?] at executed
    split at executed
    · cases executed
      exact kept other
    · cases executed
      exact kept other
    · cases executed
  | arith op rd rs1 rs2 =>
    rw [execute?] at executed
    split at executed
    · obtain ⟨value, -, set_eq⟩ := Option.bind_eq_some_iff.mp executed
      cases set_eq
      exact kept other
    · cases executed
  | ecall | plain mnemonic operands => cases executed

/-- An instruction changes the data section only by a store to an address of it. -/
theorem data_of_execute? {i : Instr}
    (onStack : ∀ rs offset base, i = .sw rs offset base → ∃ top, m.registers base = .stack top)
    (executed : m.execute? i = some m') : m'.data = m.data := by
  cases i with
  | li rd value | mv rd value =>
    cases executed
    rfl
  | la rd symbol =>
    rw [execute?] at executed
    split at executed
    · cases executed
      rfl
    · cases executed
  | lw rd offset base =>
    obtain ⟨value, -, set_eq⟩ := Option.bind_eq_some_iff.mp executed
    cases set_eq
    rfl
  | sw rs offset base =>
    obtain ⟨top, holds⟩ := onStack rs offset base rfl
    rw [execute?, holds] at executed
    cases executed
    rfl
  | addi rd rs value =>
    rw [execute?] at executed
    split at executed
    · cases executed
      rfl
    · cases executed
      rfl
    · cases executed
  | arith op rd rs1 rs2 =>
    rw [execute?] at executed
    split at executed
    · obtain ⟨value, -, set_eq⟩ := Option.bind_eq_some_iff.mp executed
      cases set_eq
      rfl
    · cases executed
  | ecall | plain mnemonic operands => cases executed

/-- What every executed instruction keeps, the code keeps. -/
theorem executeAll?_keeps {lines : List Line} (kept : Machine → Prop)
    (keeps : ∀ l ∈ lines, ∀ i, l.stmt = .instr i → ∀ m m', kept m → m.execute? i = some m' →
      kept m')
    (start : kept m) (executed : m.executeAll? lines = some m') : kept m' := by
  induction lines generalizing m with
  | nil =>
    cases executed
    exact start
  | cons line rest ih =>
    rw [List.forall_mem_cons] at keeps
    rw [executeAll?] at executed
    cases stmt : line.stmt with
    | instr i =>
      rw [stmt] at executed
      obtain ⟨next, step, later⟩ := Option.bind_eq_some_iff.mp executed
      exact ih keeps.2 (keeps.1 i stmt m next start step) later
    | _ =>
      rw [stmt] at executed
      exact ih keeps.2 start executed

/-- A register that no line writes keeps its value. -/
theorem registers_of_executeAll? {lines : List Line} (others : ∀ l ∈ lines, ¬ l.Writes register)
    (executed : m.executeAll? lines = some m') : m'.registers register = m.registers register := by
  refine executeAll?_keeps (fun m' => m'.registers register = m.registers register) ?_ rfl executed
  intro l inLines i isInstr m m' same step
  rw [registers_of_execute? (fun target => others l inLines ⟨i, isInstr, target⟩) step, same]

/-- Code that stores through the stack register only, and does not write it, leaves the
data section alone. -/
theorem data_of_executeAll? {lines : List Line} {top : Int}
    (others : ∀ l ∈ lines, ¬ l.Writes stack)
    (onStack : ∀ l ∈ lines, ∀ base offset, l.SavesAt base offset → base = stack)
    (stack_eq : m.registers stack = .stack top) (executed : m.executeAll? lines = some m') :
    m'.data = m.data := by
  refine (executeAll?_keeps (fun m' => m'.registers stack = .stack top ∧ m'.data = m.data) ?_
    ⟨stack_eq, rfl⟩ executed).2
  rintro l inLines i isInstr m m' ⟨holds, same⟩ step
  constructor
  · rw [registers_of_execute? (fun target => others l inLines ⟨i, isInstr, target⟩) step, holds]
  · rw [data_of_execute? _ step, same]
    rintro rs offset base rfl
    rw [onStack l inLines base offset ⟨rs, isInstr⟩]
    exact ⟨top, holds⟩

/-- Running code without an exit and then more is executing the first and running the
rest. -/
theorem runToExit?_append_eq_bind {first : List Line} (noExit : ∀ l ∈ first, l.isExit = false)
    (m : Machine) (second : List Line) :
    m.runToExit? (first ++ second) = (m.executeAll? first).bind (·.runToExit? second) := by
  induction first generalizing m with
  | nil => rfl
  | cons line rest ih =>
    rw [List.forall_mem_cons] at noExit
    rw [List.cons_append, runToExit?, executeAll?]
    cases stmt : line.stmt with
    | instr i =>
      cases i with
      | ecall => simp [Line.isExit, stmt] at noExit
      | _ =>
        dsimp only
        cases m.execute? _ with
        | none => rfl
        | some next => exact ih noExit.2 next
    | _ => exact ih noExit.2 m

end Machine

end RiscBackend.Asm
