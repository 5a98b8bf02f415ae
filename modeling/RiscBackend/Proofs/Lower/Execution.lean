/-
# Executing what is emitted

A lowering step emits lines, and a machine executes them. `Executes` joins the two:
if the step succeeds in an environment, then its lines run to the end on a machine,
and the environment and the machine that result are as promised. The rules for the
composition of steps let a proof follow the text of a lowering and speak about the
machine at every point of it.
-/

import RiscBackend.Lower.Emission
import RiscBackend.Proofs.Asm.Machine

namespace RiscBackend

open Asm (Line Instr Machine)

namespace Asm.Machine

theorem executeAll?_append (m : Machine) (first second : List Line) :
    m.executeAll? (first ++ second) = (m.executeAll? first).bind (·.executeAll? second) := by
  induction first generalizing m with
  | nil => rfl
  | cons line rest ih =>
    rw [List.cons_append, executeAll?, executeAll?]
    split
    · cases m.execute? _ with
      | none => rfl
      | some m => exact ih m
    · exact ih m

/-- Code that runs to its end holds no exit, so what follows it is run next. -/
theorem runToExit?_append {m m' : Machine} {first : List Line}
    (executed : m.executeAll? first = some m') (second : List Line) :
    m.runToExit? (first ++ second) = m'.runToExit? second := by
  induction first generalizing m with
  | nil =>
    obtain rfl : m = m' := Option.some.inj executed
    rfl
  | cons line rest ih =>
    rw [executeAll?] at executed
    rw [List.cons_append, runToExit?]
    cases stmt : line.stmt with
    | instr i =>
      rw [stmt] at executed
      obtain ⟨next, step, later⟩ := Option.bind_eq_some_iff.mp executed
      cases i with
      | ecall => simp [execute?] at step
      | _ => simpa [step] using ih later
    | _ =>
      rw [stmt] at executed
      exact ih executed

@[simp]
theorem set_registers_self (m : Machine) (register : String) (value : Value) :
    (m.set register value).registers register = value := by
  simp [set]

theorem set_registers_of_ne (m : Machine) {register other : String} (value : Value)
    (ne : other ≠ register) : (m.set register value).registers other = m.registers other := by
  simp [set, ne]

@[simp]
theorem set_data (m : Machine) (register : String) (value : Value) :
    (m.set register value).data = m.data := rfl

@[simp]
theorem set_set (m : Machine) (register : String) (first second : Value) :
    (m.set register first).set register second = m.set register second := by
  simp [set, Function.update_idem]

end Asm.Machine

namespace Lower.Emit

variable {α β : Type}

/-- A sequence of steps appends the lines of the second to those of the first. -/
theorem run_bind_of_ok {step : Emit α} {next : α → Emit β} {env : Env} {a : α}
    (outcome : (step.run env).outcome = .ok a) :
    (step >>= next).run env =
      { lines := (step.run env).lines ++ ((next a).run (step.run env).env).lines
        diagnostics := (step.run env).diagnostics ++ ((next a).run (step.run env).env).diagnostics
        env := ((next a).run (step.run env).env).env
        outcome := ((next a).run (step.run env).env).outcome } := by
  rw [run] at outcome
  simp only [bind, run, outcome]

/-- A sequence whose first step fails stops there. -/
theorem run_bind_of_error {step : Emit α} {next : α → Emit β} {env : Env} {fault : BlockFault}
    (outcome : (step.run env).outcome = .error fault) :
    (step >>= next).run env = { step.run env with outcome := .error fault } := by
  rw [run] at outcome
  simp only [bind, run, outcome]

/-- A sequence succeeds when both of its parts do. -/
theorem outcome_bind_eq_ok {step : Emit α} {next : α → Emit β} {env : Env} {b : β}
    (succeeds : ((step >>= next).run env).outcome = .ok b) :
    ∃ a, (step.run env).outcome = .ok a ∧ ((next a).run (step.run env).env).outcome = .ok b := by
  cases outcome : (step.run env).outcome with
  | error fault =>
    rw [run_bind_of_error outcome] at succeeds
    cases succeeds
  | ok a =>
    rw [run_bind_of_ok outcome] at succeeds
    exact ⟨a, rfl, succeeds⟩

/-- What holds of doing nothing and of two steps in a row if it holds of both holds of a loop if it
holds of every step. -/
theorem forEach_of_forall_mem {kind : Emit Unit → Prop} {step : α → Emit Unit} {members : List α}
    (nothing : kind (pure ()))
    (sequence : ∀ {first second}, kind first → kind second → kind (first >>= fun _ => second))
    (each : ∀ a ∈ members, kind (step a)) : kind (forEach step members) := by
  induction members with
  | nil => exact nothing
  | cons a rest ih =>
    rw [List.forall_mem_cons] at each
    exact sequence each.1 (ih each.2)

/-- Asking for the environment hands it on. -/
theorem run_getEnv_bind (next : Env → Emit β) (env : Env) :
    (getEnv >>= next).run env = (next env).run env := rfl

/-- If a step succeeds, its lines run to their end on a machine, with the result,
the environment and the machine as promised. -/
def Executes (step : Emit α) (promise : α → Env → Machine → Prop) (env : Env) (m : Machine) :
    Prop :=
  ∀ a, (step.run env).outcome = .ok a →
    ∃ m', m.executeAll? (step.run env).lines = some m' ∧ promise a (step.run env).env m'

variable {promise promise' : α → Env → Machine → Prop} {env : Env} {m : Machine}

theorem Executes.mono {step : Emit α} (executes : step.Executes promise env m)
    (weaker : ∀ a env m, promise a env m → promise' a env m) :
    step.Executes promise' env m := by
  intro a succeeds
  obtain ⟨m', executed, kept⟩ := executes a succeeds
  exact ⟨m', executed, weaker _ _ _ kept⟩

theorem executes_pure {a : α} (kept : promise a env m) : Executes (pure a) promise env m := by
  rintro _ ⟨⟩
  exact ⟨m, rfl, kept⟩

/-- A sequence of steps is executed one after the other. -/
theorem executes_bind {step : Emit α} {next : α → Emit β} {last : β → Env → Machine → Prop}
    (executes : step.Executes (fun a env m => (next a).Executes last env m) env m) :
    (step >>= next).Executes last env m := by
  intro b succeeds
  obtain ⟨a, here, later⟩ := outcome_bind_eq_ok succeeds
  obtain ⟨m', executed, continues⟩ := executes a here
  obtain ⟨m'', executed', kept⟩ := continues b later
  rw [run_bind_of_ok here]
  refine ⟨m'', ?_, kept⟩
  rw [Machine.executeAll?_append]
  exact Option.bind_eq_some_iff.mpr ⟨m', executed, executed'⟩

theorem executes_getEnv {promise : Env → Env → Machine → Prop} (kept : promise env env m) :
    getEnv.Executes promise env m := by
  rintro _ ⟨⟩
  exact ⟨m, rfl, kept⟩

variable {done : Unit → Env → Machine → Prop}

theorem executes_modifyEnv {change : Env → Env} (kept : done () (change env) m) :
    (modifyEnv change).Executes done env m := by
  rintro _ ⟨⟩
  exact ⟨m, rfl, kept⟩

theorem executes_line {l : Line} {i : Instr} {m' : Machine} (isInstr : l.stmt = .instr i)
    (executed : m.execute? i = some m') (kept : done () env m') :
    (line l).Executes done env m := by
  rintro _ ⟨⟩
  refine ⟨m', ?_, kept⟩
  change m.executeAll? [l] = some m'
  simp [Machine.executeAll?, isInstr, executed]

theorem executes_instr {i : Instr} {m' : Machine} (executed : m.execute? i = some m')
    (kept : done () env m') : (instr i).Executes done env m :=
  executes_line rfl executed kept

theorem executes_label {name : String} (kept : done () env m) :
    (label name).Executes done env m := by
  rintro _ ⟨⟩
  exact ⟨m, rfl, kept⟩

theorem executes_diagnose {d : Diagnostic} (kept : done () env m) :
    (diagnose d).Executes done env m := by
  rintro _ ⟨⟩
  exact ⟨m, rfl, kept⟩

/-- A step that fails promises anything. -/
theorem executes_fail {fault : BlockFault} : (fail fault : Emit α).Executes promise env m := by
  rintro _ ⟨⟩

/-- What every member of a list keeps, with the rest of the list as the measure of
the progress, the whole list keeps. -/
theorem executes_forEach {step : α → Emit Unit} {kept : List α → Env → Machine → Prop}
    (each : ∀ a rest env m, kept (a :: rest) env m →
      (step a).Executes (fun _ env m => kept rest env m) env m) :
    ∀ (members : List α) (env : Env) (m : Machine), kept members env m →
      (forEach step members).Executes (fun _ env m => kept [] env m) env m := by
  intro members
  induction members with
  | nil => exact fun _ _ holds => executes_pure holds
  | cons a rest ih =>
    intro env m holds
    exact executes_bind ((each a rest env m holds).mono fun _ env m => ih env m)

end Lower.Emit

end RiscBackend
