/-
# Sequences of steps

Steps compose like statements of a program, so the laws of a monad hold of them, and a
sequence can be cut at any point. A loop over a list visits its members one by one: what
it emits and reports is what the visits emit and report, and what every step keeps holds
at every visit.
-/

import RiscBackend.Proofs.Lower.Execution

namespace RiscBackend.Lower.Emit

variable {α β γ : Type}

/-- Handing on the result of a step adds nothing. -/
theorem bind_pure_eq (step : Emit α) : (step >>= pure) = step := by
  funext env
  show (step >>= pure).run env = step.run env
  cases outcome : (step.run env).outcome with
  | error fault => rw [run_bind_of_error outcome, ← outcome]
  | ok a =>
    rw [run_bind_of_ok outcome]
    change Emission.mk ((step.run env).lines ++ []) ((step.run env).diagnostics ++ []) _
      (.ok a) = _
    rw [List.append_nil, List.append_nil, ← outcome]
    rfl

/-- Three steps in a row may be grouped either way. -/
theorem bind_bind_eq (step : Emit α) (next : α → Emit β) (last : β → Emit γ) :
    (step >>= next >>= last) = step >>= fun a => next a >>= last := by
  funext env
  show (step >>= next >>= last).run env = (step >>= fun a => next a >>= last).run env
  cases outcome : (step.run env).outcome with
  | error fault =>
    have stops : (step >>= next).run env = _ := run_bind_of_error outcome
    rw [run_bind_of_error outcome, run_bind_of_error (by rw [stops]), stops]
  | ok a =>
    have goesOn : (step >>= next).run env = _ := run_bind_of_ok outcome
    rw [run_bind_of_ok outcome]
    cases outcome' : ((next a).run (step.run env).env).outcome with
    | error fault =>
      rw [run_bind_of_error outcome', run_bind_of_error (by rw [goesOn, outcome']), goesOn]
    | ok b =>
      rw [run_bind_of_ok outcome', run_bind_of_ok (by rw [goesOn, outcome']), goesOn]
      simp only [List.append_assoc]

instance : LawfulMonad Emit :=
  LawfulMonad.mk' Emit bind_pure_eq (fun _ _ => rfl) bind_bind_eq

/-- A sequence reports what its parts report. -/
theorem mem_diagnostics_bind {step : Emit α} {next : α → Emit β} {env : Env} {d : Diagnostic}
    (reported : d ∈ ((step >>= next).run env).diagnostics) :
    d ∈ (step.run env).diagnostics ∨ ∃ a, (step.run env).outcome = .ok a ∧
      d ∈ ((next a).run (step.run env).env).diagnostics := by
  cases outcome : (step.run env).outcome with
  | error fault =>
    rw [run_bind_of_error outcome] at reported
    exact .inl reported
  | ok a =>
    rw [run_bind_of_ok outcome] at reported
    exact (List.mem_append.mp reported).imp_right fun later => ⟨a, rfl, later⟩

theorem forEach_append (step : α → Emit Unit) (first second : List α) :
    forEach step (first ++ second) = forEach step first >>= fun _ => forEach step second := by
  induction first with
  | nil => rfl
  | cons a rest ih => rw [List.cons_append, forEach, ih, forEach, bind_assoc]

theorem forEach_map (step : β → Emit Unit) (f : α → β) (members : List α) :
    forEach step (members.map f) = forEach (fun a => step (f a)) members := by
  induction members with
  | nil => rfl
  | cons a rest ih => rw [List.map_cons, forEach, ih, forEach]

/-- The members that a loop comes to, each with the environment in which it does. The
last of them is the one at which the loop fails, if it does. -/
def visits (step : α → Emit Unit) : List α → Env → List (α × Env)
  | [], _ => []
  | a :: rest, env =>
    (a, env) ::
      match ((step a).run env).outcome with
      | .ok _ => visits step rest ((step a).run env).env
      | .error _ => []

variable {step : α → Emit Unit} {a : α} {rest members : List α} {env : Env}

theorem visits_of_ok (succeeds : ((step a).run env).outcome = .ok ()) :
    visits step (a :: rest) env = (a, env) :: visits step rest ((step a).run env).env := by
  rw [visits, succeeds]

theorem visits_of_error {fault : BlockFault}
    (fails : ((step a).run env).outcome = .error fault) :
    visits step (a :: rest) env = [(a, env)] := by
  rw [visits, fails]

/-- A loop emits and reports what its visits emit and report. -/
theorem lines_diagnostics_forEach (step : α → Emit Unit) (members : List α) (env : Env) :
    ((forEach step members).run env).lines =
        (visits step members env).flatMap (fun v => ((step v.1).run v.2).lines) ∧
      ((forEach step members).run env).diagnostics =
        (visits step members env).flatMap fun v => ((step v.1).run v.2).diagnostics := by
  induction members generalizing env with
  | nil => exact ⟨rfl, rfl⟩
  | cons a rest ih =>
    rw [forEach]
    cases outcome : ((step a).run env).outcome with
    | error fault =>
      rw [run_bind_of_error outcome, visits_of_error outcome]
      simp
    | ok =>
      rw [run_bind_of_ok outcome, visits_of_ok outcome, List.flatMap_cons, List.flatMap_cons,
        (ih _).1, (ih _).2]
      exact ⟨rfl, rfl⟩

/-- A loop comes to a member after having passed those before it. -/
theorem exists_of_mem_visits {v : α × Env} (visited : v ∈ visits step members env) :
    ∃ before after, members = before ++ v.1 :: after ∧
      ((forEach step before).run env).outcome = .ok () ∧
      ((forEach step before).run env).env = v.2 := by
  induction members generalizing env with
  | nil => cases visited
  | cons a rest ih =>
    rw [visits, List.mem_cons] at visited
    rcases visited with rfl | later
    · exact ⟨[], rest, rfl, rfl, rfl⟩
    · cases outcome : ((step a).run env).outcome with
      | error fault =>
        rw [outcome] at later
        cases later
      | ok =>
        rw [outcome] at later
        obtain ⟨before, after, members_eq, passed, env_eq⟩ := ih later
        refine ⟨a :: before, after, by rw [members_eq]; rfl, ?_, ?_⟩
        · rw [forEach, run_bind_of_ok outcome]
          exact passed
        · rw [forEach, run_bind_of_ok outcome]
          exact env_eq

/-- A loop over two lists comes to the second when it has passed the first. -/
theorem mem_visits_append {first second : List α} {v : α × Env}
    (visited : v ∈ visits step (first ++ second) env) :
    v ∈ visits step first env ∨ (((forEach step first).run env).outcome = .ok () ∧
      v ∈ visits step second ((forEach step first).run env).env) := by
  induction first generalizing env with
  | nil => exact .inr ⟨rfl, visited⟩
  | cons a rest ih =>
    rw [List.cons_append] at visited
    cases outcome : ((step a).run env).outcome with
    | error fault =>
      rw [visits_of_error outcome] at visited ⊢
      exact .inl visited
    | ok =>
      rw [visits_of_ok outcome, List.mem_cons] at visited ⊢
      rw [forEach, run_bind_of_ok outcome, or_assoc]
      exact visited.imp_right ih

/-- What every step of a loop keeps, the loop keeps. -/
theorem keeps_forEach (kept : Env → Prop)
    (keeps : ∀ a ∈ members, ∀ env, kept env → ((step a).run env).outcome = .ok () →
      kept ((step a).run env).env)
    (start : kept env) (succeeds : ((forEach step members).run env).outcome = .ok ()) :
    kept ((forEach step members).run env).env := by
  induction members generalizing env with
  | nil => exact start
  | cons a rest ih =>
    rw [forEach] at succeeds ⊢
    obtain ⟨_, first, later⟩ := outcome_bind_eq_ok succeeds
    rw [run_bind_of_ok first]
    apply ih
    · intro a' isLater
      exact keeps a' (List.mem_cons_of_mem _ isLater)
    · exact keeps a List.mem_cons_self env start first
    · exact later

/-- What every step of a loop keeps holds at every visit. -/
theorem kept_of_mem_visits (kept : Env → Prop) {v : α × Env}
    (keeps : ∀ a ∈ members, ∀ env, kept env → ((step a).run env).outcome = .ok () →
      kept ((step a).run env).env)
    (start : kept env) (visited : v ∈ visits step members env) : kept v.2 := by
  obtain ⟨before, after, rfl, passed, env_eq⟩ := exists_of_mem_visits visited
  rw [← env_eq]
  apply keeps_forEach kept _ start passed
  intro a isEarlier
  exact keeps a (List.mem_append_left _ isEarlier)

/-- The member of a visit is a member of the list. -/
theorem mem_of_mem_visits {v : α × Env} (visited : v ∈ visits step members env) :
    v.1 ∈ members := by
  obtain ⟨before, after, rfl, -⟩ := exists_of_mem_visits visited
  simp

/-- A loop that succeeds has succeeded at every visit. -/
theorem ok_of_mem_visits {v : α × Env}
    (succeeds : ((forEach step members).run env).outcome = .ok ())
    (visited : v ∈ visits step members env) : ((step v.1).run v.2).outcome = .ok () := by
  obtain ⟨before, after, rfl, passed, env_eq⟩ := exists_of_mem_visits visited
  rw [forEach_append] at succeeds
  obtain ⟨_, -, later⟩ := outcome_bind_eq_ok succeeds
  obtain ⟨_, here, -⟩ := outcome_bind_eq_ok later
  rwa [env_eq] at here

end RiscBackend.Lower.Emit
