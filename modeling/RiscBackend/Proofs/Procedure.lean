/-
# Procedures

A procedure changes a state in place, and it can fail at any point. What it assigned before a
failure stays, so that a failure leaves nothing behind only if the procedure makes its checks in
time.
-/

namespace RiscBackend

/-- A change in place with a result or a fault. What was assigned before the fault stays. -/
abbrev Procedure (State Fault Result : Type) := ExceptT Fault (StateM State) Result

namespace Procedure

variable {State Part Fault α β : Type}

/-- The answer of a procedure and the state it leaves behind. -/
def run (p : Procedure State Fault α) (s : State) : Except Fault α × State :=
  StateT.run (ExceptT.run p) s

/-- Stop with a fault when the state calls for it. -/
def refuseWhen (bad : State → Bool) (fault : Fault) : Procedure State Fault Unit := do
  if bad (← get) then throw fault

/-- Carry a procedure out on a part of the state. -/
def zoom (part : State → Part) (put : State → Part → State) (p : Procedure Part Fault α) :
    Procedure State Fault α :=
  ExceptT.mk fun s => ((p.run (part s)).1, put s (p.run (part s)).2)

section Run

variable (p : Procedure State Fault α) (s : State)

theorem run_bind (next : α → Procedure State Fault β) :
    run (p >>= next) s =
      match p.run s with
      | (.ok result, s') => (next result).run s'
      | (.error fault, s') => (.error fault, s') := by
  unfold run
  rw [ExceptT.run_bind, StateT.run_bind]
  cases StateT.run (ExceptT.run p) s with
  | mk answer s' => cases answer <;> rfl

theorem run_get_bind (next : State → Procedure State Fault α) :
    run (get >>= next) s = (next s).run s :=
  (rfl)

theorem run_modify_bind (f : State → State) (next : Unit → Procedure State Fault α) :
    run (modify f >>= next) s = (next ()).run (f s) :=
  (rfl)

theorem run_map (f : α → β) : run (f <$> p) s = ((p.run s).1.map f, (p.run s).2) := by
  unfold run
  rw [ExceptT.run_map, StateT.run_map]
  rfl

/-- What is done about a fault starts from the state that the fault left behind. -/
theorem run_tryCatch (handle : Fault → Procedure State Fault α) :
    run (tryCatch p handle) s =
      match p.run s with
      | (.ok result, s') => (.ok result, s')
      | (.error fault, s') => (handle fault).run s' := by
  show run (ExceptT.tryCatch p handle) s = _
  unfold run ExceptT.tryCatch ExceptT.mk
  change StateT.run (ExceptT.run p >>= _) s = _
  rw [StateT.run_bind]
  cases StateT.run (ExceptT.run p) s with
  | mk answer s' => cases answer <;> rfl

theorem run_zoom (part : State → Part) (put : State → Part → State) (p : Procedure Part Fault α) :
    (p.zoom part put).run s = ((p.run (part s)).1, put s (p.run (part s)).2) :=
  (rfl)

theorem run_refuseWhen_bind (bad : State → Bool) (fault : Fault)
    (next : Unit → Procedure State Fault α) :
    run (refuseWhen bad fault >>= next) s =
      if bad s then (.error fault, s) else (next ()).run s := by
  have refused : (refuseWhen bad fault).run s = (if bad s then .error fault else .ok (), s) := by
    show (if bad s then throw fault else pure () : Procedure State Fault Unit).run s = _
    split <;> rfl
  rw [run_bind, refused]
  cases bad s <;> rfl

end Run

end Procedure

end RiscBackend
