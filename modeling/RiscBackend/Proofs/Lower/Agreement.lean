/-
# Analysis and selection agree

The analysis of a block decides which operands are locals before any of its code is
emitted, and selection decides again when it comes to the operand. Both come to the same
answer: a local has an interval that covers the instruction, and what the analysis takes
for a global is accessed through its symbol.

The empty name is the exception. As an operand it is skipped by the analysis, while
selection treats it like any other name. The last theorem shows what comes of it.
-/

import RiscBackend.Proofs.Lower.Separate
import RiscBackend.Proofs.Lower.Tasks

namespace RiscBackend.Lower

open IR (Operand Instruction Block Func)
open Alloc (Interval MentionsLocal isLocalAmong declaredBy declares)
open Asm (Line Instr)
open Emit

section Table

variable {config : Config} {function : String} {crossing : List String} {start : Env} {b : Block}
  {site : Site}

/-- Where a block mentions a local, the table with which it is entered has an interval. -/
theorem Site.covers_of_mentionsLocal
    (entered : Site.ofBlock config function crossing start b = .ok site)
    {done rest : List Instruction} {i : Instruction} (body_eq : b.body = done ++ i :: rest)
    {name : String} (mentioned : MentionsLocal start.isGlobal done i name) :
    ∃ iv, site.table.lookup name = some iv ∧ iv.start ≤ done.length ∧ done.length ≤ iv.stop := by
  obtain ⟨placed, pool, allocated, rfl⟩ := Site.ofBlock_eq_ok entered
  obtain ⟨names_eq, counterpart⟩ :=
    Alloc.names_and_counterparts (Alloc.sameUse_of_allocate allocated)
  obtain ⟨access, isTouch⟩ := Alloc.exists_mem_touchesAfter.mpr mentioned
  obtain ⟨found, isFound, rfl, start_le, le_stop⟩ := Alloc.analyze_covers body_eq isTouch
  obtain ⟨stop, stop_le, isGiven⟩ := exists_mem_blockTable isFound
  obtain ⟨iv, isPlaced, name_eq, start_eq, stop_eq, -⟩ := counterpart _ isGiven
  have nodup : (placed.map Interval.name).Nodup := by
    rw [names_eq]
    exact nodup_names_blockTable crossing start b
  refine ⟨iv, ?_, ?_, ?_⟩
  · have isFound' := Alloc.Table.lookup_name_of_mem (t := { intervals := placed }) nodup isPlaced
    rwa [name_eq] at isFound'
  · rw [start_eq]
    exact start_le
  · rw [stop_eq]
    exact Int.le_trans le_stop stop_le

end Table

/-- The names that an action hides. -/
def Action.hides : Action → List String
  | .declare name => [name]
  | _ => []

/-- What names mean changes only by a declaration. -/
theorem Site.Performs.hidden_eq {site : Site} {env env' : Env} {a : Action} {lines : List Line}
    {ds : Diagnostics} (performs : site.Performs env a lines ds env') :
    env'.globals = env.globals ∧ env'.hidden = a.hides ++ env.hidden := by
  have ofSlot {name : String} {offset : Int64} (given : env.slotFor name = .ok (offset, env')) :
      env'.globals = env.globals ∧ env'.hidden = env.hidden := by
    obtain ⟨frame, -, rfl⟩ := Env.slotFor_eq_ok given
    exact ⟨rfl, rfl⟩
  cases performs with
  | spill iv given | writeBack iv given => exact ofSlot given
  | putSlot puts found given => cases puts <;> exact ofSlot given
  | putRegister puts | putUnknown puts => cases puts <;> exact ⟨rfl, rfl⟩
  | skip optional =>
    cases a with
    | declare name => cases optional
    | _ => exact ⟨rfl, rfl⟩
  | _ => exact ⟨rfl, rfl⟩

/-- In the second environment names mean what they mean in the first, but that some more
are hidden. -/
def HidesMore (start : Env) (names : List String) (env : Env) : Prop :=
  env.globals = start.globals ∧ env.hidden = names ++ start.hidden

/-- Tasks that declare nothing do not change what names mean. -/
theorem hidesMore_of_quiet {tasks : List Task} (start : Env)
    (quiet : ∀ t ∈ tasks, t.action.hides = []) :
    (∀ v ∈ visits Task.emit tasks start, HidesMore start [] v.2) ∧
      (((forEach Task.emit tasks).run start).outcome = .ok () →
        HidesMore start [] ((forEach Task.emit tasks).run start).env) := by
  have keeps : ∀ t ∈ tasks, ∀ env, HidesMore start [] env → (t.emit.run env).outcome = .ok () →
      HidesMore start [] (t.emit.run env).env := by
    rintro t isTask env ⟨globals_eq, hidden_eq⟩ succeeds
    obtain ⟨globals_eq', hidden_eq'⟩ := (Task.performs succeeds).hidden_eq
    rw [quiet t isTask] at hidden_eq'
    exact ⟨globals_eq'.trans globals_eq, hidden_eq'.trans hidden_eq⟩
  exact ⟨fun v visited => kept_of_mem_visits _ keeps ⟨rfl, rfl⟩ visited,
    keeps_forEach _ keeps ⟨rfl, rfl⟩⟩

/-- The actions of an instruction other than a declaration declare nothing, and those of a
declaration end with it. -/
theorem Site.actions_cases (site : Site) (i : Instruction) :
    (declares i = [] ∧ ∀ a ∈ site.actions i, a.hides = []) ∨
      ∃ name before, declares i = [name] ∧ site.actions i = before ++ [.declare name] ∧
        ∀ a ∈ before, a.hides = [] := by
  have moves : ∀ a ∈ (site.table.spillsAt site.position).map Action.spill ++
      site.table.intervals.map Action.reload, a.hides = [] := by
    intro a isMove
    rcases List.mem_append.mp isMove with isSpill | isReload
    · obtain ⟨iv, -, rfl⟩ := List.mem_map.mp isSpill
      rfl
    · obtain ⟨iv, -, rfl⟩ := List.mem_map.mp isReload
      rfl
  rw [actions, ← List.append_assoc]
  by_cases declared : ∃ name, i.opcode = .alloca ∧ i.result = some name
  · obtain ⟨name, isAlloca, isResult⟩ := declared
    right
    refine ⟨name, _, by simp [declares, isAlloca, isResult], ?_, moves⟩
    simp [selection, isAlloca, isResult]
  · left
    constructor
    · rw [declares]
      split
      · rename_i isAlloca
        cases isResult : i.result with
        | none => rfl
        | some name => exact absurd ⟨name, isAlloca, isResult⟩ declared
      · rfl
    · rw [List.forall_mem_append]
      refine ⟨moves, fun a isOwn => ?_⟩
      cases (selects_of_mem_selection isOwn).2 with
      | declare isAlloca isResult => exact absurd ⟨_, isAlloca, isResult⟩ declared
      | _ => rfl

/-- At an instruction names mean what they meant before it, and after it those that it
declares are hidden. -/
theorem hidesMore_actions (site : Site) (i : Instruction) (start : Env) :
    (∀ v ∈ visits Task.emit ((site.actions i).map (Task.mk site)) start,
        HidesMore start [] v.2) ∧
      (((forEach Task.emit ((site.actions i).map (Task.mk site))).run start).outcome = .ok () →
        HidesMore start (declares i)
          ((forEach Task.emit ((site.actions i).map (Task.mk site))).run start).env) := by
  rcases site.actions_cases i with ⟨none, quiet⟩ | ⟨name, before, one, actions_eq, quiet⟩
  · rw [none]
    exact hidesMore_of_quiet start (List.forall_mem_map.mpr quiet)
  · have quiet' : ∀ t ∈ before.map (Task.mk site), t.action.hides = [] :=
      List.forall_mem_map.mpr quiet
    obtain ⟨at_visits, at_end⟩ := hidesMore_of_quiet start quiet'
    rw [one, actions_eq, List.map_append, forEach_append]
    constructor
    · intro v visited
      rcases mem_visits_append visited with isBefore | ⟨passed, isLast⟩
      · exact at_visits v isBefore
      · rw [List.map_singleton] at isLast
        obtain rfl : v = (_, _) := List.mem_singleton.mp isLast
        exact at_end passed
    · intro succeeds
      obtain ⟨_, passed, -⟩ := outcome_bind_eq_ok succeeds
      obtain ⟨globals_eq, hidden_eq⟩ := at_end passed
      rw [run_bind_of_ok passed]
      exact ⟨globals_eq, congrArg (name :: ·) hidden_eq⟩

/-- **What names mean at a task.** Besides what was hidden at the start of the block, what
the instructions before have declared is hidden. -/
theorem hidden_of_mem_visits {body : List Instruction} {site : Site} {start : Env}
    {v : Task × Env} (visited : v ∈ visits Task.emit (site.tasks body) start) :
    ∃ done i rest, body = done ++ i :: rest ∧
      v.1.site = { site with position := site.position + done.length } ∧
      v.1.action ∈ v.1.site.actions i ∧ v.2.globals = start.globals ∧
      v.2.hidden = declaredBy start.hidden done := by
  induction body generalizing site start with
  | nil => cases visited
  | cons first later ih =>
    obtain ⟨at_visits, at_end⟩ := hidesMore_actions site first start
    rcases mem_visits_append visited with isFirst | ⟨passed, isLater⟩
    · obtain ⟨globals_eq, hidden_eq⟩ := at_visits v isFirst
      obtain ⟨a, isAction, task_eq⟩ := List.mem_map.mp (mem_of_mem_visits isFirst)
      refine ⟨[], first, later, rfl, ?_, ?_, globals_eq, hidden_eq⟩
      · rw [← task_eq]
        rfl
      · rw [← task_eq]
        exact isAction
    · obtain ⟨globals_eq, hidden_eq⟩ := at_end passed
      obtain ⟨done, i, rest, rfl, site_eq, isAction, globals_eq', hidden_eq'⟩ := ih isLater
      refine ⟨first :: done, i, rest, rfl, ?_, isAction, globals_eq'.trans globals_eq, ?_⟩
      · rw [site_eq, List.length_cons, Nat.add_assoc, Nat.add_comm 1]
      · rw [hidden_eq', hidden_eq]
        rfl

/-- What names mean after tasks. -/
theorem hidden_of_tasks {body : List Instruction} {site : Site} {start : Env}
    (succeeds : ((forEach Task.emit (site.tasks body)).run start).outcome = .ok ()) :
    ((forEach Task.emit (site.tasks body)).run start).env.globals = start.globals ∧
      ((forEach Task.emit (site.tasks body)).run start).env.hidden =
        declaredBy start.hidden body := by
  induction body generalizing site start with
  | nil => exact ⟨rfl, rfl⟩
  | cons first later ih =>
    rw [Site.tasks, forEach_append] at succeeds ⊢
    obtain ⟨_, passed, succeeds⟩ := outcome_bind_eq_ok succeeds
    obtain ⟨globals_eq, hidden_eq⟩ := (hidesMore_actions site first start).2 passed
    obtain ⟨globals_eq', hidden_eq'⟩ := ih succeeds
    rw [run_bind_of_ok passed]
    refine ⟨globals_eq'.trans globals_eq, ?_⟩
    dsimp only
    rw [hidden_eq', hidden_eq]
    rfl

/-- An action handles a name as a local: it reads or writes an operand that means none of
the globals at that moment, or it has to do with a result. -/
inductive Action.HandlesLocal (env : Env) : Action → String → Prop
  | read (rd name : String) (isLocal : env.isGlobal name = false) :
      HandlesLocal env (.read rd (.name name)) name
  | assign (name : String) (isLocal : env.isGlobal name = false) :
      HandlesLocal env (.assign name) name
  | write (name : String) : HandlesLocal env (.write name) name
  | declare (name : String) : HandlesLocal env (.declare name) name

/-- The name that an action handles is an operand. -/
inductive Action.TakesOperand : Action → String → Prop
  | read (rd name : String) : TakesOperand (.read rd (.name name)) name
  | assign (name : String) : TakesOperand (.assign name) name

/-- Analysis and selection agree about a task of a block: what is handled as a local has an
interval here, and an operand that the analysis takes for a global is accessed through its
symbol. -/
structure Task.Agreed (start : Env) (b : Block) (t : Task) (env : Env) : Prop where
  covered : ∀ name, t.action.HandlesLocal env name → (t.action.TakesOperand name → name ≠ "") →
    ∃ iv, t.site.table.lookup name = some iv ∧ iv.start ≤ t.site.position ∧
      t.site.position ≤ iv.stop
  by_symbol : ∀ name, t.action.TakesOperand name →
    isLocalAmong start.isGlobal (declaredBy [] (b.body.take (t.site.position + 1))) name = false →
    ∃ rd, .ofInstr (.la rd name) ∈ (t.emit.run env).lines

/-- A name means a global when it meant one at the start and was not declared since. -/
theorem isGlobal_eq_not_isLocalAmong {start env : Env} {done : List Instruction} (name : String)
    (globals_eq : env.globals = start.globals)
    (hidden_eq : env.hidden = declaredBy start.hidden done) :
    env.isGlobal name = !isLocalAmong start.isGlobal (declaredBy [] done) name := by
  have contains_eq : (declaredBy start.hidden done).contains name =
      (start.hidden.contains name || (declaredBy [] done).contains name) := by
    rw [Bool.eq_iff_iff]
    simp [Alloc.mem_declaredBy]
  have defines_eq : env.defines name = start.defines name := by
    rw [Env.defines, globals_eq, Env.defines]
  rw [Env.isGlobal, Env.isHidden, hidden_eq, contains_eq, defines_eq, isLocalAmong, Env.isGlobal,
    Env.isHidden]
  cases start.defines name <;> cases start.hidden.contains name <;>
    cases (declaredBy [] done).contains name <;> rfl

/-- A name that means a global is accessed through its symbol. -/
theorem Task.la_mem_lines {t : Task} {env : Env} {name : String}
    (takes : t.action.TakesOperand name) (isGlobal : env.isGlobal name = true) :
    ∃ rd, .ofInstr (.la rd name) ∈ (t.emit.run env).lines := by
  obtain ⟨site, a⟩ := t
  cases takes with
  | read rd =>
    refine ⟨rd, ?_⟩
    show _ ∈ ((site.loadOperand rd (.name name)).run env).lines
    rw [Site.loadOperand, run_getEnv_bind, if_pos isGlobal]
    exact List.mem_cons_self
  | assign =>
    refine ⟨site.config.scratch.2, ?_⟩
    rw [Task.emit, run_getEnv_bind, if_pos isGlobal]
    exact List.mem_cons_self

section Block

variable {config : Config} {function : String} {crossing : List String} {start : Env} {b : Block}
  {site : Site}

/-- A name that an action of an instruction handles as a local is mentioned as one. -/
theorem mentionsLocal_of_handlesLocal {env : Env} {done : List Instruction} {i : Instruction}
    {a : Action} {name : String} (isAction : a ∈ site.actions i)
    (globals_eq : env.globals = start.globals)
    (hidden_eq : env.hidden = declaredBy start.hidden done) (handles : a.HandlesLocal env name)
    (named : a.TakesOperand name → name ≠ "") : MentionsLocal start.isGlobal done i name := by
  have meansLocal (isLocal : env.isGlobal name = false) : start.isGlobal name = false ∨
      ∃ j ∈ done ++ [i], j.opcode = .alloca ∧ j.result = some name := by
    rw [isGlobal_eq_not_isLocalAmong name globals_eq hidden_eq, Bool.not_eq_false',
      Alloc.isLocalAmong_declaredBy] at isLocal
    refine isLocal.imp_right ?_
    rintro ⟨j, isDone, declared⟩
    exact ⟨j, List.mem_append_left _ isDone, declared⟩
  rcases Site.mem_actions isAction with ⟨iv, -, rfl | rfl⟩ | isOwn
  · cases handles
  · cases handles
  · obtain ⟨lowered, selects⟩ := Site.selects_of_mem_selection isOwn
    refine ⟨lowered, ?_⟩
    cases selects with
    | read isArg =>
      cases handles with
      | read _ _ isLocal => exact .inr ⟨isArg, named (.read _ _), meansLocal isLocal⟩
    | compute => cases handles
    | write isResult | declare _ isResult =>
      cases handles
      exact .inl isResult
    | assign _ args_eq =>
      cases handles with
      | assign _ isLocal => exact .inr ⟨by simp [args_eq], named (.assign _), meansLocal isLocal⟩

/-- **Analysis and selection agree at every task of a block.** -/
theorem Task.agreed (entered : Site.ofBlock config function crossing start b = .ok site)
    {v : Task × Env} (visited : v ∈ visits Task.emit (site.blockTasks b) start) :
    v.1.Agreed start b v.2 := by
  rcases mem_visits_append visited with inBody | ⟨-, atEnd⟩
  · obtain ⟨done, i, rest, body_eq, site_eq, isAction, globals_eq, hidden_eq⟩ :=
      hidden_of_mem_visits inBody
    have position_eq : v.1.site.position = done.length := by
      obtain ⟨_, _, _, rfl⟩ := Site.ofBlock_eq_ok entered
      rw [site_eq, Nat.zero_add]
    constructor
    · intro name handles named
      rw [position_eq, site_eq]
      exact Site.covers_of_mentionsLocal entered body_eq
        (mentionsLocal_of_handlesLocal isAction globals_eq hidden_eq handles named)
    · intro name takes skipped
      have taken_eq : b.body.take (v.1.site.position + 1) = done ++ [i] := by
        rw [position_eq, body_eq, List.append_cons, ← List.length_singleton, ← List.length_append,
          List.take_left]
      apply Task.la_mem_lines takes
      rw [taken_eq, ← Bool.not_eq_true, Alloc.isLocalAmong_declaredBy] at skipped
      rw [isGlobal_eq_not_isLocalAmong name globals_eq hidden_eq, Bool.not_eq_true',
        ← Bool.not_eq_true, Alloc.isLocalAmong_declaredBy]
      refine fun isLocal => skipped (isLocal.imp_right ?_)
      rintro ⟨j, isDone, declared⟩
      exact ⟨j, List.mem_append_left _ isDone, declared⟩
  · have isWriteBack : ∃ iv, v.1.action = .writeBack iv := by
      have isTask := mem_of_mem_visits atEnd
      rw [Site.closing] at isTask
      split at isTask
      · obtain ⟨iv, -, task_eq⟩ := List.mem_map.mp isTask
        exact ⟨iv, by rw [← task_eq]⟩
      · cases isTask
    obtain ⟨iv, action_eq⟩ := isWriteBack
    constructor
    · intro name handles
      rw [action_eq] at handles
      cases handles
    · intro name takes
      rw [action_eq] at takes
      cases takes

end Block

section Reports

namespace PlacementFault

theorem message_noInterval (name : String) :
    (noInterval name).message = "unresolved name: no " ++ ("interval for '" ++ name ++ "'") := by
  rw [← String.append_assoc, ← String.append_assoc]
  rfl

theorem message_noSlot (name : String) :
    (noSlot name).message = "unresolved name: no " ++ ("stack slot for '" ++ name ++ "'") := by
  rw [← String.append_assoc, ← String.append_assoc]
  rfl

theorem message_noInterval_inj {name other : String}
    (same : (noInterval name).message = (noInterval other).message) : name = other := by
  simpa [message_noInterval] using same

theorem message_noInterval_ne_noSlot (name other : String) :
    (noInterval name).message ≠ (noSlot other).message := by
  intro same
  rw [message_noInterval, message_noSlot, String.append_right_inj] at same
  have first := congrArg (fun text => text.toList.head?) same
  simp [String.toList_append] at first

/-- The message about a missing interval differs from those that start otherwise. -/
theorem message_noInterval_ne {name text : String} (differ : text.toList.head? ≠ some 'u') :
    (noInterval name).message ≠ text := by
  rintro rfl
  rw [message_noInterval] at differ
  simp [String.toList_append] at differ

end PlacementFault

theorem message_of_mem_reports {site : Site} {fault : PlacementFault} {d : Diagnostic}
    (reported : d ∈ site.reports fault) : d.message = fault.message := by
  rw [Site.reports] at reported
  split at reported
  · rw [List.mem_singleton.mp reported]
  · split at reported
    · rw [List.mem_singleton.mp reported]
    · cases reported

/-- An action that reports a missing interval handles a local without an interval. -/
theorem Site.Performs.unknown_of_reports {site : Site} {env env' : Env} {a : Action}
    {lines : List Line} {ds : Diagnostics} (performs : site.Performs env a lines ds env')
    {d : Diagnostic} {name : String} (reported : d ∈ ds)
    (message_eq : d.message = (PlacementFault.noInterval name).message) :
    a.HandlesLocal env name ∧ site.table.lookup name = none := by
  have sameName {other : String} (reported : d ∈ site.reports (.noInterval other)) :
      other = name :=
    PlacementFault.message_noInterval_inj ((message_of_mem_reports reported).symm.trans message_eq)
  cases performs with
  | readUnknown rd isLocal unknown =>
    obtain rfl := sameName reported
    exact ⟨.read rd _ isLocal, unknown⟩
  | putUnknown puts unknown =>
    obtain rfl := sameName reported
    cases puts with
    | write => exact ⟨.write _, unknown⟩
    | assign _ isLocal => exact ⟨.assign _ isLocal, unknown⟩
  | reloadNothing | readNothing =>
    rw [message_of_mem_reports reported] at message_eq
    exact absurd message_eq.symm (PlacementFault.message_noInterval_ne_noSlot _ _)
  | spill iv _ worded =>
    rw [worded d reported] at message_eq
    refine absurd message_eq.symm (PlacementFault.message_noInterval_ne ?_)
    simp [toString, String.toList_append]
  | _ => cases reported

/-- What a task of a block takes as an operand is an operand in the block. -/
theorem Site.mem_args_of_takesOperand {site : Site} {b : Block} {t : Task} {name : String}
    (isTask : t ∈ site.blockTasks b) (takes : t.action.TakesOperand name) :
    ∃ i ∈ b.body, .name name ∈ i.args := by
  rcases Site.mem_blockTasks isTask with ⟨done, i, rest, body_eq, -, isAction⟩ |
      ⟨-, iv, -, isWriteBack⟩
  · refine ⟨i, by simp [body_eq], ?_⟩
    generalize t.action = a at isAction takes
    rcases Site.mem_actions isAction with ⟨iv, -, rfl | rfl⟩ | isOwn
    · cases takes
    · cases takes
    · cases (Site.selects_of_mem_selection isOwn).2 with
      | read isArg =>
        cases takes
        exact isArg
      | assign _ args_eq =>
        cases takes
        simp [args_eq]
      | _ => cases takes
  · rw [isWriteBack] at takes
    cases takes

variable {config : Config} {source : IR.Module} {f : Func}

/-- A missing interval is reported for the empty name only, and only if it is an operand. -/
theorem eq_empty_of_noInterval (wellFormed : ∀ b ∈ f.blocks, ∀ i ∈ b.body, i.WellFormed)
    {d : Diagnostic} {name : String} (reported : d ∈ (funcCode config source f).diagnostics)
    (message_eq : d.message = (PlacementFault.noInterval name).message) :
    name = "" ∧ ∃ i ∈ f.code, .name "" ∈ i.args := by
  rcases mem_diagnostics_funcCode reported with inBlocks | ⟨used, frame_eq⟩
  · rw [blocksCode, (lines_diagnostics_forEach _ _ _).2] at inBlocks
    obtain ⟨⟨b, start⟩, visited, inBlock⟩ := List.mem_flatMap.mp inBlocks
    have isBlock := mem_of_mem_visits visited
    cases entered : Site.ofBlock config f.name (Alloc.crossing f) start b with
    | error fault =>
      rw [run_lowerBlock_of_error (wellFormed b isBlock) entered] at inBlock
      cases inBlock
    | ok site =>
      rw [run_lowerBlock_of_ok (wellFormed b isBlock) entered] at inBlock
      dsimp only at inBlock
      rw [(lines_diagnostics_forEach _ _ _).2] at inBlock
      obtain ⟨⟨t, env⟩, visited', inTask⟩ := List.mem_flatMap.mp inBlock
      have agreed := Task.agreed entered visited'
      rcases t.accounts env with ⟨-, performs⟩ | ⟨-, -, silent⟩
      · obtain ⟨handles, unknown⟩ := performs.unknown_of_reports inTask message_eq
        by_cases named : t.action.TakesOperand name → name ≠ ""
        · obtain ⟨iv, found, -⟩ := agreed.covered name handles named
          cases unknown.symm.trans found
        · obtain ⟨takes, rfl⟩ : t.action.TakesOperand name ∧ name = "" := by
            simpa using named
          obtain ⟨i, inBody, isArg⟩ :=
            Site.mem_args_of_takesOperand (mem_of_mem_visits visited') takes
          exact ⟨rfl, i, List.mem_flatMap.mpr ⟨b, isBlock, inBody⟩, isArg⟩
      · rw [silent] at inTask
        cases inTask
  · rw [frame_eq] at message_eq
    refine absurd message_eq.symm (PlacementFault.message_noInterval_ne ?_)
    simp [toString, String.toList_append]

end Reports

/-- **Analysis and selection agree.** In a valid module, whatever the settings, the code of
every block that is entered is made of tasks about which analysis and selection agree, but
for operands with the empty name. A missing interval is reported for that name only, and
only in a module that has it as an operand. -/
theorem analysis_agrees_with_selection {config : Config} {source : IR.Module}
    (validated : source.validate = .ok ()) :
    (∀ f ∈ source.funcs, ∀ b start,
      (b, start) ∈ visits (lowerBlock config f.name (Alloc.crossing f)) f.blocks
        (entryEnv config source) →
      ∀ site, Site.ofBlock config f.name (Alloc.crossing f) start b = .ok site →
        ((lowerBlock config f.name (Alloc.crossing f) b).run start).lines =
          { stmt := .label b.label } :: (visits Task.emit (site.blockTasks b) start).flatMap
            (fun v => (v.1.emit.run v.2).lines) ∧
        ∀ t env, (t, env) ∈ visits Task.emit (site.blockTasks b) start → t.Agreed start b env) ∧
    ∀ d ∈ (lowerModule config source).2, ∀ name,
      d.message = (PlacementFault.noInterval name).message →
      name = "" ∧ ∃ f ∈ source.funcs, ∃ i ∈ f.code, .name "" ∈ i.args := by
  have valid := IR.Module.valid_of_validate validated
  have wellFormed : ∀ f ∈ source.funcs, ∀ b ∈ f.blocks, ∀ i ∈ b.body, i.WellFormed :=
    fun f isFunc => valid.wellFormed_body isFunc
  constructor
  · intro f isFunc b start visited site entered
    constructor
    · rw [run_lowerBlock_of_ok (wellFormed f isFunc b (mem_of_mem_visits visited)) entered]
      dsimp only
      rw [(lines_diagnostics_forEach _ _ _).1]
    · intro t env visited'
      exact Task.agreed entered visited'
  · intro d reported name message_eq
    have inFuncs := mem_diagnostics_lowerModule valid reported
    rw [(lines_diagnostics_forEach _ _ _).2] at inFuncs
    obtain ⟨v, visited, inFunc⟩ := List.mem_flatMap.mp inFuncs
    have isFunc := mem_of_mem_visits visited
    rw [run_eq_of_mem_visits rfl rfl visited] at inFunc
    obtain ⟨isEmpty, i, inCode, isArg⟩ :=
      eq_empty_of_noInterval (wellFormed v.1 isFunc) inFunc message_eq
    exact ⟨isEmpty, v.1, isFunc, i, inCode, isArg⟩

/-- With a single register the first block of that function has nineteen tasks, and no
interval is missed in the whole module. -/
theorem analysis_agrees_with_selection_crowded :
    crowded.validate = .ok () ∧
    (∃ b rest site, crowdedMain.blocks = b :: rest ∧
      Site.ofBlock { registers := ["s1"] } "main" (Alloc.crossing crowdedMain)
        (entryEnv { registers := ["s1"] } crowded) b = .ok site ∧
      (site.blockTasks b).length = 19 ∧
      ∀ t env, (t, env) ∈ visits Task.emit (site.blockTasks b)
          (entryEnv { registers := ["s1"] } crowded) →
        t.Agreed (entryEnv { registers := ["s1"] } crowded) b env) ∧
    ∀ d ∈ (lowerModule { registers := ["s1"] } crowded).2, ∀ name,
      d.message ≠ (PlacementFault.noInterval name).message := by
  let config : Config := { registers := ["s1"] }
  have validated : crowded.validate = .ok () := by decide
  obtain ⟨agreed, reported⟩ := @analysis_agrees_with_selection config crowded validated
  refine ⟨validated, ?_, ?_⟩
  · obtain ⟨b, rest, blocks_eq⟩ : ∃ b rest, crowdedMain.blocks = b :: rest := ⟨_, _, rfl⟩
    have entered : (Site.ofBlock config "main" (Alloc.crossing crowdedMain)
        (entryEnv config crowded) b).toOption.map (fun site => (site.blockTasks b).length) =
          some 19 := by
      cases blocks_eq
      rw [Site.ofBlock, Alloc.allocate, Alloc.assign, scanOrder_blockTable]
      decide +kernel
    cases result : Site.ofBlock config "main" (Alloc.crossing crowdedMain)
        (entryEnv config crowded) b with
    | error fault =>
      rw [result] at entered
      cases entered
    | ok site =>
      rw [result] at entered
      refine ⟨b, rest, site, blocks_eq, result, Option.some.inj entered, ?_⟩
      apply (agreed crowdedMain List.mem_cons_self b _ _ site result).2
      rw [blocks_eq]
      exact List.mem_cons_self
  · intro d isReported name message_eq
    have named : ∀ f ∈ crowded.funcs, ∀ i ∈ f.code, .name "" ∉ i.args := by decide
    obtain ⟨-, f, isFunc, i, inCode, isArg⟩ := reported d isReported name message_eq
    exact named f isFunc i inCode isArg

/-- A module in which the empty name is a result and an operand. -/
def unnamed : IR.Module where
  funcs :=
    [{ name := "main"
       blocks :=
        [{ label := "entry"
           body :=
            [.binary (.arith .add) "" (.const 1) (.const 2),
              .binary (.arith .add) "y" (.name "") (.const 5),
              .binary (.arith .add) "z" (.name "") (.const 0), .ret (.name "z")] }] }]

/-- A module in which the empty name is an operand only. -/
def unwritten : IR.Module where
  funcs := [{ name := "main", blocks := [{ label := "entry", body := [.ret (.name "")] }] }]

/-- As an operand the empty name is overlooked. Its interval ends where it is written, so
the register is given away before the value is read, and the code returns eight for three;
and where the name is not written at all it has no interval. -/
theorem empty_operand_is_overlooked :
    unnamed.validate = .ok () ∧ unwritten.validate = .ok () ∧ Config.Chosen {} ∧
    (unnamed.funcs[0]?.bind (unnamed.run? none)).map IR.Outcome.value = some 3 ∧
    ((lowerModule {} unnamed).1.toOption.bind fun program =>
      program.routines[0]?.bind fun routine =>
        (scrambled.runToExit? routine).map fun final => final.registers "a0") =
      some (.word 8) ∧
    (lowerModule {} unwritten).2.map Diagnostic.message =
      [(PlacementFault.noInterval "").message] := by
  refine ⟨by decide, by decide, .default, by decide +kernel, ?_, by decide +kernel⟩
  simp only [lowerModule, Lowering.addModule, unnamed, Emit.forEach, lowerFunc, lowerBlock,
    Alloc.allocate, Alloc.assign, scanOrder_blockTable]
  decide +kernel

end RiscBackend.Lower
