/-
# What the code of a block is made of

The code of a block is a row of small tasks: save a value, fetch one, bring an operand
into a register, compute, put a result into its place. Every task is done for at most
one name, and the code of an instruction and of a block is the code of its tasks in
order. `Performs` says once what a task can do.
-/

import RiscBackend.Lower.Block
import RiscBackend.Proofs.Alloc.Extent
import RiscBackend.Proofs.Asm.Footprint
import RiscBackend.Proofs.IR.WellFormed
import RiscBackend.Proofs.Lower.Frame
import RiscBackend.Proofs.Lower.Sequence

namespace RiscBackend.Lower

open IR (Operand Instruction Block Func ArithOp)
open Alloc (Interval)
open Asm (Line Instr)
open Emit

/-- The smallest pieces of lowering. -/
inductive Action where
  /-- Save a value that is evicted. -/
  | spill (iv : Interval)
  /-- Fetch a value that arrives from an earlier block. -/
  | reload (iv : Interval)
  /-- Save a value for the blocks that follow. -/
  | writeBack (iv : Interval)
  /-- Bring an operand into a register. -/
  | read (rd : String) (operand : Operand)
  /-- Compute in the scratch registers. -/
  | compute (op : ArithOp)
  /-- Put the computed value into the place of a local. -/
  | write (name : String)
  /-- Put the computed value into the place of a local or a global. -/
  | assign (name : String)
  /-- Hide a global behind a local. -/
  | declare (name : String)

/-- An action at a point of the program. -/
structure Task where
  site : Site
  action : Action

/-- The name for which an action is done. -/
def Action.name? : Action → Option String
  | spill iv | reload iv | writeBack iv => some iv.name
  | read _ operand => operand.name?
  | compute _ => none
  | write name | assign name | declare name => some name

/-- Lower a task. -/
def Task.emit (t : Task) : Emit Unit :=
  match t.action with
  | .spill iv => t.site.spill iv
  | .reload iv => t.site.reload iv
  | .writeBack iv => t.site.writeBack iv
  | .read rd operand => t.site.loadOperand rd operand
  | .compute op =>
    instr (.arith op t.site.config.scratch.1 t.site.config.scratch.1 t.site.config.scratch.2)
  | .write name => t.site.storeLocal name t.site.config.scratch.1
  | .assign name => do
    if (← getEnv).isGlobal name then
      instr (.la t.site.config.scratch.2 name)
      instr (.sw t.site.config.scratch.1 0 t.site.config.scratch.2)
    else t.site.storeLocal name t.site.config.scratch.1
  | .declare name => modifyEnv fun env => env.hide name

namespace Site

/-- What an instruction itself asks for. -/
def selection (site : Site) (i : Instruction) : List Action :=
  match i.opcode, i.result, i.args with
  | .arith op, some name, [a, b] =>
    [.read site.config.scratch.1 a, .read site.config.scratch.2 b, .compute op, .write name]
  | .ret, _, [value] => [.read site.config.returnRegister value]
  | .alloca, some name, _ => [.declare name]
  | .load, some name, [source] => [.read site.config.scratch.1 source, .write name]
  | .store, _, [value, .name target] => [.read site.config.scratch.1 value, .assign target]
  | _, _, _ => []

/-- All that is to be done at an instruction. -/
def actions (site : Site) (i : Instruction) : List Action :=
  (site.table.spillsAt site.position).map .spill ++
    (site.table.intervals.map .reload ++ site.selection i)

/-- The tasks of instructions from a point on. -/
def tasks (site : Site) : List Instruction → List Task
  | [] => []
  | i :: rest =>
    (site.actions i).map (Task.mk site) ++
      tasks { site with position := site.position + 1 } rest

/-- The tasks at the end of a block. -/
def closing (site : Site) (b : Block) : List Task :=
  if fallsThrough b then
    site.table.intervals.map fun iv =>
      { site := { site with position := b.body.length }, action := .writeBack iv }
  else []

/-- The point at which a block is entered, with registers for its intervals. -/
def ofBlock (config : Config) (function : String) (crossing : List String) (env : Env)
    (b : Block) : Except Alloc.AllocationFault Site :=
  (Alloc.allocate (.ofNames config.registers) (blockTable crossing env b).intervals).map
    fun result =>
      { config, function, block := b.label, table := { intervals := result.1 }, crossing }

/-- A block is entered with the intervals that the allocation gives. -/
theorem ofBlock_eq_ok {config : Config} {function : String} {crossing : List String} {env : Env}
    {b : Block} {site : Site} (entered : ofBlock config function crossing env b = .ok site) :
    ∃ intervals pool,
      Alloc.allocate (.ofNames config.registers) (blockTable crossing env b).intervals =
        .ok (intervals, pool) ∧
      site = { config, function, block := b.label, table := { intervals }, crossing } := by
  rw [ofBlock] at entered
  cases allocated :
      Alloc.allocate (.ofNames config.registers) (blockTable crossing env b).intervals with
  | error fault =>
    rw [allocated] at entered
    cases entered
  | ok result =>
    rw [allocated] at entered
    cases entered
    exact ⟨result.1, result.2, rfl, rfl⟩

variable {site : Site} {i : Instruction} {b : Block}

/-- The code of a valid instruction is that of its actions. -/
theorem select_eq_forEach (wellFormed : i.WellFormed) :
    site.select i = forEach Task.emit ((site.selection i).map (Task.mk site)) := by
  cases wellFormed with
  | ret => rfl
  | retValue value => exact (bind_pure_eq (site.loadOperand _ value)).symm
  | arith op name a b =>
    show (do
      site.loadOperand _ a
      site.loadOperand _ b
      instr (.arith op _ _ _)
      site.storeLocal name _) = _
    rw [← bind_pure_eq (site.storeLocal name _)]
    rfl
  | alloca name => rfl
  | load name source =>
    funext env
    -- A load asks whether its source is a global before the operand is read, and the
    -- reading of the operand asks once more.
    have asks (next : Unit → Emit Unit) :
        Emit.run (site.loadOperand site.config.scratch.1 (.name source) >>= next) env =
          Emit.run ((if env.isGlobal source then loadGlobal site.config.scratch.1 source
            else site.loadLocal site.config.scratch.1 source) >>= next) env := rfl
    show Emit.run (if env.isGlobal source then _ else _) env = Emit.run
      (site.loadOperand _ (.name source) >>= fun _ => site.storeLocal name _ >>= pure) env
    rw [bind_pure_eq, asks]
    split
    · rfl
    · rename_i isLocal
      show Emit.run (site.loadOperand _ (.name source) >>= _) env = _
      rw [asks, if_neg isLocal]
      rfl
  | store value target =>
    show (site.loadOperand _ _ >>= fun _ => getEnv >>= fun env =>
        if env.isGlobal target then _ else _) =
      site.loadOperand _ _ >>= fun _ => (getEnv >>= fun env =>
        if env.isGlobal target then _ else _) >>= pure
    rw [bind_pure_eq]
    rfl
  | other result args => rfl

theorem step_eq_forEach (wellFormed : i.WellFormed) :
    site.step i = forEach Task.emit ((site.actions i).map (Task.mk site)) := by
  rw [step, actions, List.map_append, List.map_append, forEach_append, forEach_append,
    ← select_eq_forEach wellFormed, List.map_map, List.map_map, forEach_map, forEach_map]
  rfl

/-- The code of valid instructions is that of their tasks. -/
theorem steps_eq_forEach {body : List Instruction} (site : Site)
    (wellFormed : ∀ i ∈ body, i.WellFormed) :
    site.steps body = forEach Task.emit (site.tasks body) := by
  induction body generalizing site with
  | nil => rfl
  | cons i rest ih =>
    rw [List.forall_mem_cons] at wellFormed
    rw [steps, tasks, forEach_append, step_eq_forEach wellFormed.1, ih _ wellFormed.2]

end Site

/-- The tasks of a block that is entered at a point. -/
def Site.blockTasks (site : Site) (b : Block) : List Task :=
  site.tasks b.body ++ site.closing b

theorem Site.tasks_append (site : Site) (first second : List Instruction) :
    site.tasks (first ++ second) =
      site.tasks first ++ tasks { site with position := site.position + first.length } second := by
  induction first generalizing site with
  | nil => rfl
  | cons i rest ih =>
    rw [List.cons_append, tasks, ih, tasks, List.append_assoc, List.length_cons,
      Nat.add_comm rest.length, ← Nat.add_assoc]

/-- The tasks of instructions are those of each of them at its position. -/
theorem Site.mem_tasks {site : Site} {body : List Instruction} {t : Task} :
    t ∈ site.tasks body ↔ ∃ done i rest, body = done ++ i :: rest ∧
      t.site = { site with position := site.position + done.length } ∧
      t.action ∈ t.site.actions i := by
  induction body generalizing site with
  | nil => simp [Site.tasks]
  | cons first later ih =>
    rw [Site.tasks, List.mem_append, ih]
    constructor
    · rintro (isFirst | ⟨done, i, rest, rfl, site_eq, isAction⟩)
      · obtain ⟨a, isAction, rfl⟩ := List.mem_map.mp isFirst
        exact ⟨[], first, later, rfl, rfl, isAction⟩
      · refine ⟨first :: done, i, rest, rfl, ?_, isAction⟩
        rw [site_eq, List.length_cons, Nat.add_assoc, Nat.add_comm 1]
    · rintro ⟨done, i, rest, body_eq, site_eq, isAction⟩
      cases done with
      | nil =>
        obtain ⟨rfl, rfl⟩ := List.cons.inj body_eq
        left
        have here : t.site = site := site_eq
        rw [here] at isAction
        exact List.mem_map.mpr ⟨t.action, isAction, by rw [← here]⟩
      | cons j done =>
        obtain ⟨rfl, rfl⟩ := List.cons.inj body_eq
        right
        refine ⟨done, i, rest, rfl, ?_, isAction⟩
        rw [site_eq, List.length_cons, Nat.add_assoc, Nat.add_comm 1]

/-- The tasks of a block are those of its instructions, and writing back at its end. -/
theorem Site.mem_blockTasks {site : Site} {b : Block} {t : Task}
    (isTask : t ∈ site.blockTasks b) :
    (∃ done i rest, b.body = done ++ i :: rest ∧
        t.site = { site with position := site.position + done.length } ∧
        t.action ∈ t.site.actions i) ∨
      (t.site = { site with position := b.body.length } ∧
        ∃ iv ∈ site.table.intervals, t.action = .writeBack iv) := by
  rw [Site.blockTasks, List.mem_append, Site.mem_tasks] at isTask
  refine isTask.imp_right fun isClosing => ?_
  rw [Site.closing] at isClosing
  split at isClosing
  · obtain ⟨iv, inTable, rfl⟩ := List.mem_map.mp isClosing
    exact ⟨rfl, iv, inTable, rfl⟩
  · cases isClosing

/-- The actions at an instruction save and fetch intervals, or are its own. -/
theorem Site.mem_actions {site : Site} {i : Instruction} {a : Action}
    (isAction : a ∈ site.actions i) :
    (∃ iv ∈ site.table.intervals, a = .spill iv ∨ a = .reload iv) ∨ a ∈ site.selection i := by
  rw [Site.actions, List.mem_append, List.mem_append] at isAction
  rcases isAction with isSpill | isReload | isOwn
  · obtain ⟨iv, isSpilled, rfl⟩ := List.mem_map.mp isSpill
    exact .inl ⟨iv, (List.mem_filter.mp isSpilled).1, .inl rfl⟩
  · obtain ⟨iv, inTable, rfl⟩ := List.mem_map.mp isReload
    exact .inl ⟨iv, inTable, .inr rfl⟩
  · exact .inr isOwn

/-- What an instruction can ask for. -/
inductive Site.Selects (site : Site) (i : Instruction) : Action → Prop
  | read {rd : String} {operand : Operand} (isArg : operand ∈ i.args)
      (target : rd = site.config.scratch.1 ∨ rd = site.config.scratch.2 ∨
        rd = site.config.returnRegister ∧ i.opcode = .ret) : Selects site i (.read rd operand)
  | compute (op : ArithOp) : Selects site i (.compute op)
  | write {name : String} (isResult : i.result = some name) : Selects site i (.write name)
  | assign {value : Operand} {name : String} (isStore : i.opcode = .store)
      (args_eq : i.args = [value, .name name]) : Selects site i (.assign name)
  | declare {name : String} (isAlloca : i.opcode = .alloca) (isResult : i.result = some name) :
      Selects site i (.declare name)

/-- Only an instruction that is lowered asks for anything. -/
theorem Site.selects_of_mem_selection {site : Site} {i : Instruction} {a : Action}
    (isOwn : a ∈ site.selection i) : i.opcode ≠ .other ∧ site.Selects i a := by
  rw [Site.selection] at isOwn
  split at isOwn
  · rename_i op name x y isArith isResult args_eq
    refine ⟨by simp [isArith], ?_⟩
    simp only [List.mem_cons, List.not_mem_nil, or_false] at isOwn
    rcases isOwn with rfl | rfl | rfl | rfl
    · exact .read (by simp [args_eq]) (.inl rfl)
    · exact .read (by simp [args_eq]) (.inr (.inl rfl))
    · exact .compute op
    · exact .write isResult
  · rename_i value isRet args_eq
    obtain rfl := List.mem_singleton.mp isOwn
    exact ⟨by simp [isRet], .read (by simp [args_eq]) (.inr (.inr ⟨rfl, isRet⟩))⟩
  · rename_i name isAlloca isResult
    obtain rfl := List.mem_singleton.mp isOwn
    exact ⟨by simp [isAlloca], .declare isAlloca isResult⟩
  · rename_i name source isLoad isResult args_eq
    refine ⟨by simp [isLoad], ?_⟩
    rw [List.mem_pair] at isOwn
    obtain rfl | rfl := isOwn
    · exact .read (by simp [args_eq]) (.inl rfl)
    · exact .write isResult
  · rename_i value target isStore args_eq
    refine ⟨by simp [isStore], ?_⟩
    rw [List.mem_pair] at isOwn
    obtain rfl | rfl := isOwn
    · exact .read (by simp [args_eq]) (.inl rfl)
    · exact .assign isStore args_eq
  · cases isOwn

/-- The code of a valid block is its label and the code of its tasks. -/
theorem lowerBlock_eq {config : Config} {function : String} {crossing : List String} {b : Block}
    (wellFormed : ∀ i ∈ b.body, i.WellFormed) :
    lowerBlock config function crossing b = label b.label >>= fun _ => getEnv >>= fun env =>
      match Site.ofBlock config function crossing env b with
      | .error fault => fail { function, block := b.label, cause := .allocation fault }
      | .ok site => forEach Task.emit (site.blockTasks b) := by
  rw [lowerBlock]
  congr 1
  funext _
  congr 1
  funext env
  rw [Site.ofBlock]
  dsimp only
  cases Alloc.allocate (.ofNames config.registers) (blockTable crossing env b).intervals with
  | error fault => rfl
  | ok result =>
    dsimp only [Except.map]
    rw [Site.steps_eq_forEach _ wellFormed, Site.blockTasks, forEach_append, Site.closing]
    congr 1
    funext _
    split
    · rw [forEach_map]
      rfl
    · rfl

section LowerBlock

variable {config : Config} {function : String} {crossing : List String} {b : Block} {env : Env}

theorem run_lowerBlock_of_error {fault : Alloc.AllocationFault}
    (wellFormed : ∀ i ∈ b.body, i.WellFormed)
    (refused : Site.ofBlock config function crossing env b = .error fault) :
    (lowerBlock config function crossing b).run env =
      { lines := [{ stmt := .label b.label }], diagnostics := [], env
        outcome := .error ⟨function, b.label, .allocation fault⟩ } := by
  rw [lowerBlock_eq wellFormed, run_bind_of_ok rfl, run_getEnv_bind]
  simp only [label, line, Emit.run, refused]
  rfl

theorem run_lowerBlock_of_ok {site : Site} (wellFormed : ∀ i ∈ b.body, i.WellFormed)
    (entered : Site.ofBlock config function crossing env b = .ok site) :
    (lowerBlock config function crossing b).run env =
      { (forEach Task.emit (site.blockTasks b)).run env with
        lines := { stmt := .label b.label } ::
          ((forEach Task.emit (site.blockTasks b)).run env).lines } := by
  rw [lowerBlock_eq wellFormed, run_bind_of_ok rfl, run_getEnv_bind]
  simp only [label, line, Emit.run, entered]
  rfl

end LowerBlock

/-- What is reported about a name without a place, by the settings. -/
def Site.reports (site : Site) (fault : PlacementFault) : Diagnostics :=
  if site.config.feature .strict then
    [{ severity := .error, place := site.place, message := fault.message }]
  else if site.config.warning .unresolved then
    [{ severity := .warning, place := site.place, flag := "unresolved", message := fault.message }]
  else []

theorem run_unresolved_eq (site : Site) (fault : PlacementFault) (env : Env) :
    (site.unresolved fault).run env =
      { lines := [], diagnostics := site.reports fault, env, outcome := .ok () } := by
  rw [Site.unresolved, Site.reports]
  split
  · rfl
  · split <;> rfl

theorem run_unresolved_instr (site : Site) (fault : PlacementFault) (i : Instr) (env : Env) :
    ((do site.unresolved fault; instr i) : Emit Unit).run env =
      { lines := [.ofInstr i], diagnostics := site.reports fault, env, outcome := .ok () } := by
  rw [run_bind_of_ok (by rw [run_unresolved_eq]), run_unresolved_eq]
  show Emission.mk _ (site.reports fault ++ []) _ _ = _
  rw [List.append_nil]
  rfl

theorem run_slotFor_of_ok {site : Site} {name : String} {env env' : Env} {offset : Int64}
    (given : env.slotFor name = .ok (offset, env')) :
    (site.slotFor name).run env =
      { lines := [], diagnostics := [], env := env', outcome := .ok offset } := by
  rw [Site.slotFor, run_getEnv_bind, given]
  rfl

theorem run_slotFor_of_error {site : Site} {name : String} {env : Env} {fault : PlacementFault}
    (missing : env.slotFor name = .error fault) :
    (site.slotFor name).run env =
      { lines := [], diagnostics := [], env
        outcome := .error ⟨site.function, site.block, .placement fault⟩ } := by
  rw [Site.slotFor, run_getEnv_bind, missing]
  rfl

/-- Whether there may be nothing to do for an action. -/
def Action.optional : Action → Bool
  | spill _ | reload _ | writeBack _ | read _ .hole => true
  | _ => false

/-- An action puts the computed value into the place of a local. -/
inductive Action.Puts (env : Env) : Action → String → Prop
  | write (name : String) : Puts env (.write name) name
  | assign (name : String) (isLocal : env.isGlobal name = false) : Puts env (.assign name) name

/-- What the actions at a site do when they succeed: the lines, the reports and the
environment that result. -/
inductive Site.Performs (site : Site) (env : Env) :
    Action → List Line → Diagnostics → Env → Prop
  | skip {a : Action} (optional : a.optional = true) : Performs site env a [] [] env
  | spill (iv : Interval) {offset : Int64} {env' : Env} {ds : Diagnostics}
      (given : env.slotFor iv.name = .ok (offset, env'))
      (reported : ∀ d ∈ ds, d.message = s!"'{iv.name}' evicted from {iv.register}") :
      Performs site env (.spill iv)
        [site.slotLine (.sw iv.register offset site.config.stackRegister) "spill" iv] ds env'
  | writeBack (iv : Interval) {offset : Int64} {env' : Env}
      (given : env.slotFor iv.name = .ok (offset, env')) :
      Performs site env (.writeBack iv)
        [site.slotLine (.sw iv.register offset site.config.stackRegister) "write-back" iv] [] env'
  | reload (iv : Interval) {offset : Int64} (hasSlot : env.frame.offset? iv.name = some offset) :
      Performs site env (.reload iv)
        [site.slotLine (.lw iv.register offset site.config.stackRegister) "reload" iv] [] env
  | reloadNothing (iv : Interval) (noSlot : env.frame.offset? iv.name = none) :
      Performs site env (.reload iv) [] (site.reports (.noSlot iv.name)) env
  | readConst (rd : String) (value : Int32) :
      Performs site env (.read rd (.const value)) [.ofInstr (.li rd value)] [] env
  | readGlobal (rd : String) {name : String} (isGlobal : env.isGlobal name = true) :
      Performs site env (.read rd (.name name))
        [.ofInstr (.la rd name), .ofInstr (.lw rd 0 rd)] [] env
  | readRegister (rd : String) {name : String} {iv : Interval}
      (isLocal : env.isGlobal name = false) (found : site.table.lookup name = some iv) :
      Performs site env (.read rd (.name name)) [.ofInstr (.mv rd iv.register)] [] env
  | readSlot (rd : String) {name : String} {iv : Interval} {offset : Int64}
      (isLocal : env.isGlobal name = false) (found : site.table.lookup name = some iv)
      (hasSlot : env.frame.offset? name = some offset) :
      Performs site env (.read rd (.name name))
        [.ofInstr (.lw rd offset site.config.stackRegister)] [] env
  | readNothing (rd : String) {name : String} {iv : Interval}
      (isLocal : env.isGlobal name = false) (found : site.table.lookup name = some iv)
      (noSlot : env.frame.offset? name = none) :
      Performs site env (.read rd (.name name))
        [.ofInstr (.lw rd 0 site.config.stackRegister)] (site.reports (.noSlot name)) env
  | readUnknown (rd : String) {name : String} (isLocal : env.isGlobal name = false)
      (unknown : site.table.lookup name = none) :
      Performs site env (.read rd (.name name)) [.ofInstr (.li rd 0)]
        (site.reports (.noInterval name)) env
  | compute (op : ArithOp) :
      Performs site env (.compute op)
        [.ofInstr (.arith op site.config.scratch.1 site.config.scratch.1 site.config.scratch.2)]
        [] env
  | putRegister {a : Action} {name : String} {iv : Interval} (puts : a.Puts env name)
      (found : site.table.lookup name = some iv) :
      Performs site env a [.ofInstr (.mv iv.register site.config.scratch.1)] [] env
  | putSlot {a : Action} {name : String} {iv : Interval} {offset : Int64} {env' : Env}
      (puts : a.Puts env name) (found : site.table.lookup name = some iv)
      (given : env.slotFor name = .ok (offset, env')) :
      Performs site env a
        [.ofInstr (.sw site.config.scratch.1 offset site.config.stackRegister)] [] env'
  | putUnknown {a : Action} {name : String} (puts : a.Puts env name)
      (unknown : site.table.lookup name = none) :
      Performs site env a [] (site.reports (.noInterval name)) env
  | assignGlobal (name : String) (isGlobal : env.isGlobal name = true) :
      Performs site env (.assign name)
        [.ofInstr (.la site.config.scratch.2 name),
          .ofInstr (.sw site.config.scratch.1 0 site.config.scratch.2)] [] env
  | declare (name : String) : Performs site env (.declare name) [] [] (env.hide name)

/-- An emission accounts for an action: either the action was performed, or it failed and
nothing was emitted or reported. -/
def Site.Accounts (site : Site) (env : Env) (a : Action) (e : Emission Unit) : Prop :=
  (e.outcome = .ok () ∧ site.Performs env a e.lines e.diagnostics e.env) ∨
    ((∃ fault, e.outcome = .error fault) ∧ e.lines = [] ∧ e.diagnostics = [])

namespace Site

variable {site : Site} {env : Env}

/-- What first asks for a slot accounts for an action if it does so from the slot on: without a
slot it fails at once. -/
theorem accounts_slotFor_bind {a : Action} {name : String} {next : Int64 → Emit Unit}
    (goesOn : ∀ {offset env'}, env.slotFor name = .ok (offset, env') →
      ((next offset).run env').outcome = .ok () ∧
        site.Performs env a ((next offset).run env').lines ((next offset).run env').diagnostics
          ((next offset).run env').env) :
    site.Accounts env a ((site.slotFor name >>= next).run env) := by
  cases given : env.slotFor name with
  | error fault =>
    rw [run_bind_of_error (by rw [run_slotFor_of_error given]), run_slotFor_of_error given]
    exact .inr ⟨⟨_, rfl⟩, rfl, rfl⟩
  | ok slot =>
    rw [run_bind_of_ok (by rw [run_slotFor_of_ok given]), run_slotFor_of_ok given]
    exact .inl (goesOn given)

theorem accounts_spill (iv : Interval) :
    site.Accounts env (.spill iv) ((site.spill iv).run env) := by
  rw [spill]
  split
  · exact .inl ⟨rfl, .skip rfl⟩
  · refine accounts_slotFor_bind fun given => ?_
    split
    · refine ⟨rfl, .spill iv given ?_⟩
      simp [diagnose, line, bind, run]
    · exact ⟨rfl, .spill iv given (by simp [line, bind, run, pure])⟩

theorem accounts_writeBack (iv : Interval) :
    site.Accounts env (.writeBack iv) ((site.writeBack iv).run env) := by
  rw [writeBack]
  split
  · exact .inl ⟨rfl, .skip rfl⟩
  · exact accounts_slotFor_bind fun given => ⟨rfl, .writeBack iv given⟩

theorem accounts_reload (iv : Interval) :
    site.Accounts env (.reload iv) ((site.reload iv).run env) := by
  rw [reload]
  split
  · exact .inl ⟨rfl, .skip rfl⟩
  · rw [run_getEnv_bind, Frame.resolve]
    cases hasSlot : env.frame.offset? iv.name with
    | none =>
      dsimp only
      rw [run_unresolved_eq]
      exact .inl ⟨rfl, .reloadNothing iv hasSlot⟩
    | some offset => exact .inl ⟨rfl, .reload iv hasSlot⟩

theorem accounts_loadLocal (rd : String) {name : String} (isLocal : env.isGlobal name = false) :
    site.Accounts env (.read rd (.name name)) ((site.loadLocal rd name).run env) := by
  left
  rw [loadLocal]
  cases found : site.table.lookup name with
  | none =>
    dsimp only
    rw [run_unresolved_instr]
    exact ⟨rfl, .readUnknown rd isLocal found⟩
  | some iv =>
    dsimp only
    split
    · exact ⟨rfl, .readRegister rd isLocal found⟩
    · rw [run_getEnv_bind, Frame.resolve]
      cases hasSlot : env.frame.offset? name with
      | none =>
        dsimp only
        rw [run_unresolved_instr]
        exact ⟨rfl, .readNothing rd isLocal found hasSlot⟩
      | some offset => exact ⟨rfl, .readSlot rd isLocal found hasSlot⟩

theorem accounts_loadOperand (rd : String) (operand : Operand) :
    site.Accounts env (.read rd operand) ((site.loadOperand rd operand).run env) := by
  cases operand with
  | const value => exact .inl ⟨rfl, .readConst rd value⟩
  | hole => exact .inl ⟨rfl, .skip rfl⟩
  | name name =>
    rw [loadOperand, run_getEnv_bind]
    cases isGlobal : env.isGlobal name with
    | true => exact .inl ⟨rfl, .readGlobal rd isGlobal⟩
    | false => exact accounts_loadLocal rd isGlobal

theorem accounts_storeLocal {a : Action} {name : String} (puts : a.Puts env name) :
    site.Accounts env a ((site.storeLocal name site.config.scratch.1).run env) := by
  rw [storeLocal]
  cases found : site.table.lookup name with
  | none =>
    dsimp only
    rw [run_unresolved_eq]
    exact .inl ⟨rfl, .putUnknown puts found⟩
  | some iv =>
    dsimp only
    split
    · exact .inl ⟨rfl, .putRegister puts found⟩
    · exact accounts_slotFor_bind fun given => ⟨rfl, .putSlot puts found given⟩

end Site

/-- **What a task does.** -/
theorem Task.accounts (t : Task) (env : Env) :
    t.site.Accounts env t.action (t.emit.run env) := by
  obtain ⟨site, a⟩ := t
  cases a with
  | spill iv => exact Site.accounts_spill iv
  | reload iv => exact Site.accounts_reload iv
  | writeBack iv => exact Site.accounts_writeBack iv
  | read rd operand => exact Site.accounts_loadOperand rd operand
  | compute op => exact .inl ⟨rfl, .compute op⟩
  | write name => exact Site.accounts_storeLocal (.write name)
  | assign name =>
    rw [Task.emit, run_getEnv_bind]
    cases isGlobal : env.isGlobal name with
    | true => exact .inl ⟨rfl, .assignGlobal name isGlobal⟩
    | false => exact Site.accounts_storeLocal (.assign name isGlobal)
  | declare name => exact .inl ⟨rfl, .declare name⟩

theorem Task.performs {t : Task} {env : Env} (succeeds : (t.emit.run env).outcome = .ok ()) :
    t.site.Performs env t.action (t.emit.run env).lines (t.emit.run env).diagnostics
      (t.emit.run env).env := by
  rcases t.accounts env with ⟨-, performs⟩ | ⟨⟨fault, fails⟩, -⟩
  · exact performs
  · cases fails.symm.trans succeeds

/-- The registers that a task can write. -/
def Task.targets (t : Task) : List String :=
  match t.action with
  | .reload iv => [iv.register]
  | .read rd _ => [rd]
  | .compute _ => [t.site.config.scratch.1]
  | .write name => (t.site.table.lookup name).toList.map Interval.register
  | .assign name =>
    t.site.config.scratch.2 :: (t.site.table.lookup name).toList.map Interval.register
  | .spill _ | .writeBack _ | .declare _ => []

/-- A target is a scratch register, the register of an interval, or that of a returned
value. -/
theorem Site.target_of_mem_actions {site : Site} {i : Instruction} {a : Action} {register : String}
    (isAction : a ∈ site.actions i) (isTarget : register ∈ Task.targets ⟨site, a⟩) :
    register = site.config.scratch.1 ∨ register = site.config.scratch.2 ∨
      (∃ iv ∈ site.table.intervals, register = iv.register) ∨
      (register = site.config.returnRegister ∧ i.opcode = .ret ∧ i.args ≠ []) := by
  have ofLookup {name : String}
      (held : register ∈ (site.table.lookup name).toList.map Interval.register) :
      ∃ iv ∈ site.table.intervals, register = iv.register := by
    obtain ⟨iv, found, rfl⟩ := List.mem_map.mp held
    exact ⟨iv, Alloc.Table.mem_of_lookup (Option.mem_toList.mp found), rfl⟩
  rcases Site.mem_actions isAction with ⟨iv, inTable, rfl | rfl⟩ | isOwn
  · cases isTarget
  · obtain rfl := List.mem_singleton.mp isTarget
    exact .inr (.inr (.inl ⟨iv, inTable, rfl⟩))
  · cases (Site.selects_of_mem_selection isOwn).2 with
    | read isArg target =>
      obtain rfl := List.mem_singleton.mp isTarget
      rcases target with first | second | ⟨isReturn, isRet⟩
      · exact .inl first
      · exact .inr (.inl second)
      · exact .inr (.inr (.inr ⟨isReturn, isRet, List.ne_nil_of_mem isArg⟩))
    | compute => exact .inl (List.mem_singleton.mp isTarget)
    | write => exact .inr (.inr (.inl (ofLookup isTarget)))
    | assign =>
      rcases List.mem_cons.mp isTarget with second | held
      · exact .inr (.inl second)
      · exact .inr (.inr (.inl (ofLookup held)))
    | declare => cases isTarget

@[simp]
theorem Site.stmt_slotLine (site : Site) (i : Instr) (verb : String) (iv : Interval) :
    (site.slotLine i verb iv).stmt = .instr i := rfl

/-- A task writes no register but its targets. -/
theorem Site.Performs.mem_targets {site : Site} {env env' : Env} {a : Action} {lines : List Line}
    {ds : Diagnostics} (performs : site.Performs env a lines ds env') {l : Line}
    (inLines : l ∈ lines) {register : String} (writes : l.Writes register) :
    register ∈ Task.targets ⟨site, a⟩ := by
  cases performs with
  | skip | reloadNothing | putUnknown | declare => cases inLines
  | spill | writeBack | putSlot =>
    obtain rfl := List.mem_singleton.mp inLines
    cases (Line.writes_iff rfl).mp writes
  | reload | readConst | readRegister | readSlot | readNothing | readUnknown | compute =>
    obtain rfl := List.mem_singleton.mp inLines
    cases (Line.writes_iff rfl).mp writes
    exact List.mem_singleton_self _
  | readGlobal =>
    rw [List.mem_pair] at inLines
    obtain rfl | rfl := inLines
    all_goals
      cases (Line.writes_iff rfl).mp writes
      exact List.mem_singleton_self _
  | putRegister puts found =>
    obtain rfl := List.mem_singleton.mp inLines
    cases (Line.writes_iff rfl).mp writes
    cases puts with
    | write | assign => simp [Task.targets, found]
  | assignGlobal =>
    rw [List.mem_pair] at inLines
    obtain rfl | rfl := inLines
    · cases (Line.writes_iff rfl).mp writes
      exact List.mem_cons_self
    · cases (Line.writes_iff rfl).mp writes

end RiscBackend.Lower
