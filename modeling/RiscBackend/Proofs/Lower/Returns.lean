/-
# Returns before the end of a function

The code of a return moves the returned value into the register for it, but it does not
leave the function: what stands after the return is executed too. Up to the return the
code follows the interpreter, so there the register and the globals are as the function
should leave them. They stay so if what follows neither returns a value nor stores to a
global, and has no values of its own in that register; in particular if it computes
nothing at all.

The last theorem shows that the code after a return can change both.
-/

import RiscBackend.Proofs.Lower.Cut
import RiscBackend.Proofs.Lower.Slots
import RiscBackend.Proofs.Qbe.Meaning

namespace RiscBackend

open IR (Operand Instruction Block Func Outcome Progress Store)
open Alloc (Interval declaredBy crossing)
open Asm (Line Instr Machine Value)

/-- After some code, more code neither returns a value nor stores to a global. -/
structure IR.Module.Silent (source : IR.Module) (before after : List Instruction) : Prop where
  returns : ∀ i ∈ after, i.opcode = .ret → i.args = []
  stores : ∀ done i rest value target, after = done ++ i :: rest → i.opcode = .store →
    i.args = [value, .name target] → (source.findGlobal? target).isSome →
    ∃ j ∈ before ++ done, j.opcode = .alloca ∧ j.result = some target

theorem IR.Module.Silent.of_append {source : IR.Module} {before first second : List Instruction}
    (silent : source.Silent before (first ++ second)) :
    source.Silent before first ∧ source.Silent (before ++ first) second := by
  constructor
  · refine ⟨fun i isMember => silent.returns i (List.mem_append_left _ isMember), ?_⟩
    intro done i rest value target first_eq
    exact silent.stores done i (rest ++ second) value target (by simp [first_eq])
  · refine ⟨fun i isMember => silent.returns i (List.mem_append_right _ isMember), ?_⟩
    intro done i rest value target second_eq isStore args_eq isGlobal
    rw [List.append_assoc]
    exact silent.stores (first ++ done) i rest value target (by simp [second_eq]) isStore args_eq
      isGlobal

/-- An instruction for which nothing is computed. -/
def IR.Instruction.Idle (i : Instruction) : Prop :=
  i.opcode = .other ∨ i.opcode = .alloca ∨ i.opcode = .ret ∧ i.args = []

/-- An idle instruction reads nothing. -/
theorem IR.Instruction.Idle.not_readsFirst {i : Instruction} (idle : i.Idle)
    (wellFormed : i.WellFormed) (lowered : i.opcode ≠ .other) (name : String) :
    ¬ Alloc.ReadsFirst i name := by
  intro readsFirst
  have reads := readsFirst.reads
  cases wellFormed with
  | ret | alloca => cases reads
  | other => exact lowered rfl
  | _ => simp [Idle] at idle

namespace Asm

/-- A line that leaves a register and the data section alone. -/
structure Line.Spares (stack register : String) (l : Line) : Prop where
  not_stack : ¬ l.Writes stack
  not_register : ¬ l.Writes register
  on_stack : ∀ base offset, l.SavesAt base offset → base = stack

/-- A line that at most saves a value on the stack. -/
def Line.Saving (stack : String) (l : Line) : Prop :=
  (∃ name, l.stmt = .label name) ∨ ∃ offset, l.SavesAt stack offset

namespace Machine

variable {m m' : Machine} {stack register : String} {top : Int} {lines : List Line}

/-- Lines that leave a register and the data section alone do so in a row. -/
theorem spared_of_executeAll? (spares : ∀ l ∈ lines, l.Spares stack register)
    (stack_eq : m.registers stack = .stack top) (executed : m.executeAll? lines = some m') :
    m'.registers stack = .stack top ∧ m'.registers register = m.registers register ∧
      m'.data = m.data := by
  refine ⟨?_, ?_, ?_⟩
  · rw [registers_of_executeAll? (fun l inLines => (spares l inLines).not_stack) executed, stack_eq]
  · exact registers_of_executeAll? (fun l inLines => (spares l inLines).not_register) executed
  · exact data_of_executeAll? (fun l inLines => (spares l inLines).not_stack)
      (fun l inLines => (spares l inLines).on_stack) stack_eq executed

/-- Saving values on the stack always succeeds and changes nothing else. -/
theorem executeAll?_of_saving (saving : ∀ l ∈ lines, l.Saving stack)
    (stack_eq : m.registers stack = .stack top) :
    ∃ m', m.executeAll? lines = some m' ∧ m'.registers = m.registers ∧ m'.data = m.data := by
  induction lines generalizing m with
  | nil => exact ⟨m, rfl, rfl, rfl⟩
  | cons l rest ih =>
    rw [List.forall_mem_cons] at saving
    rw [executeAll?]
    rcases saving.1 with ⟨name, isLabel⟩ | ⟨offset, rs, isSave⟩
    · rw [isLabel]
      exact ih saving.2 stack_eq
    · rw [isSave]
      dsimp only
      rw [execute?, stack_eq]
      exact ih saving.2 stack_eq

end Machine

end Asm

namespace Lower

open Emit

variable {config : Config} {source : IR.Module} {f : Func} {b : Block} {site : Site}
  {function : String} {names : List String} {start env : Env}

/-- What a task saves goes to the stack, but for what is stored to a global. -/
theorem Site.Performs.savesAt {env' : Env} {a : Action} {lines : List Line} {ds : Diagnostics}
    (performs : site.Performs env a lines ds env') {l : Line} (inLines : l ∈ lines)
    {base : String} {offset : Int64} (saves : l.SavesAt base offset) :
    base = site.config.stackRegister ∨ ∃ name, a = .assign name ∧ env.isGlobal name = true := by
  cases performs with
  | skip | reloadNothing | putUnknown | declare => cases inLines
  | spill | writeBack | putSlot =>
    obtain rfl := List.mem_singleton.mp inLines
    obtain ⟨rs, isSave⟩ := saves
    cases isSave
    exact .inl rfl
  | assignGlobal name isGlobal => exact .inr ⟨name, rfl, isGlobal⟩
  | readGlobal =>
    rw [List.mem_pair] at inLines
    obtain rfl | rfl := inLines
    all_goals
      obtain ⟨rs, isSave⟩ := saves
      cases isSave
  | _ =>
    obtain rfl := List.mem_singleton.mp inLines
    obtain ⟨rs, isSave⟩ := saves
    cases isSave

/-- A line that saves on the stack leaves all registers and the data section alone. -/
theorem spares_of_savesAt {l : Line} {stack : String} {offset : Int64} (register : String)
    (saves : l.SavesAt stack offset) : l.Spares stack register := by
  obtain ⟨rs, isSave⟩ := saves
  refine ⟨?_, ?_, ?_⟩
  · rw [Line.writes_iff isSave]
    exact nofun
  · rw [Line.writes_iff isSave]
    exact nofun
  · rintro base offset ⟨rs', isSave'⟩
    cases isSave.symm.trans isSave'
    rfl

theorem Site.Performs.saves {env' : Env} {a : Action} {lines : List Line} {ds : Diagnostics}
    {iv : Interval} (performs : site.Performs env a lines ds env')
    (moves : a = .spill iv ∨ a = .writeBack iv) {l : Line} (inLines : l ∈ lines) :
    ∃ offset, l.SavesAt site.config.stackRegister offset := by
  rcases moves with rfl | rfl
  · cases performs with
    | skip => cases inLines
    | spill =>
      obtain rfl := List.mem_singleton.mp inLines
      exact ⟨_, _, rfl⟩
    | putRegister puts | putSlot puts | putUnknown puts => cases puts
  · cases performs with
    | skip => cases inLines
    | writeBack =>
      obtain rfl := List.mem_singleton.mp inLines
      exact ⟨_, _, rfl⟩
    | putRegister puts | putSlot puts | putUnknown puts => cases puts

/-- The tasks at the end of a block save values and declare nothing. -/
theorem Site.mem_closing {t : Task} (isClosing : t ∈ site.closing b) :
    t.site.config = site.config ∧ ∃ iv, t.action = .writeBack iv := by
  rw [Site.closing] at isClosing
  split at isClosing
  · obtain ⟨iv, -, rfl⟩ := List.mem_map.mp isClosing
    exact ⟨rfl, iv, rfl⟩
  · cases isClosing

/-- At the end of a block everything is hidden that was declared up to there. -/
theorem hidden_of_restTasks {done rest : List Instruction}
    (succeeds : ((forEach Task.emit (site.restTasks b done rest)).run env).outcome = .ok ()) :
    ((forEach Task.emit (site.restTasks b done rest)).run env).env.globals = env.globals ∧
      ((forEach Task.emit (site.restTasks b done rest)).run env).env.hidden =
        declaredBy env.hidden rest := by
  rw [Site.restTasks, forEach_append] at succeeds ⊢
  obtain ⟨_, passed, succeeds⟩ := outcome_bind_eq_ok succeeds
  obtain ⟨globals_eq, hidden_eq⟩ := hidden_of_tasks passed
  have quiet : ∀ t ∈ site.closing b, t.action.hides = [] := by
    intro t isClosing
    obtain ⟨-, iv, action_eq⟩ := Site.mem_closing isClosing
    rw [action_eq]
    rfl
  obtain ⟨globals_eq', hidden_eq'⟩ := (hidesMore_of_quiet _ quiet).2 succeeds
  rw [run_bind_of_ok passed]
  exact ⟨globals_eq'.trans globals_eq, hidden_eq'.trans hidden_eq⟩

/-- A block that is lowered is its label and all of its tasks. -/
theorem exists_run_lowerBlock_eq (wellFormed : ∀ i ∈ b.body, i.WellFormed)
    (succeeds : ((lowerBlock config function names b).run env).outcome = .ok ()) :
    ∃ site, Site.ofBlock config function names env b = .ok site ∧
      (lowerBlock config function names b).run env =
        { (forEach Task.emit (site.restTasks b [] b.body)).run env with
          lines := { stmt := .label b.label } ::
            ((forEach Task.emit (site.restTasks b [] b.body)).run env).lines } := by
  cases entered : Site.ofBlock config function names env b with
  | error fault =>
    rw [run_lowerBlock_of_error wellFormed entered] at succeeds
    cases succeeds
  | ok site =>
    have tasks_eq : site.blockTasks b = site.restTasks b [] b.body := by
      obtain ⟨_, _, -, rfl⟩ := Site.ofBlock_eq_ok entered
      rfl
    exact ⟨site, rfl, by rw [run_lowerBlock_of_ok wellFormed entered, tasks_eq]⟩

/-- After blocks everything is hidden that they declare. -/
theorem hidden_of_blocks {blocks : List Block}
    (wellFormed : ∀ b ∈ blocks, ∀ i ∈ b.body, i.WellFormed)
    (succeeds : ((forEach (lowerBlock config function names) blocks).run env).outcome = .ok ()) :
    ((forEach (lowerBlock config function names) blocks).run env).env.globals = env.globals ∧
      ((forEach (lowerBlock config function names) blocks).run env).env.hidden =
        declaredBy env.hidden (blocks.flatMap Block.body) := by
  induction blocks generalizing env with
  | nil => exact ⟨rfl, rfl⟩
  | cons b rest ih =>
    rw [List.forall_mem_cons] at wellFormed
    rw [forEach] at succeeds ⊢
    obtain ⟨_, here, later⟩ := outcome_bind_eq_ok succeeds
    obtain ⟨globals_eq, hidden_eq⟩ := ih wellFormed.2 later
    obtain ⟨site, -, run_eq⟩ := exists_run_lowerBlock_eq wellFormed.1 here
    rw [run_bind_of_ok here, List.flatMap_cons, Alloc.declaredBy_append]
    dsimp only
    rw [globals_eq, hidden_eq]
    rw [run_eq] at here ⊢
    obtain ⟨globals_eq', hidden_eq'⟩ := hidden_of_restTasks here
    exact ⟨globals_eq', by rw [hidden_eq']⟩

/-- **The rest of a block that says nothing.** -/
theorem spares_of_restTasks {before done rest : List Instruction} (chosen : config.Chosen)
    (outside : config.returnRegister ∉ config.registers)
    (entered : Site.ofBlock config function names start b = .ok site)
    (globals_eq : env.globals = source.globals) (hidden_eq : env.hidden = declaredBy [] before)
    (silent : source.Silent before rest)
    (succeeds : ((forEach Task.emit (site.restTasks b done rest)).run env).outcome = .ok ()) :
    ∀ l ∈ ((forEach Task.emit (site.restTasks b done rest)).run env).lines,
      l.Spares config.stackRegister config.returnRegister := by
  have usable := chosen.usable
  have config_eq : site.config = config := by
    obtain ⟨-, -, -, rfl⟩ := Site.ofBlock_eq_ok entered
    rfl
  rw [(lines_diagnostics_forEach _ _ _).1]
  intro l inLines
  obtain ⟨v, visited, inTask⟩ := List.mem_flatMap.mp inLines
  have performs := Task.performs (ok_of_mem_visits succeeds visited)
  rcases mem_visits_append visited with inBody | ⟨-, atEnd⟩
  · obtain ⟨done', i, rest', rest_eq, site_eq, isAction, globals_eq', hidden_eq'⟩ :=
      hidden_of_mem_visits inBody
    have isLater : i ∈ rest := by simp [rest_eq]
    have task_config : v.1.site.config = config := by rw [site_eq, config_eq]
    refine ⟨fun writes => ?_, fun writes => ?_, fun base offset saves => ?_⟩
    · refine Site.not_mem_targets usable entered usable.stack_ne_first usable.stack_ne_second
        usable.stack_not_mem site_eq isAction ?_ (performs.mem_targets inTask writes)
      exact fun isReturn => absurd isReturn usable.stack_ne_return
    · refine Site.not_mem_targets usable entered chosen.return_ne_first chosen.return_ne_second
        outside site_eq isAction ?_ (performs.mem_targets inTask writes)
      exact fun _ => silent.returns i isLater
    · rcases performs.savesAt inTask saves with onStack | ⟨name, action_eq, isGlobal⟩
      · rw [onStack, task_config]
      · exfalso
        rw [action_eq] at isAction
        rcases Site.mem_actions isAction with ⟨iv, -, isMove | isMove⟩ | isOwn
        · cases isMove
        · cases isMove
        · cases (Site.selects_of_mem_selection isOwn).2 with
          | assign isStore args_eq =>
            rw [Env.isGlobal, Bool.and_eq_true, Bool.not_eq_true', Env.isHidden, hidden_eq',
              hidden_eq, ← Alloc.declaredBy_append,
              defines_eq_isSome (globals_eq'.trans globals_eq)] at isGlobal
            obtain ⟨isDefined, notHidden⟩ := isGlobal
            have declared :=
              silent.stores done' i rest' _ name rest_eq isStore args_eq isDefined
            have hidden : name ∈ declaredBy [] (before ++ done') :=
              Alloc.mem_declaredBy.mpr (.inr declared)
            simp [hidden] at notHidden
  · obtain ⟨closing_config, iv, action_eq⟩ := Site.mem_closing (mem_of_mem_visits atEnd)
    obtain ⟨offset, saves⟩ := performs.saves (.inr action_eq) inTask
    rw [closing_config, config_eq] at saves
    exact spares_of_savesAt _ saves

/-- **Blocks that say nothing.** -/
theorem spares_of_blocks (chosen : config.Chosen)
    (outside : config.returnRegister ∉ config.registers) {blocks : List Block}
    {before : List Instruction} (wellFormed : ∀ b ∈ blocks, ∀ i ∈ b.body, i.WellFormed)
    (globals_eq : env.globals = source.globals) (hidden_eq : env.hidden = declaredBy [] before)
    (silent : source.Silent before (blocks.flatMap Block.body))
    (succeeds : ((forEach (lowerBlock config function names) blocks).run env).outcome = .ok ()) :
    ∀ l ∈ ((forEach (lowerBlock config function names) blocks).run env).lines,
      l.Spares config.stackRegister config.returnRegister := by
  rw [(lines_diagnostics_forEach _ _ _).1]
  intro l inLines
  obtain ⟨⟨b, start⟩, visited, inBlock⟩ := List.mem_flatMap.mp inLines
  have here := ok_of_mem_visits succeeds visited
  obtain ⟨earlier, later, rfl, passed, rfl⟩ := exists_of_mem_visits visited
  rw [List.forall_mem_append, List.forall_mem_cons] at wellFormed
  obtain ⟨site, entered, run_eq⟩ := exists_run_lowerBlock_eq wellFormed.2.1 here
  rw [run_eq] at here inBlock
  rcases List.mem_cons.mp inBlock with rfl | inTasks
  · refine ⟨?_, ?_, ?_⟩
    · rintro ⟨i, ⟨⟩, -⟩
    · rintro ⟨i, ⟨⟩, -⟩
    · rintro base offset ⟨rs, ⟨⟩⟩
  · obtain ⟨globals_eq', hidden_eq'⟩ := hidden_of_blocks wellFormed.1 passed
    rw [List.flatMap_append, List.flatMap_cons] at silent
    have silentHere := silent.of_append.2.of_append.1
    refine spares_of_restTasks chosen outside entered (globals_eq'.trans globals_eq) ?_ silentHere
      here l inTasks
    rw [hidden_eq', hidden_eq, Alloc.declaredBy_append]

/-- Nothing is fetched for an idle instruction. -/
theorem Planned.not_liveIn_of_idle {registers crossing : List String} {isGlobal : String → Bool}
    {t : Alloc.Table} {done rest : List Instruction} {i : Instruction} {iv : Interval}
    (planned : Planned registers isGlobal crossing b t) (body_eq : b.body = done ++ i :: rest)
    (wellFormed : i.WellFormed) (idle : i.Idle) (inTable : iv ∈ t.intervals)
    (start_eq : iv.start = done.length) : iv.liveIn = false := by
  by_contra liveIn
  rw [Bool.not_eq_false] at liveIn
  obtain ⟨done', i', rest', body_eq', start_eq', isFirst⟩ := planned.opens iv inTable
  rw [liveIn, if_pos rfl] at isFirst
  obtain ⟨lowered, -, readsFirst⟩ := Alloc.find?_touches_eq_read.mp isFirst
  have length_eq : done.length = done'.length := by omega
  obtain ⟨-, same⟩ := List.append_inj (body_eq.symm.trans body_eq') length_eq
  obtain ⟨rfl, -⟩ := List.cons.inj same
  exact idle.not_readsFirst wellFormed lowered _ readsFirst

theorem lines_reload_eq_nil {iv : Interval}
    (stays : iv.start = site.position → iv.liveIn = false) :
    ((site.reload iv).run env).lines = [] := by
  rw [Site.reload, if_pos]
  · rfl
  · by_cases isHere : iv.start = site.position
    · simp [stays isHere]
    · simp [isHere]

/-- The own actions of an idle instruction emit nothing. -/
theorem lines_eq_nil_of_idle {i : Instruction} {a : Action} (wellFormed : i.WellFormed)
    (idle : i.Idle) (isOwn : a ∈ site.selection i) :
    ((Task.emit ⟨site, a⟩).run env).lines = [] := by
  cases wellFormed with
  | ret | other => cases isOwn
  | alloca name =>
    obtain rfl := List.mem_singleton.mp isOwn
    rfl
  | _ => simp [IR.Instruction.Idle] at idle

/-- **The rest of a block that computes nothing.** Values are saved, for evictions and
for the blocks that follow. -/
theorem saving_of_restTasks {done rest : List Instruction} (usable : config.Usable)
    (short : (b.body.length : Int) < Alloc.never) (wellFormed : ∀ i ∈ b.body, i.WellFormed)
    (entered : Site.ofBlock config function names start b = .ok site)
    (body_eq : b.body = done ++ rest) (idle : ∀ i ∈ rest, i.Idle)
    (succeeds : ((forEach Task.emit (site.restTasks b done rest)).run env).outcome = .ok ()) :
    ∀ l ∈ ((forEach Task.emit (site.restTasks b done rest)).run env).lines,
      l.Saving config.stackRegister := by
  obtain ⟨intervals, pool, allocated, site_is⟩ := Site.ofBlock_eq_ok entered
  have planned := planned_of_allocate usable.nonempty usable.nodup short allocated
  have config_eq : site.config = config := by rw [site_is]
  rw [(lines_diagnostics_forEach _ _ _).1]
  intro l inLines
  obtain ⟨v, visited, inTask⟩ := List.mem_flatMap.mp inLines
  have performs := Task.performs (ok_of_mem_visits succeeds visited)
  rcases List.mem_append.mp (mem_of_mem_visits visited) with inBody | isClosing
  · obtain ⟨done', i, rest', rest_eq, site_eq, isAction⟩ := Site.mem_tasks.mp inBody
    have task_config : v.1.site.config = config := by rw [site_eq, config_eq]
    have body_eq' : b.body = (done ++ done') ++ i :: rest' := by
      rw [body_eq, rest_eq, List.append_assoc]
    have isIdle : i.Idle := idle i (by simp [rest_eq])
    have hereFits : i.WellFormed := wellFormed i (by simp [body_eq'])
    rcases Site.mem_actions isAction with ⟨iv, inTable, isSpill | isReload⟩ | isOwn
    · obtain ⟨offset, saves⟩ := performs.saves (.inl isSpill) inTask
      exact .inr ⟨offset, task_config ▸ saves⟩
    · rw [Task.emit, isReload, lines_reload_eq_nil] at inTask
      · cases inTask
      · intro isHere
        rw [site_eq, site_is] at inTable
        refine planned.not_liveIn_of_idle body_eq' hereFits isIdle inTable ?_
        rw [isHere, site_eq, List.length_append]
    · rw [lines_eq_nil_of_idle hereFits isIdle isOwn] at inTask
      cases inTask
  · obtain ⟨closing_config, iv, action_eq⟩ := Site.mem_closing isClosing
    obtain ⟨offset, saves⟩ := performs.saves (.inr action_eq) inTask
    rw [closing_config, config_eq] at saves
    exact .inr ⟨offset, saves⟩

/-- **Blocks that compute nothing.** -/
theorem saving_of_blocks (usable : config.Usable) {blocks : List Block}
    (short : ∀ b ∈ blocks, (b.body.length : Int) < Alloc.never)
    (wellFormed : ∀ b ∈ blocks, ∀ i ∈ b.body, i.WellFormed)
    (idle : ∀ i ∈ blocks.flatMap Block.body, i.Idle)
    (succeeds : ((forEach (lowerBlock config function names) blocks).run env).outcome = .ok ()) :
    ∀ l ∈ ((forEach (lowerBlock config function names) blocks).run env).lines,
      l.Saving config.stackRegister := by
  rw [(lines_diagnostics_forEach _ _ _).1]
  intro l inLines
  obtain ⟨⟨b, start⟩, visited, inBlock⟩ := List.mem_flatMap.mp inLines
  have isBlock : b ∈ blocks := mem_of_mem_visits visited
  have here := ok_of_mem_visits succeeds visited
  obtain ⟨site, entered, run_eq⟩ := exists_run_lowerBlock_eq (wellFormed b isBlock) here
  rw [run_eq] at here inBlock
  rcases List.mem_cons.mp inBlock with rfl | inTasks
  · exact .inl ⟨_, rfl⟩
  · refine saving_of_restTasks usable (short b isBlock) (wellFormed b isBlock) entered rfl ?_ here
      l inTasks
    exact fun i inBody => idle i (List.mem_flatMap.mpr ⟨b, isBlock, inBody⟩)

/-- The end of a function leaves the returned value and the data section alone. -/
theorem runToExit?_epilogue {m : Machine} {base : Int} (usable : config.Usable)
    (stack_eq : m.registers config.stackRegister = .stack base) :
    ∃ final, m.runToExit? (epilogue config) = some final ∧
      final.registers config.returnRegister = m.registers config.returnRegister ∧
      final.data = m.data := by
  refine ⟨(m.set config.stackRegister (.stack (base + config.frameSize.toInt))).set
    config.syscallRegister (.word config.exitSyscall), ?_, ?_, rfl⟩
  · simp [epilogue, Machine.runToExit?, Machine.execute?, stack_eq]
  · rw [Machine.set_registers_of_ne _ _ usable.syscall_ne_return.symm,
      Machine.set_registers_of_ne _ _ usable.stack_ne_return.symm]

namespace Cut.Emitted

variable {cut : f.Cut}

/-- What names mean after the instruction. -/
theorem hidden_reached (emitted : Emitted config source cut site)
    (wellFormed : ∀ b ∈ f.blocks, ∀ i ∈ b.body, i.WellFormed) :
    (reached config source cut site).env.globals = source.globals ∧
      (reached config source cut site).env.hidden = declaredBy [] (cut.before ++ [cut.here]) := by
  have wellFormedEarlier : ∀ b ∈ cut.earlier, ∀ i ∈ b.body, i.WellFormed := fun b isEarlier =>
    wellFormed b (by simp [cut.blocks_eq, isEarlier])
  obtain ⟨globals_eq, hidden_eq⟩ := hidden_of_blocks wellFormedEarlier emitted.entry_ok
  obtain ⟨globals_eq', hidden_eq'⟩ := hidden_of_tasks emitted.reached_ok
  constructor
  · exact globals_eq'.trans globals_eq
  · rw [Func.Cut.before, List.append_assoc, Alloc.declaredBy_append]
    exact hidden_eq'.trans (congrArg (declaredBy · _) hidden_eq)

/-- If nothing is said after the instruction, its value and the globals stay. -/
theorem spares_late (emitted : Emitted config source cut site) (chosen : config.Chosen)
    (outside : config.returnRegister ∉ config.registers)
    (wellFormed : ∀ b ∈ f.blocks, ∀ i ∈ b.body, i.WellFormed)
    (silent : source.Silent (cut.before ++ [cut.here]) cut.after) :
    ∀ l ∈ (finished config source cut site).lines ++ (followed config source cut site).lines,
      l.Spares config.stackRegister config.returnRegister := by
  have wellFormedLater : ∀ b ∈ cut.later, ∀ i ∈ b.body, i.WellFormed := fun b isLater =>
    wellFormed b (by simp [cut.blocks_eq, isLater])
  obtain ⟨globals_eq, hidden_eq⟩ := emitted.hidden_reached wellFormed
  obtain ⟨globals_eq', hidden_eq'⟩ := hidden_of_restTasks emitted.finished_ok
  obtain ⟨silentHere, silentLater⟩ := silent.of_append
  rw [List.forall_mem_append]
  constructor
  · exact spares_of_restTasks chosen outside emitted.entered globals_eq hidden_eq silentHere
      emitted.finished_ok
  · refine spares_of_blocks chosen outside wellFormedLater (globals_eq'.trans globals_eq) ?_
      silentLater emitted.followed_ok
    rw [Alloc.declaredBy_append, ← hidden_eq]
    exact hidden_eq'

/-- If nothing is computed after the instruction, values are saved at most. -/
theorem saving_late (emitted : Emitted config source cut site) (usable : config.Usable)
    (traceable : f.Traceable source) (wellFormed : ∀ b ∈ f.blocks, ∀ i ∈ b.body, i.WellFormed)
    (idle : ∀ i ∈ cut.after, i.Idle) :
    ∀ l ∈ (finished config source cut site).lines ++ (followed config source cut site).lines,
      l.Saving config.stackRegister := by
  have isBlock : cut.block ∈ f.blocks := by simp [cut.blocks_eq]
  have isLater {b : Block} (inLater : b ∈ cut.later) : b ∈ f.blocks := by
    simp [cut.blocks_eq, inLater]
  rw [Func.Cut.after, List.forall_mem_append] at idle
  rw [List.forall_mem_append]
  constructor
  · exact saving_of_restTasks usable (traceable.short _ isBlock) (wellFormed _ isBlock)
      emitted.entered (by rw [cut.body_eq, List.append_cons]) idle.1 emitted.finished_ok
  · exact saving_of_blocks usable (fun b inLater => traceable.short b (isLater inLater))
      (fun b inLater => wellFormed b (isLater inLater)) idle.2 emitted.followed_ok

theorem runToExit?_late (emitted : Emitted config source cut site) (m : Machine) :
    m.runToExit? (late config source cut) =
      (m.executeAll? ((finished config source cut site).lines ++
        (followed config source cut site).lines)).bind (·.runToExit? (epilogue config)) := by
  rw [emitted.late_eq]
  apply Machine.runToExit?_append_eq_bind
  intro l inLines
  have noExit := (confined_forEach (fun b => @confined_lowerBlock config f.name (crossing f) b)
    f.blocks (entryEnv config source)).1 l
  rw [← blocksCode, emitted.lines_eq] at noExit
  apply noExit
  simp only [List.mem_append, List.mem_cons] at inLines ⊢
  exact .inr (.inr (.inr inLines))

end Cut.Emitted

/-- At the first return the machine shows the outcome. -/
theorem Reached.shows_return {cut : f.Cut} {base : Int} {places : String → Option Place}
    {progress : Progress} {m : Machine}
    (reached : Reached config source base places (cut.done ++ [cut.here]) progress env m)
    (wellFormed : ∀ i ∈ f.code, i.WellFormed) (isRet : cut.here.opcode = .ret)
    (isFirst : ∀ i ∈ cut.before, i.opcode ≠ .ret)
    (ran : source.runCode? none source.initialStore f.code = some progress) :
    (∀ g ∈ source.globals, m.data g.name = some (.word (progress.outcome.globals g.name))) ∧
      ∀ value, cut.here.args = [value] →
        m.registers config.returnRegister = .word progress.outcome.value := by
  cases progress with
  | running s =>
    have inCode : cut.here ∈ f.code := by simp [cut.code_eq]
    exact absurd isRet (IR.Module.ne_ret_of_runCode? wellFormed ran _ inCode)
  | returned word s =>
    obtain ⟨grounded, shown⟩ := reached
    constructor
    · intro g inModule
      apply grounded.data_eq
      rw [IR.Module.findGlobal?, List.find?_isSome]
      exact ⟨g, inModule, by simp⟩
    · intro value args_eq
      apply shown.resolve_right
      rw [List.mem_append, List.mem_singleton]
      rintro (isDone | isHere)
      · exact isFirst _ (List.mem_append_right _ isDone) rfl
      · rw [← isHere] at args_eq
        cases args_eq

/-- **The first return.** Let the pool of registers and the size of the frames be chosen in
any way, let a module be lowered, and let a function that returns have an outcome. Its
routine is the code up to and with the first return, and the code of what stands after it.
When the first part has been executed, the globals and the register for the returned value
are as in the outcome; and then the second part is executed. If what stands after the
return neither returns a value nor stores to a global, and the register is not one of the
pool, the routine cannot exit with another value or other globals. If nothing at all is
computed after the return, the routine exits with this value and these globals. -/
theorem first_return_stands_if_nothing_follows {program : Asm.Program} {ds : Diagnostics}
    {k : Nat} {outcome : Outcome} {top : Int} {m : Machine} (chosen : config.Chosen)
    (lowered : lowerModule config source = (.ok program, ds))
    (isFunc : source.funcs[k]? = some f) (traceable : f.Traceable source)
    (returns : ∃ i ∈ f.code, i.opcode = .ret) (ran : source.run? none f = some outcome)
    (stack_eq : m.registers config.stackRegister = .stack top)
    (data_eq : ∀ g ∈ source.globals, m.data g.name = some (.word g.value)) :
    ∃ (cut : f.Cut) (mid : Machine),
      cut.here.opcode = .ret ∧ (∀ i ∈ cut.before, i.opcode ≠ .ret) ∧
      program.routines[k]? = some (Cut.early config source cut ++ Cut.late config source cut) ∧
      m.executeAll? (Cut.early config source cut) = some mid ∧
      m.runToExit? (Cut.early config source cut ++ Cut.late config source cut) =
        mid.runToExit? (Cut.late config source cut) ∧
      (∀ g ∈ source.globals, mid.data g.name = some (.word (outcome.globals g.name))) ∧
      (∀ value, cut.here.args = [value] →
        mid.registers config.returnRegister = .word outcome.value) ∧
      (config.returnRegister ∉ config.registers →
        source.Silent (cut.before ++ [cut.here]) cut.after →
        ∀ final, mid.runToExit? (Cut.late config source cut) = some final →
          final.registers config.returnRegister = mid.registers config.returnRegister ∧
            final.data = mid.data) ∧
      ((∀ i ∈ cut.after, i.Idle) →
        ∃ final, mid.runToExit? (Cut.late config source cut) = some final ∧
          final.registers config.returnRegister = mid.registers config.returnRegister ∧
            final.data = mid.data) := by
  have usable := chosen.usable
  have validates : config.feature .validate = true := by rw [chosen.switches.1]; rfl
  obtain ⟨valid, succeed, routines_eq, -⟩ := lowerModule_separates validates lowered
  have inModule := List.mem_of_getElem? isFunc
  have succeeds := succeed f inModule
  have inCode := valid.wellFormed f inModule
  have inBlocks := valid.wellFormed_body inModule
  obtain ⟨cut, isRet, isFirst⟩ := Func.Cut.exists_first_return returns
  obtain ⟨site, emitted⟩ : ∃ site, Cut.Emitted config source cut site :=
    Cut.exists_emitted inBlocks (funcCode_eq_blocksCode succeeds).1
  obtain ⟨progress, ranCode, rfl⟩ := Option.map_eq_some_iff.mp ran
  obtain ⟨mid, places, executed, reached⟩ :=
    emitted.executes_early usable traceable inCode isRet isFirst ranCode stack_eq data_eq
  obtain ⟨globals_eq, value_eq⟩ := reached.shows_return inCode isRet isFirst ranCode
  have midStack := reached.stack_eq
  refine ⟨cut, mid, isRet, isFirst, ?_, executed, Machine.runToExit?_append executed _, globals_eq,
    value_eq, ?_, ?_⟩
  · rw [routines_eq, List.getElem?_map, isFunc, Option.map_some, emitted.lines_funcCode succeeds]
  · intro outside silent final exited
    rw [emitted.runToExit?_late] at exited
    obtain ⟨last, executed', exited⟩ := Option.bind_eq_some_iff.mp exited
    obtain ⟨lastStack, value_eq, data_eq⟩ := Machine.spared_of_executeAll?
      (emitted.spares_late chosen outside inBlocks silent) midStack executed'
    obtain ⟨final', exited', value_eq', data_eq'⟩ := runToExit?_epilogue usable lastStack
    obtain rfl : final' = final := Option.some.inj (exited'.symm.trans exited)
    exact ⟨value_eq'.trans value_eq, data_eq'.trans data_eq⟩
  · intro idle
    obtain ⟨last, executed', registers_eq, data_eq⟩ := Machine.executeAll?_of_saving
      (emitted.saving_late usable traceable inBlocks idle) midStack
    obtain ⟨final, exited, value_eq', data_eq'⟩ :=
      runToExit?_epilogue usable ((congrFun registers_eq _).trans midStack)
    refine ⟨final, ?_, value_eq'.trans (congrFun registers_eq _), data_eq'.trans data_eq⟩
    rw [emitted.runToExit?_late, executed', Option.bind_some, exited]

/-- A function with declarations and an empty return after its first return. -/
def lingeringMain : Func where
  name := "main"
  blocks :=
    [{ label := "entry"
       body :=
        [.load "x" "g", .binary (.arith .add) "y" (.name "x") (.const 1), .store (.name "y") "g",
          .ret (.name "y"), .alloca "g"] },
      { label := "next", body := [{ opcode := .other }, { opcode := .ret }] }]

/-- The module with that function and the global that it reads and writes. -/
def lingering : IR.Module where
  globals := [{ name := "g", value := 5 }]
  funcs := [lingeringMain]

/-- That function returns six, in a register that its pool has too. -/
theorem first_return_stands_if_nothing_follows_lingering :
    Config.Chosen {} ∧ lingeringMain.Traceable lingering ∧
    (∃ i ∈ lingeringMain.code, i.opcode = .ret) ∧
    ∃ program ds outcome, lowerModule {} lingering = (.ok program, ds) ∧
      lingering.run? none lingeringMain = some outcome ∧ outcome.value = 6 ∧
      ∃ routine final, program.routines[0]? = some routine ∧
        scrambled.runToExit? routine = some final ∧
        final.registers "a0" = .word outcome.value ∧
        final.data "g" = some (.word (outcome.globals "g")) := by
  have traceable : lingeringMain.Traceable lingering :=
    ⟨IR.Func.not_updatesBlindly (by decide), by decide, by decide⟩
  have hasReturn : ∃ i ∈ lingeringMain.code, i.opcode = .ret := by decide
  have lowers : (lowerModule {} lingering).1.toOption.isSome = true := by
    simp only [lowerModule, Lowering.addModule, lingering, lingeringMain, Emit.forEach, lowerFunc,
      lowerBlock, Alloc.allocate, Alloc.assign, scanOrder_blockTable]
    decide +kernel
  have returns : (lingering.run? none lingeringMain).map Outcome.value = some 6 := by
    decide +kernel
  obtain ⟨outcome, ran, value_eq⟩ := Option.map_eq_some_iff.mp returns
  cases lowered : lowerModule {} lingering with
  | mk result ds =>
    rw [lowered] at lowers
    cases result with
    | error fault => cases lowers
    | ok program =>
      obtain ⟨cut, mid, isRet, isFirst, isRoutine, -, continues, globals, value, -, idle⟩ :=
        first_return_stands_if_nothing_follows (m := scrambled) .default lowered
          (show lingering.funcs[0]? = some lingeringMain from rfl) traceable hasReturn ran rfl
          (by simp [lingering, scrambled])
      have cut_eq := Func.Cut.dropWhile_code isRet isFirst
      obtain ⟨here_eq, after_eq⟩ := List.cons.inj cut_eq
      obtain ⟨final, exited, final_value, final_data⟩ := idle (by
        rw [← after_eq]
        simp [IR.Instruction.Idle])
      refine ⟨.default, traceable, hasReturn, program, ds, outcome, rfl, ran, value_eq, _, final,
        isRoutine, continues.trans exited, final_value.trans (value (.name "y") ?_), ?_⟩
      · rw [← here_eq]
        rfl
      · rw [final_data]
        exact globals { name := "g", value := 5 } List.mem_cons_self

/-- A function that stores to a global and returns once more after its first return. -/
def hastyMain : Func where
  name := "main"
  blocks :=
    [{ label := "entry", body := [.ret (.const 1), .store (.const 7) "g"] },
      { label := "next", body := [.ret (.const 2)] }]

/-- The module with that function and the global. -/
def hasty : IR.Module where
  globals := [{ name := "g", value := 5 }]
  funcs := [hastyMain]

/-- Its program for the other target. -/
def hastyProgram : Qbe.Program where
  data := hasty.globals
  funcs :=
    [{ name := "main"
       body :=
        [.label "entry", .ret (.const 1), .storew (.const 7) "g", .label "next",
          .ret (.const 2)] }]

/-- There the first return leaves the function. -/
theorem interpret?_hastyProgram :
    Qbe.lower {} hasty = .ok hastyProgram ∧
      Qbe.interpret? hastyProgram.text "main" =
        some (1, { data := hastyProgram.initialData }) ∧
      hastyProgram.initialData "$g" = some 5 := by
  have lower_eq : Qbe.lower {} hasty = .ok hastyProgram := rfl
  obtain ⟨program, -, lower_eq', plain, -⟩ :=
    Qbe.exists_lowered_program {} (show hasty.validate = .ok () by decide) (by decide)
  obtain rfl : hastyProgram = program := Except.ok.inj (lower_eq.symm.trans lower_eq')
  refine ⟨lower_eq, ?_, by decide⟩
  rw [Qbe.interpret?_text plain List.mem_cons_self]
  simp [Qbe.runAll?, Qbe.State.step?, Qbe.State.word?_const, Qbe.Progress.result?]

/-- A return does not end the function. The outcome is one and leaves the global alone, and
so does the program for the other target; but the code stores seven and returns two. -/
theorem code_after_return_is_executed :
    hasty.validate = .ok () ∧ Config.Chosen {} ∧ hastyMain.Traceable hasty ∧
    (hasty.run? none hastyMain).map (fun outcome => (outcome.value, outcome.globals "g")) =
      some (1, 5) ∧
    (∃ program final, Qbe.lower {} hasty = .ok program ∧
      Qbe.interpret? program.text "main" = some (1, final) ∧ final.data "$g" = some 5) ∧
    ((lowerModule {} hasty).1.toOption.bind fun program =>
      program.routines[0]?.bind fun routine =>
        (scrambled.runToExit? routine).map fun final =>
          (final.registers "a0", final.data "g")) =
      some (.word 2, some (.word 7)) := by
  refine ⟨by decide, .default, ⟨IR.Func.not_updatesBlindly (by decide), by decide, by decide⟩,
    by decide +kernel, ⟨_, _, interpret?_hastyProgram⟩, ?_⟩
  simp only [lowerModule, Lowering.addModule, hasty, hastyMain, Emit.forEach, lowerFunc,
    lowerBlock, Alloc.allocate, Alloc.assign, scanOrder_blockTable]
  decide +kernel

end Lower

end RiscBackend
