/-
# Lowering under other switches

Features and warnings are switches of a configuration. When a program is lowered twice with
different switches, both lowerings take the same steps: they pass through the same
environments and stop at the same faults, if at all. What can differ are the comments on
lines and what is reported.

An accord says how the lines and the reports of two lowerings are to correspond. Two steps
are in step with each other when they keep to the accord, and the rules below follow the text
of the lowering. What is to be shown about a change of switches is then an accord, and a check
of the few places at which the lowering looks at a switch.

The rules for a single instruction ask less than that its two points differ by switches only.
They hold for points that meet, which have the same values in the same registers and put their
reports into correspondence, and which may stand at different positions.
-/

import RiscBackend.Proofs.Lower.Outcome
import RiscBackend.Proofs.Lower.Slots

namespace RiscBackend

/-- A configuration with its switches set anew. -/
def Config.withSwitches (c : Config) (feature : Feature → Bool) (warning : Warning → Bool) :
    Config :=
  { c with feature, warning }

namespace Lower

open IR (Operand Instruction Block Func Global)
open Alloc (Interval)
open Asm (Line Instr)
open Emit

namespace Frame

/-- All slots of the first frame are slots of the second. -/
def Grows (f f' : Frame) : Prop :=
  ∀ name offset, f.offset? name = some offset → f'.offset? name = some offset

theorem Grows.refl (f : Frame) : f.Grows f :=
  fun _ _ hasSlot => hasSlot

theorem Grows.trans {f f' f'' : Frame} (first : f.Grows f') (second : f'.Grows f'') :
    f.Grows f'' :=
  fun name offset hasSlot => second name offset (first name offset hasSlot)

/-- A name that asks for its slot has it afterwards. -/
theorem offset?_slotFor {f f' : Frame} {name : String} {offset : Int64}
    (given : f.slotFor name = .ok (offset, f')) : f'.offset? name = some offset := by
  rcases slotFor_eq_ok given with ⟨known, rfl⟩ | ⟨-, -, -, rfl⟩
  · exact known
  · rw [offset?, lookup_setOffset, if_pos rfl]

theorem grows_slotFor {f f' : Frame} {name : String} {offset : Int64}
    (given : f.slotFor name = .ok (offset, f')) : f.Grows f' :=
  fun _ _ hasSlot => offset?_of_slotFor given hasSlot

end Frame

/-- An instruction moves the value of a name between a register and the slot of the name,
and a verb says to which end. -/
inductive SlotMove (stack : String) (frame : Frame) : Instr → (verb name : String) → Prop
  | spill {register name : String} {offset : Int64} (hasSlot : frame.offset? name = some offset) :
      SlotMove stack frame (.sw register offset stack) "spill" name
  | reload {register name : String} {offset : Int64} (hasSlot : frame.offset? name = some offset) :
      SlotMove stack frame (.lw register offset stack) "reload" name
  | writeBack {register name : String} {offset : Int64}
      (hasSlot : frame.offset? name = some offset) :
      SlotMove stack frame (.sw register offset stack) "write-back" name

theorem SlotMove.mono {stack verb name : String} {frame frame' : Frame} {i : Instr}
    (moves : SlotMove stack frame i verb name) (grows : frame.Grows frame') :
    SlotMove stack frame' i verb name := by
  cases moves with
  | spill hasSlot => exact .spill (grows _ _ hasSlot)
  | reload hasSlot => exact .reload (grows _ _ hasSlot)
  | writeBack hasSlot => exact .writeBack (grows _ _ hasSlot)

/-- The line of such an instruction, with a comment if comments are on. -/
def moveLine (annotate : Bool) (i : Instr) (verb name : String) : Line :=
  { stmt := .instr i, notes := if annotate then [verb ++ " " ++ name] else [] }

/-- What is reported under a switch that may be off. -/
def warnings (on : Bool) (w : Warning) (place message : String) : Diagnostics :=
  if on then [{ severity := .warning, place, flag := w.name, message }] else []

/-- What is reported about a name without a place. -/
def unresolvedReports (config : Config) (place : String) (fault : PlacementFault) : Diagnostics :=
  if config.feature .strict then [{ severity := .error, place, message := fault.message }]
  else warnings (config.warning .unresolved) .unresolved place fault.message

/-- How the lines and the reports of two lowerings are to correspond. A line is judged by the
slots of the function that it belongs to. -/
structure Accord where
  line : Frame → Line → Line → Prop
  reports : Diagnostics → Diagnostics → Prop
  line_refl : ∀ frame l, line frame l l
  line_mono : ∀ {frame frame' l l'}, frame.Grows frame' → line frame l l' → line frame' l l'
  reports_nil : reports [] []
  reports_append : ∀ {ds ds' es es'}, reports ds ds' → reports es es' →
    reports (ds ++ es) (ds' ++ es')

namespace Accord

/-- The places at which a lowering looks at a switch are in accord, when the switches of the
configuration are changed to those given. -/
structure Permits (accord : Accord) (config : Config) (feature : Feature → Bool)
    (warning : Warning → Bool) : Prop where
  moves : ∀ {frame i verb name}, SlotMove config.stackRegister frame i verb name →
    accord.line frame (moveLine (config.feature .annotate) i verb name)
      (moveLine (feature .annotate) i verb name)
  unresolved : ∀ place fault, accord.reports (unresolvedReports config place fault)
    (unresolvedReports (config.withSwitches feature warning) place fault)
  warns : ∀ w place message, w ≠ .unresolved →
    accord.reports (warnings (config.warning w) w place message)
      (warnings (warning w) w place message)

/-- Two emissions correspond. The frame is the one before them. -/
structure Joins {α : Type} (accord : Accord) (frame : Frame) (e e' : Emission α) : Prop where
  outcome_eq : e'.outcome = e.outcome
  env_eq : e'.env = e.env
  grows : frame.Grows e.env.frame
  lines : List.Forall₂ (accord.line e.env.frame) e.lines e'.lines
  reports : accord.reports e.diagnostics e'.diagnostics

/-- Two steps go in step from an environment. -/
def InStep {α : Type} (accord : Accord) (env : Env) (step step' : Emit α) : Prop :=
  accord.Joins env.frame (step.run env) (step'.run env)

variable {α β : Type} {accord : Accord} {env : Env}

/-- A step that reports nothing goes in step with itself. -/
theorem inStep_self {step : Emit α} (grows : env.frame.Grows (step.run env).env.frame)
    (silent : (step.run env).diagnostics = []) : accord.InStep env step step where
  outcome_eq := rfl
  env_eq := rfl
  grows := grows
  lines := List.forall₂_same.mpr fun l _ => accord.line_refl _ l
  reports := by
    rw [silent]
    exact accord.reports_nil

theorem inStep_pure (a : α) : accord.InStep env (pure a) (pure a) :=
  inStep_self (.refl _) rfl

theorem inStep_fail (fault : BlockFault) : accord.InStep env (fail fault : Emit α) (fail fault) :=
  inStep_self (.refl _) rfl

theorem inStep_instr (i : Instr) : accord.InStep env (instr i) (instr i) :=
  inStep_self (.refl _) rfl

theorem inStep_label (name : String) : accord.InStep env (label name) (label name) :=
  inStep_self (.refl _) rfl

theorem inStep_line {l l' : Line} (corresponds : accord.line env.frame l l') :
    accord.InStep env (Emit.line l) (Emit.line l') where
  outcome_eq := rfl
  env_eq := rfl
  grows := .refl _
  lines := .cons corresponds .nil
  reports := accord.reports_nil

/-- Steps that only report go in step when their reports correspond. -/
theorem inStep_report {step step' : Emit Unit} {ds ds' : Diagnostics}
    (run_eq : step.run env = { lines := [], diagnostics := ds, env, outcome := .ok () })
    (run_eq' : step'.run env = { lines := [], diagnostics := ds', env, outcome := .ok () })
    (correspond : accord.reports ds ds') : accord.InStep env step step' := by
  rw [InStep, run_eq, run_eq']
  exact ⟨rfl, rfl, .refl _, .nil, correspond⟩

/-- Reports under switches go in step when what is reported corresponds. -/
theorem inStep_diagnose_if {on on' : Bool} {d : Diagnostic}
    (correspond : accord.reports (if on then [d] else []) (if on' then [d] else [])) :
    accord.InStep env (if on then diagnose d else pure ())
      (if on' then diagnose d else pure ()) := by
  refine inStep_report ?_ ?_ correspond
  · cases on <;> rfl
  · cases on' <;> rfl

/-- Sequences go in step when their parts do. -/
theorem inStep_bind {step step' : Emit α} {next next' : α → Emit β}
    (first : accord.InStep env step step')
    (second : ∀ a, (step.run env).outcome = .ok a →
      accord.InStep (step.run env).env (next a) (next' a)) :
    accord.InStep env (step >>= next) (step' >>= next') := by
  rw [InStep]
  cases outcome : (step.run env).outcome with
  | error fault =>
    rw [run_bind_of_error outcome, run_bind_of_error (first.outcome_eq.trans outcome)]
    exact ⟨rfl, first.env_eq, first.grows, first.lines, first.reports⟩
  | ok a =>
    have later := second a outcome
    rw [InStep, ← first.env_eq] at later
    rw [run_bind_of_ok outcome, run_bind_of_ok (first.outcome_eq.trans outcome), ← first.env_eq]
    refine ⟨later.outcome_eq, later.env_eq, ?_, ?_, ?_⟩
    · exact first.grows.trans (first.env_eq ▸ later.grows)
    · refine List.rel_append (first.lines.imp fun l l' corresponds => ?_) later.lines
      exact accord.line_mono (first.env_eq ▸ later.grows) corresponds
    · exact accord.reports_append first.reports later.reports

theorem inStep_getEnv_bind {next next' : Env → Emit β}
    (goesOn : accord.InStep env (next env) (next' env)) :
    accord.InStep env (getEnv >>= next) (getEnv >>= next') :=
  goesOn

/-- When a step sets the environment, what matters is the environment that it sets. -/
theorem joins_modifyEnv_bind {next next' : Unit → Emit β} (update : Env → Env)
    (goesOn : accord.InStep (update env) (next ()) (next' ())) :
    accord.Joins (update env).frame ((modifyEnv update >>= next).run env)
      ((modifyEnv update >>= next').run env) :=
  goesOn

/-- Loops over lists that correspond go in step when their bodies do. -/
theorem inStep_forEach₂ {R : α → β → Prop} {step : α → Emit Unit} {step' : β → Emit Unit}
    (each : ∀ {a b}, R a b → ∀ env, accord.InStep env (step a) (step' b)) {members : List α}
    {members' : List β} (correspond : List.Forall₂ R members members') :
    ∀ env, accord.InStep env (forEach step members) (forEach step' members') := by
  induction correspond with
  | nil => exact fun env => inStep_pure ()
  | cons related _ ih => exact fun env => inStep_bind (each related env) fun _ _ => ih _

/-- Loops go in step when their bodies do. -/
theorem inStep_forEach {step step' : α → Emit Unit}
    (each : ∀ a env, accord.InStep env (step a) (step' a)) (members : List α) (env : Env) :
    accord.InStep env (forEach step members) (forEach step' members) :=
  inStep_forEach₂ (R := Eq) (fun {a _} same env => same ▸ each a env)
    (List.forall₂_refl members) env

end Accord

/-- What two lowerings see of an interval is the same, each from its own point. -/
structure Site.Sees (site site' : Site) (iv iv' : Interval) : Prop where
  name_eq : iv'.name = iv.name
  register_eq : iv'.register = iv.register
  liveIn_eq : iv'.liveIn = iv.liveIn
  inRegister_eq : iv'.inRegister site'.position = iv.inRegister site.position
  starts_iff : iv'.start = site'.position ↔ iv.start = site.position
  spills_iff : iv'.spillAt = site'.position ↔ iv.spillAt = site.position

/-- Two points of which the code goes in step: the lowerings see the same there, and what they
report and remark is in accord. -/
structure Accord.Meets (accord : Accord) (site site' : Site) : Prop where
  function_eq : site'.function = site.function
  block_eq : site'.block = site.block
  crossing_eq : site'.crossing = site.crossing
  scratch_eq : site'.config.scratch = site.config.scratch
  returnRegister_eq : site'.config.returnRegister = site.config.returnRegister
  stackRegister_eq : site'.config.stackRegister = site.config.stackRegister
  entries : List.Forall₂ (site.Sees site') site.table.intervals site'.table.intervals
  moves : ∀ {frame i verb name}, SlotMove site.config.stackRegister frame i verb name →
    accord.line frame (moveLine (site.config.feature .annotate) i verb name)
      (moveLine (site'.config.feature .annotate) i verb name)
  unresolved : ∀ fault, accord.reports (site.reports fault) (site'.reports fault)
  warns : ∀ message, accord.reports
    (warnings (site.config.warning .spill) .spill site.place message)
    (warnings (site'.config.warning .spill) .spill site'.place message)

namespace Accord.Meets

variable {accord : Accord} {site site' : Site}

/-- A name has no interval in either table, or two that correspond. -/
theorem lookup (meets : accord.Meets site site') (name : String) :
    (site.table.lookup name = none ∧ site'.table.lookup name = none) ∨
      ∃ iv iv', site.table.lookup name = some iv ∧ site'.table.lookup name = some iv' ∧
        site.Sees site' iv iv' := by
  rw [Alloc.Table.lookup, Alloc.Table.lookup]
  have entries := meets.entries
  generalize site.table.intervals = given at entries ⊢
  generalize site'.table.intervals = given' at entries ⊢
  induction entries with
  | nil => exact .inl ⟨rfl, rfl⟩
  | @cons iv iv' _ _ sees _ ih =>
    rw [List.find?_cons, List.find?_cons, sees.name_eq]
    by_cases isName : iv.name = name
    · rw [decide_eq_true isName]
      exact .inr ⟨iv, iv', rfl, rfl, sees⟩
    · rw [decide_eq_false isName]
      exact ih

/-- The intervals that are evicted at the two points correspond. -/
theorem spillsAt (meets : accord.Meets site site') :
    List.Forall₂ (site.Sees site') (site.table.spillsAt site.position)
      (site'.table.spillsAt site'.position) := by
  rw [Alloc.Table.spillsAt, Alloc.Table.spillsAt]
  have entries := meets.entries
  generalize site.table.intervals = given at entries ⊢
  generalize site'.table.intervals = given' at entries ⊢
  induction entries with
  | nil => exact .nil
  | @cons iv iv' _ _ sees _ ih =>
    have spills_eq : decide (iv'.spillAt = site'.position) = decide (iv.spillAt = site.position) :=
      decide_eq_decide.mpr sees.spills_iff
    rw [List.filter_cons, List.filter_cons, spills_eq]
    split
    · exact .cons sees ih
    · exact ih

theorem slotFor_eq (meets : accord.Meets site site') (name : String) :
    site'.slotFor name = site.slotFor name := by
  simp only [Site.slotFor, Site.fail, meets.function_eq, meets.block_eq]

theorem operandAt_eq (meets : accord.Meets site site') (i : Instruction) (index : Nat) :
    site'.operandAt i index = site.operandAt i index := by
  simp only [Site.operandAt, Site.fail, meets.function_eq, meets.block_eq]

theorem resultOf_eq (meets : accord.Meets site site') (i : Instruction) :
    site'.resultOf i = site.resultOf i := by
  simp only [Site.resultOf, Site.fail, meets.function_eq, meets.block_eq]

end Accord.Meets

namespace Site

open Accord

variable {accord : Accord} {site site' : Site} {env : Env}

theorem inStep_unresolved (meets : accord.Meets site site') (fault : PlacementFault) :
    accord.InStep env (site.unresolved fault) (site'.unresolved fault) :=
  inStep_report (run_unresolved_eq site fault env) (run_unresolved_eq site' fault env)
    (meets.unresolved fault)

/-- What is done with the slot of a name goes in step if it does where the name has it. -/
theorem inStep_slotFor_bind (meets : accord.Meets site site') {name : String}
    {next next' : Int64 → Emit Unit}
    (goesOn : ∀ offset env, env.frame.offset? name = some offset →
      accord.InStep env (next offset) (next' offset)) :
    accord.InStep env (site.slotFor name >>= next) (site'.slotFor name >>= next') := by
  rw [meets.slotFor_eq]
  cases given : env.slotFor name with
  | error fault =>
    have run_eq : (site.slotFor name).run env = _ := run_slotFor_of_error given
    refine inStep_bind (inStep_self ?_ ?_) fun offset asked => ?_
    · rw [run_eq]
      exact .refl _
    · rw [run_eq]
    · rw [run_eq] at asked
      cases asked
  | ok slot =>
    obtain ⟨frame, given', env_eq⟩ := Env.slotFor_eq_ok given
    have run_eq : (site.slotFor name).run env = _ := run_slotFor_of_ok given
    refine inStep_bind (inStep_self ?_ ?_) fun offset asked => goesOn offset _ ?_
    · rw [run_eq, env_eq]
      exact Frame.grows_slotFor given'
    · rw [run_eq]
    · rw [run_eq] at asked ⊢
      cases asked
      rw [env_eq]
      exact Frame.offset?_slotFor given'

theorem inStep_operandAt (meets : accord.Meets site site') (i : Instruction) (index : Nat) :
    accord.InStep env (site.operandAt i index) (site'.operandAt i index) := by
  rw [meets.operandAt_eq, operandAt]
  split
  · exact inStep_pure _
  · exact inStep_fail _

theorem inStep_resultOf (meets : accord.Meets site site') (i : Instruction) :
    accord.InStep env (site.resultOf i) (site'.resultOf i) := by
  rw [meets.resultOf_eq, resultOf]
  split
  · exact inStep_pure _
  · exact inStep_fail _

theorem inStep_loadGlobal (rd name : String) :
    accord.InStep env (loadGlobal rd name) (loadGlobal rd name) :=
  inStep_bind (inStep_instr _) fun _ _ => inStep_instr _

theorem inStep_loadLocal (meets : accord.Meets site site') (rd name : String) :
    accord.InStep env (site.loadLocal rd name) (site'.loadLocal rd name) := by
  rw [loadLocal, loadLocal, meets.stackRegister_eq]
  obtain ⟨missing, missing'⟩ | ⟨iv, iv', found, found', sees⟩ := meets.lookup name
  · rw [missing, missing']
    exact inStep_bind (inStep_unresolved meets _) fun _ _ => inStep_instr _
  · rw [found, found']
    dsimp only
    rw [sees.inRegister_eq, sees.register_eq]
    split
    · exact inStep_instr _
    · apply inStep_getEnv_bind
      cases env.frame.resolve name with
      | ok offset => exact inStep_instr _
      | error fault => exact inStep_bind (inStep_unresolved meets _) fun _ _ => inStep_instr _

theorem inStep_loadOperand (meets : accord.Meets site site') (rd : String) (operand : Operand) :
    accord.InStep env (site.loadOperand rd operand) (site'.loadOperand rd operand) := by
  cases operand with
  | const value => exact inStep_instr _
  | hole => exact inStep_pure ()
  | name name =>
    apply inStep_getEnv_bind
    split
    · exact inStep_loadGlobal rd name
    · exact inStep_loadLocal meets rd name

theorem inStep_storeLocal (meets : accord.Meets site site') (name rs : String) :
    accord.InStep env (site.storeLocal name rs) (site'.storeLocal name rs) := by
  rw [storeLocal, storeLocal, meets.stackRegister_eq]
  obtain ⟨missing, missing'⟩ | ⟨iv, iv', found, found', sees⟩ := meets.lookup name
  · rw [missing, missing']
    exact inStep_unresolved meets _
  · rw [found, found']
    dsimp only
    rw [sees.inRegister_eq, sees.register_eq]
    split
    · exact inStep_instr _
    · exact inStep_slotFor_bind meets fun offset env _ => inStep_instr _

/-- Instructions are selected in step, also those that are not well formed. -/
theorem inStep_select (meets : accord.Meets site site') (i : Instruction) :
    accord.InStep env (site.select i) (site'.select i) := by
  rw [select, select, meets.scratch_eq, meets.returnRegister_eq]
  dsimp only
  cases i.opcode with
  | arith op =>
    refine inStep_bind (inStep_operandAt meets i 0) fun first _ => ?_
    refine inStep_bind (inStep_loadOperand meets _ first) fun _ _ => ?_
    refine inStep_bind (inStep_operandAt meets i 1) fun second _ => ?_
    refine inStep_bind (inStep_loadOperand meets _ second) fun _ _ => ?_
    refine inStep_bind (inStep_instr _) fun _ _ => ?_
    refine inStep_bind (inStep_resultOf meets i) fun name _ => ?_
    exact inStep_storeLocal meets name _
  | ret =>
    dsimp only
    split
    · exact inStep_loadOperand meets _ _
    · exact inStep_pure ()
  | alloca =>
    refine inStep_bind (inStep_resultOf meets i) fun name _ => ?_
    exact inStep_self (.refl _) rfl
  | load =>
    refine inStep_bind (inStep_operandAt meets i 0) fun source _ => inStep_getEnv_bind ?_
    split
    · refine inStep_bind (inStep_loadGlobal _ _) fun _ _ => ?_
      exact inStep_bind (inStep_resultOf meets i) fun name _ => inStep_storeLocal meets name _
    · refine inStep_bind (inStep_loadOperand meets _ source) fun _ _ => ?_
      exact inStep_bind (inStep_resultOf meets i) fun name _ => inStep_storeLocal meets name _
  | store =>
    refine inStep_bind (inStep_operandAt meets i 1) fun target _ => ?_
    refine inStep_bind (inStep_operandAt meets i 0) fun value _ => ?_
    refine inStep_bind (inStep_loadOperand meets _ value) fun _ _ => inStep_getEnv_bind ?_
    split
    · exact inStep_bind (inStep_instr _) fun _ _ => inStep_instr _
    · exact inStep_storeLocal meets _ _
  | other => exact inStep_pure ()
  | unlisted code =>
    dsimp only
    rw [fail, fail, meets.function_eq, meets.block_eq]
    exact inStep_fail _

/-- A line that moves a value is in accord with that of the other lowering. -/
theorem inStep_slotLine (meets : accord.Meets site site') {i : Instr} {verb : String}
    {iv iv' : Interval} (name_eq : iv'.name = iv.name)
    (moves : SlotMove site.config.stackRegister env.frame i verb iv.name) :
    accord.InStep env (Emit.line (site.slotLine i verb iv))
      (Emit.line (site'.slotLine i verb iv')) := by
  rw [slotLine, slotLine, name_eq]
  exact inStep_line (meets.moves moves)

theorem inStep_spill (meets : accord.Meets site site') {iv iv' : Interval}
    (sees : site.Sees site' iv iv') :
    accord.InStep env (site.spill iv) (site'.spill iv') := by
  rw [spill, spill, sees.name_eq, sees.register_eq, meets.stackRegister_eq]
  by_cases starts : iv.start = site.position
  · rw [if_pos starts, if_pos (sees.starts_iff.mpr starts)]
    exact inStep_pure ()
  · rw [if_neg starts, if_neg fun starts' => starts (sees.starts_iff.mp starts')]
    refine inStep_slotFor_bind meets fun offset env hasSlot => ?_
    refine inStep_bind (inStep_slotLine meets sees.name_eq (.spill hasSlot)) fun _ _ => ?_
    apply inStep_report _ _ (meets.warns s!"'{iv.name}' evicted from {iv.register}")
    · cases site.config.warning .spill <;> rfl
    · cases site'.config.warning .spill <;> rfl

theorem inStep_reload (meets : accord.Meets site site') {iv iv' : Interval}
    (sees : site.Sees site' iv iv') :
    accord.InStep env (site.reload iv) (site'.reload iv') := by
  have starts_eq : (iv'.start != site'.position) = (iv.start != site.position) := by
    simp only [bne, beq_eq_decide, sees.starts_iff]
  rw [reload, reload, sees.name_eq, sees.register_eq, sees.liveIn_eq, starts_eq,
    sees.inRegister_eq, meets.stackRegister_eq]
  split
  · exact inStep_pure ()
  · apply inStep_getEnv_bind
    rw [Frame.resolve]
    cases hasSlot : env.frame.offset? iv.name with
    | none => exact inStep_unresolved meets _
    | some offset => exact inStep_slotLine meets sees.name_eq (.reload hasSlot)

theorem inStep_writeBack (meets : accord.Meets site site') {iv iv' : Interval}
    (sees : site.Sees site' iv iv') :
    accord.InStep env (site.writeBack iv) (site'.writeBack iv') := by
  rw [writeBack, writeBack, sees.name_eq, sees.register_eq, sees.inRegister_eq,
    meets.crossing_eq, meets.stackRegister_eq]
  split
  · exact inStep_pure ()
  · refine inStep_slotFor_bind meets fun offset env hasSlot => ?_
    exact inStep_slotLine meets sees.name_eq (.writeBack hasSlot)

/-- **A step in step.** From points that meet an instruction is lowered in step. -/
theorem inStep_step (meets : accord.Meets site site') (i : Instruction) :
    accord.InStep env (site.step i) (site'.step i) := by
  refine inStep_bind (inStep_forEach₂ (fun sees env => inStep_spill meets sees) meets.spillsAt _)
    fun _ _ => ?_
  refine inStep_bind (inStep_forEach₂ (fun sees env => inStep_reload meets sees) meets.entries _)
    fun _ _ => ?_
  exact inStep_select meets i

/-- A point of the program with other switches. -/
def withSwitches (site : Site) (feature : Feature → Bool) (warning : Warning → Bool) : Site :=
  { site with config := site.config.withSwitches feature warning }

variable {feature : Feature → Bool} {warning : Warning → Bool}

/-- A point meets itself with other switches. -/
theorem meets_withSwitches (site : Site) (permits : accord.Permits site.config feature warning) :
    accord.Meets site (site.withSwitches feature warning) where
  function_eq := rfl
  block_eq := rfl
  crossing_eq := rfl
  scratch_eq := rfl
  returnRegister_eq := rfl
  stackRegister_eq := rfl
  entries := List.forall₂_same.mpr fun iv _ => ⟨rfl, rfl, rfl, rfl, .rfl, .rfl⟩
  moves := permits.moves
  unresolved := permits.unresolved site.place
  warns message := permits.warns .spill site.place message (by decide)

theorem inStep_steps (site : Site) (permits : accord.Permits site.config feature warning)
    (body : List Instruction) :
    accord.InStep env (site.steps body) ((site.withSwitches feature warning).steps body) := by
  induction body generalizing site env with
  | nil => exact inStep_pure ()
  | cons i rest ih =>
    refine inStep_bind ?_ fun _ _ => ih { site with position := site.position + 1 } permits
    exact inStep_step (site.meets_withSwitches permits) i

end Site

open Accord

variable {accord : Accord} {config : Config} {feature : Feature → Bool}
  {warning : Warning → Bool} {env : Env}

theorem inStep_lowerBlock (permits : accord.Permits config feature warning) (function : String)
    (crossing : List String) (b : Block) :
    accord.InStep env (lowerBlock config function crossing b)
      (lowerBlock (config.withSwitches feature warning) function crossing b) := by
  refine inStep_bind (inStep_label _) fun _ _ => inStep_getEnv_bind ?_
  dsimp only [Config.withSwitches]
  cases Alloc.allocate (.ofNames config.registers) _ with
  | error fault => exact inStep_fail _
  | ok result =>
    let site : Site :=
      { config, function, block := b.label, table := { intervals := result.1 }, crossing }
    let last : Site := { site with position := b.body.length }
    have meets := last.meets_withSwitches permits
    refine inStep_bind (site.inStep_steps permits b.body) fun _ _ => ?_
    split
    · exact inStep_forEach₂ (fun sees env => Site.inStep_writeBack meets sees) meets.entries _
    · exact inStep_pure ()

theorem inStep_frameWarning (permits : accord.Permits config feature warning) (function : String) :
    accord.InStep env (frameWarning config function)
      (frameWarning (config.withSwitches feature warning) function) := by
  refine inStep_getEnv_bind (inStep_diagnose_if ?_)
  dsimp only [Config.withSwitches]
  by_cases exceeds : config.frameSize < env.frame.used * 2
  · simp only [exceeds, decide_true, Bool.true_and]
    exact permits.warns .frame _ _ (by decide)
  · simp only [exceeds, decide_false, Bool.false_and, Bool.false_eq_true, if_false]
    exact accord.reports_nil

/-- **Functions in step.** The code of a function under other switches corresponds to its
code, line by line and report by report, and ends in the same way. Its slots are those of the
frame in which it ends, since every function begins with an empty one. -/
theorem joins_codeOf (permits : accord.Permits config feature warning) (globals : List Global)
    (f : Func) :
    accord.Joins (startEnv config globals).beginFunction.frame (codeOf config globals f)
      (codeOf (config.withSwitches feature warning) globals f) := by
  refine joins_modifyEnv_bind Env.beginFunction ?_
  refine inStep_bind (inStep_label _) fun _ _ => ?_
  refine inStep_bind (inStep_instr _) fun _ _ => ?_
  refine inStep_bind (inStep_forEach (fun b env => inStep_lowerBlock permits _ _ b) _ _)
    fun _ _ => ?_
  refine inStep_bind (inStep_instr _) fun _ _ => ?_
  refine inStep_bind (inStep_instr _) fun _ _ => ?_
  refine inStep_bind (inStep_instr _) fun _ _ => ?_
  exact inStep_frameWarning permits f.name

/-- Rows of codes that join one by one stop at the same fault, if at all, and what is reported on
the way corresponds. -/
theorem Accord.reports_row {frame : Frame} {made made' : Func → Emission Unit}
    (joins : ∀ f, accord.Joins frame (made f) (made' f)) (funcs : List Func) :
    (Code.row (funcs.map fun f => (made' f).code)).outcome =
        (Code.row (funcs.map fun f => (made f).code)).outcome ∧
      accord.reports (Code.row (funcs.map fun f => (made f).code)).diagnostics
        (Code.row (funcs.map fun f => (made' f).code)).diagnostics := by
  induction funcs with
  | nil => exact ⟨rfl, accord.reports_nil⟩
  | cons f rest ih =>
    have ends : (made' f).code.outcome = (made f).code.outcome := (joins f).outcome_eq
    rw [List.map_cons, List.map_cons]
    cases outcome : (made f).code.outcome with
    | error fault =>
      rw [Code.row_cons_of_error outcome, Code.row_cons_of_error (ends.trans outcome)]
      exact ⟨ends, (joins f).reports⟩
    | ok =>
      rw [Code.row_cons_of_ok outcome, Code.row_cons_of_ok (ends.trans outcome)]
      exact ⟨ih.1, accord.reports_append (joins f).reports ih.2⟩

/-- **Modules in step.** A module's functions stop at the same fault under other switches, if at
all, and what is reported on the way corresponds. -/
theorem moduleCode_withSwitches (permits : accord.Permits config feature warning) (m : IR.Module) :
    (moduleCode (config.withSwitches feature warning) m).outcome = (moduleCode config m).outcome ∧
      accord.reports (moduleCode config m).diagnostics
        (moduleCode (config.withSwitches feature warning) m).diagnostics :=
  Accord.reports_row (joins_codeOf permits m.globals) m.funcs

/-- Whether a module is refused depends on one switch only. -/
theorem refusal?_withSwitches (same : feature .validate = config.feature .validate)
    (m : IR.Module) : refusal? (config.withSwitches feature warning) m = refusal? config m := by
  simp only [refusal?, Config.withSwitches, same]
  rfl

/-- An accord of a lowering with itself, by which it reports no errors. -/
def Accord.harmless : Accord where
  line _ _ _ := True
  reports ds _ := ds.hasErrors = false
  line_refl _ _ := trivial
  line_mono _ _ := trivial
  reports_nil := rfl
  reports_append := by
    intro ds _ es _ first second
    rw [Diagnostics.hasErrors] at *
    rw [List.any_append, first, second]
    rfl

/-- Warnings are no errors. -/
theorem hasErrors_warnings (on : Bool) (w : Warning) (place message : String) :
    (warnings on w place message).hasErrors = false := by
  cases on <;> rfl

theorem Accord.harmless_permits (lenient : config.feature .strict = false) :
    Accord.harmless.Permits config config.feature config.warning where
  moves _ := trivial
  unresolved place fault := by
    rw [unresolvedReports, lenient]
    exact hasErrors_warnings _ _ _ _
  warns w place message _ := hasErrors_warnings _ _ _ _

/-- A lenient lowering reports no errors. -/
theorem hasErrors_moduleCode (lenient : config.feature .strict = false) (m : IR.Module) :
    (moduleCode config m).diagnostics.hasErrors = false :=
  (moduleCode_withSwitches (Accord.harmless_permits lenient) m).2

end Lower

end RiscBackend
