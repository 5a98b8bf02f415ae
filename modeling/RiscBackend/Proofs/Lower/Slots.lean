/-
# The stack frame in emitted code

The code of a function opens its frame at the start and closes it at the end. In between
it reaches the stack only through slots of the frame: words that lie inside of it, one per
name, each of which is written before it is read. A name without a slot is the exception.
It is reported, and the code then reads a word that belongs to nobody in particular.
-/

import RiscBackend.Proofs.Lower.Separate
import RiscBackend.Proofs.Lower.Tasks

namespace RiscBackend.Lower

open IR (Instruction Block Func)
open Alloc (Interval)
open Asm (Line Instr Machine)
open Emit

namespace Frame

/-- The offset is that of a word inside a frame of a given size. -/
def Fits (size offset : Int64) : Prop :=
  4 ∣ offset.toInt ∧ 0 ≤ offset.toInt ∧ offset.toInt ≤ size.toInt - 4

theorem fits_zero {size : Int64} (room : 4 ≤ size.toInt) : Fits size 0 := by
  have zero : (0 : Int64).toInt = 0 := rfl
  exact ⟨by omega, by omega, by omega⟩

/-- All slots are words inside the frame, and so is what is still free. -/
structure Aligned (f : Frame) : Prop extends f.WellFormed where
  next_dvd : 4 ∣ f.next.toInt
  next_le_size : f.next.toInt ≤ f.size.toInt
  fits : ∀ name offset, f.offset? name = some offset → Fits f.size offset

theorem aligned_ofSize {size : Int64} (nonneg : 0 ≤ size.toInt) (dvd : 4 ∣ size.toInt) :
    (Frame.ofSize size).Aligned where
  toWellFormed := wellFormed_ofSize nonneg
  next_dvd := dvd
  next_le_size := Int.le_refl _
  fits := by simp [offset?, ofSize]

/-- A name has a slot already, or it gets the next one below. -/
theorem slotFor_eq_ok {f f' : Frame} {name : String} {offset : Int64}
    (given : f.slotFor name = .ok (offset, f')) :
    (f.offset? name = some offset ∧ f' = f) ∨
      (f.offset? name = none ∧ offset = f.next - slotSize ∧ 0 ≤ offset.toInt ∧
        f' = { f with next := offset, slots := setOffset name offset f.slots }) := by
  rw [slotFor] at given
  split at given
  · rename_i known
    cases given
    exact .inl ⟨known, rfl⟩
  · rename_i unknown
    rw [allocate] at given
    split at given
    · cases given
    · rename_i room
      cases given
      exact .inr ⟨unknown, rfl, by simpa [Int64.lt_iff_toInt_lt] using room, rfl⟩

/-- Slots that were given out stay where they are. -/
theorem offset?_of_slotFor {f f' : Frame} {name other : String} {offset offset' : Int64}
    (given : f.slotFor name = .ok (offset, f')) (hasSlot : f.offset? other = some offset') :
    f'.offset? other = some offset' := by
  rcases slotFor_eq_ok given with ⟨-, rfl⟩ | ⟨unknown, -, -, rfl⟩
  · exact hasSlot
  · have ne : other ≠ name := by
      rintro rfl
      cases unknown.symm.trans hasSlot
    rw [offset?, lookup_setOffset, if_neg ne]
    exact hasSlot

/-- Asking for a slot keeps the frame in order. -/
theorem Aligned.slotFor {f f' : Frame} {name : String} {offset : Int64} (aligned : f.Aligned)
    (given : f.slotFor name = .ok (offset, f')) : f'.Aligned ∧ f'.size = f.size := by
  obtain ⟨wellFormed, -, -⟩ := aligned.toWellFormed.slotFor given
  rcases slotFor_eq_ok given with ⟨-, rfl⟩ | ⟨-, rfl, nonneg, rfl⟩
  · exact ⟨aligned, rfl⟩
  · have below := aligned.toInt_sub_slotSize
    have dvd := aligned.next_dvd
    have le := aligned.next_le_size
    refine ⟨⟨wellFormed, ?_, ?_, ?_⟩, rfl⟩
    · dsimp only
      omega
    · dsimp only
      omega
    · intro other offset hasSlot
      rw [offset?, lookup_setOffset] at hasSlot
      split at hasSlot
      · cases hasSlot
        refine ⟨?_, nonneg, ?_⟩
        · omega
        · dsimp only
          omega
      · exact aligned.fits other offset hasSlot

end Frame

/-- How an action uses the stack frame: not at all, by reading the slot of its name, by
writing the slot of its name, or by reading the first word of the frame in place of a
slot that is missing. -/
inductive UsesFrame (config : Config) (env : Env) (name? : Option String) :
    List Line → Diagnostics → Env → Prop
  | not {lines : List Line} {ds : Diagnostics} {env' : Env} (frame_eq : env'.frame = env.frame)
      (free : ∀ l ∈ lines, ∀ offset, ¬ l.Reaches config.stackRegister offset) :
      UsesFrame config env name? lines ds env'
  | load {l : Line} {name : String} {offset : Int64} {ds : Diagnostics} (isFor : name? = some name)
      (hasSlot : env.frame.offset? name = some offset)
      (loads : l.LoadsAt config.stackRegister offset) :
      UsesFrame config env name? [l] ds env
  | save {l : Line} {name : String} {offset : Int64} {ds : Diagnostics} {env' : Env}
      (isFor : name? = some name) (given : env.slotFor name = .ok (offset, env'))
      (saves : l.SavesAt config.stackRegister offset) :
      UsesFrame config env name? [l] ds env'
  | missing {l : Line} {site : Site} {fault : PlacementFault} (config_eq : site.config = config)
      (loads : l.LoadsAt config.stackRegister 0) :
      UsesFrame config env name? [l] (site.reports fault) env

/-- Whatever a task does, it uses the frame in one of these ways. -/
theorem Site.Performs.usesFrame {site : Site} {env env' : Env} {a : Action} {lines : List Line}
    {ds : Diagnostics} (performs : site.Performs env a lines ds env')
    (free : site.config.stackRegister ∉ Task.targets ⟨site, a⟩) :
    UsesFrame site.config env a.name? lines ds env' := by
  cases performs with
  | skip | reloadNothing | putUnknown | declare => exact .not rfl (by simp)
  | spill iv given | writeBack iv given => exact .save rfl given ⟨_, rfl⟩
  | reload iv hasSlot => exact .load rfl hasSlot ⟨_, rfl⟩
  | readSlot rd isLocal found hasSlot => exact .load rfl hasSlot ⟨_, rfl⟩
  | readNothing => exact .missing rfl ⟨_, rfl⟩
  | putSlot puts found given =>
    cases puts with
    | write | assign => exact .save rfl given ⟨_, rfl⟩
  | readConst | readRegister | readUnknown | compute | putRegister =>
    refine .not rfl fun l inLines offset => ?_
    obtain rfl := List.mem_singleton.mp inLines
    simp [Line.Reaches, Line.LoadsAt, Line.SavesAt]
  | readGlobal rd =>
    have ne : rd ≠ site.config.stackRegister := fun same => free (by simp [Task.targets, same])
    refine .not rfl fun l inLines offset => ?_
    rw [List.mem_pair] at inLines
    obtain rfl | rfl := inLines
    · simp [Line.Reaches, Line.LoadsAt, Line.SavesAt]
    · simp [Line.Reaches, Line.LoadsAt, Line.SavesAt, ne]
  | assignGlobal =>
    have ne : site.config.scratch.2 ≠ site.config.stackRegister := fun same =>
      free (by simp [Task.targets, same])
    refine .not rfl fun l inLines offset => ?_
    rw [List.mem_pair] at inLines
    obtain rfl | rfl := inLines
    · simp [Line.Reaches, Line.LoadsAt, Line.SavesAt]
    · simp [Line.Reaches, Line.LoadsAt, Line.SavesAt, ne]

/-- The frame of an environment is in order and has the size of the settings. -/
structure Laid (config : Config) (env : Env) : Prop where
  aligned : env.frame.Aligned
  size_eq : env.frame.size = config.frameSize

namespace Laid

variable {config : Config} {env env' : Env} {name : String} {offset : Int64}

theorem fits (laid : Laid config env) (hasSlot : env.frame.offset? name = some offset) :
    Frame.Fits config.frameSize offset :=
  laid.size_eq ▸ laid.aligned.fits name offset hasSlot

/-- A slot that is asked for lies inside the frame, and the frame stays in order. -/
theorem slotFor (laid : Laid config env) (given : env.slotFor name = .ok (offset, env')) :
    Laid config env' ∧ Frame.Fits config.frameSize offset := by
  obtain ⟨frame, given', rfl⟩ := Env.slotFor_eq_ok given
  obtain ⟨aligned, size_eq⟩ := laid.aligned.slotFor given'
  have laid' : Laid config { env with frame } := ⟨aligned, size_eq.trans laid.size_eq⟩
  exact ⟨laid', laid'.fits (laid.aligned.toWellFormed.slotFor given').2.1⟩

end Laid

namespace UsesFrame

variable {config : Config} {env env' : Env} {name? : Option String} {lines : List Line}
  {ds : Diagnostics}

/-- Using a frame keeps it in order. -/
theorem laid (uses : UsesFrame config env name? lines ds env') (laid : Laid config env) :
    Laid config env' := by
  cases uses with
  | not frame_eq => exact ⟨frame_eq ▸ laid.aligned, frame_eq ▸ laid.size_eq⟩
  | load | missing => exact laid
  | save isFor given => exact (laid.slotFor given).1

/-- Only words inside the frame are reached. -/
theorem fits (uses : UsesFrame config env name? lines ds env') (laid : Laid config env)
    (room : 4 ≤ config.frameSize.toInt) {l : Line} (inLines : l ∈ lines) {offset : Int64}
    (reaches : l.Reaches config.stackRegister offset) : Frame.Fits config.frameSize offset := by
  cases uses with
  | not _ free => exact absurd reaches (free l inLines offset)
  | load isFor hasSlot loads =>
    obtain rfl := List.mem_singleton.mp inLines
    rw [loads.offset_eq reaches]
    exact laid.fits hasSlot
  | save isFor given saves =>
    obtain rfl := List.mem_singleton.mp inLines
    rw [saves.offset_eq reaches]
    exact (laid.slotFor given).2
  | missing config_eq loads =>
    obtain rfl := List.mem_singleton.mp inLines
    rw [loads.offset_eq reaches]
    exact Frame.fits_zero room

end UsesFrame

variable {config : Config} {env : Env} {b : Block} {site : Site} {function : String}
  {crossing : List String}

/-- A register without a part in the code of an instruction is not written there. -/
theorem Site.not_mem_targets {register : String} {i : Instruction} {t : Task} {position : Nat}
    (usable : config.Usable) (entered : Site.ofBlock config function crossing env b = .ok site)
    (ne_first : register ≠ config.scratch.1) (ne_second : register ≠ config.scratch.2)
    (outside : register ∉ config.registers) (site_eq : t.site = { site with position })
    (isAction : t.action ∈ t.site.actions i)
    (notReturned : register = config.returnRegister → i.opcode = .ret → i.args = []) :
    register ∉ t.targets := by
  intro isTarget
  obtain ⟨intervals, pool, allocated, rfl⟩ := Site.ofBlock_eq_ok entered
  have sound := Alloc.allocated_of_allocate usable.nonempty usable.nodup allocated
  have target := Site.target_of_mem_actions isAction isTarget
  rw [site_eq] at target
  rcases target with first | second | ⟨iv, inTable, held⟩ | ⟨isReturn, isRet, nonempty⟩
  · exact ne_first first
  · exact ne_second second
  · obtain ⟨-, -, -, inPool, -⟩ := sound.origin_of_mem inTable
    exact outside (held ▸ inPool)
  · exact nonempty (notReturned isReturn isRet)

/-- No task of a block writes the stack register. -/
theorem Site.stack_not_mem_targets (usable : config.Usable)
    (entered : Site.ofBlock config function crossing env b = .ok site) {t : Task}
    (isTask : t ∈ site.blockTasks b) :
    t.site.config = config ∧ config.stackRegister ∉ t.targets := by
  have config_eq : site.config = config := by
    obtain ⟨-, -, -, rfl⟩ := Site.ofBlock_eq_ok entered
    rfl
  rcases Site.mem_blockTasks isTask with ⟨done, i, rest, -, site_eq, isAction⟩ |
      ⟨site_eq, iv, -, isWriteBack⟩
  · refine ⟨by rw [site_eq, config_eq], ?_⟩
    apply Site.not_mem_targets usable entered usable.stack_ne_first usable.stack_ne_second
      usable.stack_not_mem site_eq isAction
    exact fun isReturn => absurd isReturn usable.stack_ne_return
  · refine ⟨by rw [site_eq, config_eq], ?_⟩
    rw [Task.targets, isWriteBack]
    exact List.not_mem_nil

/-- A line and the name for which it is emitted. -/
structure Attributed where
  name? : Option String
  line : Line

/-- The code of tasks with the names for which it is emitted. -/
def taskTrace (tasks : List Task) (env : Env) : List Attributed :=
  (visits Task.emit tasks env).flatMap fun v =>
    (v.1.emit.run v.2).lines.map (Attributed.mk v.1.action.name?)

/-- The code of a block with the names for which it is emitted. -/
def blockTrace (config : Config) (function : String) (crossing : List String) (b : Block)
    (env : Env) : List Attributed :=
  { name? := none, line := { stmt := .label b.label } } ::
    match Site.ofBlock config function crossing env b with
    | .error _ => []
    | .ok site => taskTrace (site.blockTasks b) env

/-- The code of the blocks of a function with the names for which it is emitted. -/
def blocksTrace (config : Config) (function : String) (crossing : List String)
    (blocks : List Block) (env : Env) : List Attributed :=
  (visits (lowerBlock config function crossing) blocks env).flatMap fun v =>
    blockTrace config function crossing v.1 v.2

theorem map_line_taskTrace (tasks : List Task) (env : Env) :
    (taskTrace tasks env).map Attributed.line = ((forEach Task.emit tasks).run env).lines := by
  rw [(lines_diagnostics_forEach _ _ _).1, taskTrace, List.map_flatMap]
  congr 1
  funext v
  rw [List.map_map]
  exact List.map_id _

theorem map_line_blockTrace (wellFormed : ∀ i ∈ b.body, i.WellFormed) :
    (blockTrace config function crossing b env).map Attributed.line =
      ((lowerBlock config function crossing b).run env).lines := by
  rw [blockTrace, List.map_cons]
  cases entered : Site.ofBlock config function crossing env b with
  | error fault =>
    rw [run_lowerBlock_of_error wellFormed entered]
    rfl
  | ok site =>
    rw [run_lowerBlock_of_ok wellFormed entered]
    dsimp only
    rw [map_line_taskTrace]

/-- The trace of blocks is their code. -/
theorem map_line_blocksTrace {blocks : List Block}
    (wellFormed : ∀ b ∈ blocks, ∀ i ∈ b.body, i.WellFormed) :
    (blocksTrace config function crossing blocks env).map Attributed.line =
      ((forEach (lowerBlock config function crossing) blocks).run env).lines := by
  rw [(lines_diagnostics_forEach _ _ _).1, blocksTrace, List.map_flatMap]
  apply List.flatMap_congr
  intro v visited
  exact map_line_blockTrace (wellFormed v.1 (mem_of_mem_visits visited))

/-- What a trace tells about the frame: a name is reached at its slot only, every slot has
been written, and nothing is read before it was written. -/
structure Tracked (config : Config) (trace : List Attributed) (env : Env) : Prop where
  named : ∀ x ∈ trace, ∀ offset, x.line.Reaches config.stackRegister offset →
    ∃ name, x.name? = some name ∧ env.frame.offset? name = some offset
  saved : ∀ name offset, env.frame.offset? name = some offset →
    ∃ x ∈ trace, x.line.SavesAt config.stackRegister offset
  ordered : ∀ past x, past ++ [x] <+: trace → ∀ offset,
    x.line.LoadsAt config.stackRegister offset →
    ∃ y ∈ past, y.line.SavesAt config.stackRegister offset

/-- At the start of a function there is nothing to tell. -/
theorem tracked_nil (empty : env.frame.slots = []) : Tracked config [] env where
  named := by simp
  saved := by simp [Frame.offset?, empty]
  ordered := by simp

namespace Tracked

variable {env' : Env} {trace : List Attributed}

theorem of_frame_eq (tracked : Tracked config trace env) (frame_eq : env'.frame = env.frame) :
    Tracked config trace env' := by
  obtain ⟨named, saved, ordered⟩ := tracked
  exact ⟨by rwa [frame_eq], by rwa [frame_eq], ordered⟩

/-- Lines that do not reach the stack change nothing. -/
theorem append_free {lines : List Attributed} (tracked : Tracked config trace env)
    (free : ∀ x ∈ lines, ∀ offset, ¬ x.line.Reaches config.stackRegister offset) :
    Tracked config (trace ++ lines) env := by
  induction lines generalizing trace with
  | nil => rwa [List.append_nil]
  | cons x rest ih =>
    rw [List.forall_mem_cons] at free
    rw [List.append_cons]
    refine ih ⟨?_, ?_, ?_⟩ free.2
    · rw [List.forall_mem_append, List.forall_mem_singleton]
      exact ⟨tracked.named, fun offset reaches => absurd reaches (free.1 offset)⟩
    · intro name offset hasSlot
      obtain ⟨y, inTrace, saves⟩ := tracked.saved name offset hasSlot
      exact ⟨y, List.mem_append_left _ inTrace, saves⟩
    · intro past y isPrefix offset loads
      rcases List.prefix_concat_iff.mp isPrefix with whole | earlier
      · obtain ⟨-, same⟩ := List.append_inj' whole rfl
        cases same
        exact absurd (.inl loads) (free.1 offset)
      · exact tracked.ordered past y earlier offset loads

/-- The slot of a name may be read, since it was written. -/
theorem append_load {l : Line} {name : String} {offset : Int64} (tracked : Tracked config trace env)
    (hasSlot : env.frame.offset? name = some offset)
    (loads : l.LoadsAt config.stackRegister offset) :
    Tracked config (trace ++ [⟨some name, l⟩]) env where
  named := by
    rw [List.forall_mem_append, List.forall_mem_singleton]
    refine ⟨tracked.named, fun offset' reaches => ⟨name, rfl, ?_⟩⟩
    rw [loads.offset_eq reaches, hasSlot]
  saved := by
    intro other offset' hasSlot'
    obtain ⟨y, inTrace, saves⟩ := tracked.saved other offset' hasSlot'
    exact ⟨y, List.mem_append_left _ inTrace, saves⟩
  ordered := by
    intro past y isPrefix offset' loads'
    rcases List.prefix_concat_iff.mp isPrefix with whole | earlier
    · obtain ⟨rfl, same⟩ := List.append_inj' whole rfl
      cases same
      rw [loads.offset_eq (.inl loads')]
      exact tracked.saved name offset hasSlot
    · exact tracked.ordered past y earlier offset' loads'

/-- A name that is saved keeps its slot, or gets one that it shares with nobody. -/
theorem append_save {l : Line} {name : String} {offset : Int64} (tracked : Tracked config trace env)
    (aligned : env.frame.Aligned) (given : env.slotFor name = .ok (offset, env'))
    (saves : l.SavesAt config.stackRegister offset) :
    Tracked config (trace ++ [⟨some name, l⟩]) env' := by
  obtain ⟨frame, given', rfl⟩ := Env.slotFor_eq_ok given
  obtain ⟨-, hasSlot, others⟩ := aligned.toWellFormed.slotFor given'
  refine ⟨?_, ?_, ?_⟩
  · rw [List.forall_mem_append, List.forall_mem_singleton]
    constructor
    · intro x inTrace offset' reaches
      obtain ⟨other, isFor, had⟩ := tracked.named x inTrace offset' reaches
      exact ⟨other, isFor, Frame.offset?_of_slotFor given' had⟩
    · intro offset' reaches
      rw [saves.offset_eq reaches]
      exact ⟨name, rfl, hasSlot⟩
  · intro other offset' hasSlot'
    by_cases same : other = name
    · subst same
      obtain rfl : offset = offset' := Option.some.inj (hasSlot.symm.trans hasSlot')
      exact ⟨_, List.mem_append_right _ List.mem_cons_self, saves⟩
    · obtain ⟨y, inTrace, saves'⟩ := tracked.saved other offset' (others other same ▸ hasSlot')
      exact ⟨y, List.mem_append_left _ inTrace, saves'⟩
  · intro past y isPrefix offset' loads
    rcases List.prefix_concat_iff.mp isPrefix with whole | earlier
    · obtain ⟨-, same⟩ := List.append_inj' whole rfl
      cases same
      exact absurd saves loads.not_savesAt
    · exact tracked.ordered past y earlier offset' loads

/-- What a task does to the frame, its lines tell. -/
theorem append_use {name? : Option String} {lines : List Line} {ds : Diagnostics}
    (tracked : Tracked config trace env) (laid : Laid config env)
    (uses : UsesFrame config env name? lines ds env')
    (lenient : config.feature .strict = false) (warns : config.warning .unresolved = true)
    (quiet : ∀ d ∈ ds, d.flag ≠ "unresolved") :
    Tracked config (trace ++ lines.map (Attributed.mk name?)) env' := by
  cases uses with
  | not frame_eq free =>
    refine (tracked.append_free ?_).of_frame_eq frame_eq
    rintro x inLines offset
    obtain ⟨l, isLine, rfl⟩ := List.mem_map.mp inLines
    exact free l isLine offset
  | load isFor hasSlot loads =>
    subst isFor
    exact tracked.append_load hasSlot loads
  | save isFor given saves =>
    subst isFor
    exact tracked.append_save laid.aligned given saves
  | missing config_eq loads =>
    exfalso
    subst config_eq
    simp [Site.reports, lenient, warns] at quiet

end Tracked

/-- What is kept while the blocks of a function are lowered, with the trace and the
diagnostics so far. -/
structure Disciplined (config : Config) (trace : List Attributed) (ds : Diagnostics) (env : Env) :
    Prop where
  laid : Laid config env
  not_writes : ∀ x ∈ trace, ¬ x.line.Writes config.stackRegister
  fits : ∀ x ∈ trace, ∀ offset, x.line.Reaches config.stackRegister offset →
    Frame.Fits config.frameSize offset
  tracked : (∀ d ∈ ds, d.flag ≠ "unresolved") → Tracked config trace env

namespace Disciplined

variable {trace : List Attributed} {ds : Diagnostics}

/-- A line that leaves the stack and its register alone. -/
theorem append_free {x : Attributed} (disciplined : Disciplined config trace ds env)
    (not_writes : ¬ x.line.Writes config.stackRegister)
    (free : ∀ offset, ¬ x.line.Reaches config.stackRegister offset) :
    Disciplined config (trace ++ [x]) ds env where
  laid := disciplined.laid
  not_writes := by
    rw [List.forall_mem_append, List.forall_mem_singleton]
    exact ⟨disciplined.not_writes, not_writes⟩
  fits := by
    rw [List.forall_mem_append, List.forall_mem_singleton]
    exact ⟨disciplined.fits, fun offset reaches => absurd reaches (free offset)⟩
  tracked := fun quiet =>
    (disciplined.tracked quiet).append_free (List.forall_mem_singleton.mpr free)

/-- One task. -/
theorem task {t : Task} (disciplined : Disciplined config trace ds env) (chosen : config.Chosen)
    (config_eq : t.site.config = config) (free : config.stackRegister ∉ t.targets)
    (succeeds : (t.emit.run env).outcome = .ok ()) :
    Disciplined config
      (trace ++ (t.emit.run env).lines.map (Attributed.mk t.action.name?))
      (ds ++ (t.emit.run env).diagnostics) (t.emit.run env).env := by
  have performs := Task.performs succeeds
  have uses := performs.usesFrame (by rwa [config_eq])
  rw [config_eq] at uses
  constructor
  · exact uses.laid disciplined.laid
  · rw [List.forall_mem_append, List.forall_mem_map]
    refine ⟨disciplined.not_writes, fun l inLines writes => ?_⟩
    exact free (performs.mem_targets inLines writes)
  · rw [List.forall_mem_append, List.forall_mem_map]
    refine ⟨disciplined.fits, fun l inLines offset reaches => ?_⟩
    have positive := chosen.usable.frameSize_pos
    have whole := chosen.dvd_frameSize
    exact uses.fits disciplined.laid (by omega) inLines reaches
  · intro quiet
    rw [List.forall_mem_append] at quiet
    exact (disciplined.tracked quiet.1).append_use disciplined.laid uses
      (by rw [chosen.switches.1]; rfl) (by rw [chosen.switches.2]; rfl) quiet.2

/-- A loop, from what each of its steps keeps. -/
theorem loop {α : Type} {step : α → Emit Unit} {traceOf : α × Env → List Attributed}
    {members : List α}
    (each : ∀ a ∈ members, ∀ {trace ds env}, Disciplined config trace ds env →
      ((step a).run env).outcome = .ok () →
      Disciplined config (trace ++ traceOf (a, env)) (ds ++ ((step a).run env).diagnostics)
        ((step a).run env).env)
    (disciplined : Disciplined config trace ds env)
    (succeeds : ((forEach step members).run env).outcome = .ok ()) :
    Disciplined config (trace ++ (visits step members env).flatMap traceOf)
      (ds ++ ((forEach step members).run env).diagnostics) ((forEach step members).run env).env := by
  induction members generalizing trace ds env with
  | nil =>
    show Disciplined config (trace ++ []) (ds ++ []) env
    rwa [List.append_nil, List.append_nil]
  | cons a rest ih =>
    rw [List.forall_mem_cons] at each
    rw [forEach] at succeeds ⊢
    obtain ⟨_, here, later⟩ := outcome_bind_eq_ok succeeds
    have next := ih each.2 (each.1 disciplined here) later
    rw [run_bind_of_ok here, visits_of_ok here, List.flatMap_cons]
    rwa [List.append_assoc, List.append_assoc] at next

/-- Tasks in a row. -/
theorem tasks {members : List Task} (chosen : config.Chosen)
    (free : ∀ t ∈ members, t.site.config = config ∧ config.stackRegister ∉ t.targets)
    (disciplined : Disciplined config trace ds env)
    (succeeds : ((forEach Task.emit members).run env).outcome = .ok ()) :
    Disciplined config (trace ++ taskTrace members env)
      (ds ++ ((forEach Task.emit members).run env).diagnostics)
      ((forEach Task.emit members).run env).env :=
  loop (fun t isTask _ _ _ disciplined here =>
    disciplined.task chosen (free t isTask).1 (free t isTask).2 here) disciplined succeeds

/-- A block. -/
theorem block (chosen : config.Chosen) (wellFormed : ∀ i ∈ b.body, i.WellFormed)
    (disciplined : Disciplined config trace ds env)
    (succeeds : ((lowerBlock config function crossing b).run env).outcome = .ok ()) :
    Disciplined config (trace ++ blockTrace config function crossing b env)
      (ds ++ ((lowerBlock config function crossing b).run env).diagnostics)
      ((lowerBlock config function crossing b).run env).env := by
  cases entered : Site.ofBlock config function crossing env b with
  | error fault =>
    rw [run_lowerBlock_of_error wellFormed entered] at succeeds
    cases succeeds
  | ok site =>
    have labelled : Disciplined config
        (trace ++ [{ name? := none, line := { stmt := .label b.label } }]) ds env := by
      apply disciplined.append_free
      · rintro ⟨i, ⟨⟩, -⟩
      · rintro offset (⟨rd, ⟨⟩⟩ | ⟨rs, ⟨⟩⟩)
    rw [run_lowerBlock_of_ok wellFormed entered] at succeeds ⊢
    have next := labelled.tasks chosen
      (fun t isTask => Site.stack_not_mem_targets chosen.usable entered isTask) succeeds
    rw [blockTrace, entered]
    rwa [List.append_assoc] at next

/-- Blocks in a row. -/
theorem blocks {members : List Block} (chosen : config.Chosen)
    (wellFormed : ∀ b ∈ members, ∀ i ∈ b.body, i.WellFormed)
    (disciplined : Disciplined config trace ds env)
    (succeeds :
      ((forEach (lowerBlock config function crossing) members).run env).outcome = .ok ()) :
    Disciplined config (trace ++ blocksTrace config function crossing members env)
      (ds ++ ((forEach (lowerBlock config function crossing) members).run env).diagnostics)
      ((forEach (lowerBlock config function crossing) members).run env).env :=
  loop (fun b isBlock _ _ _ disciplined here =>
    disciplined.block chosen (wellFormed b isBlock) here) disciplined succeeds

end Disciplined

/-- The frame is closed by as much as it was opened. -/
theorem stack_of_runToExit? {f : Func} {body : List Line} {m final : Machine} {top : Int}
    (usable : config.Usable) (noExit : ∀ l ∈ body, l.isExit = false)
    (not_writes : ∀ l ∈ body, ¬ l.Writes config.stackRegister)
    (stack_eq : m.registers config.stackRegister = .stack top)
    (exited : m.runToExit? (prologue config f ++ body ++ epilogue config) = some final) :
    final.registers config.stackRegister = .stack top := by
  have cancels : top + (-config.frameSize).toInt + config.frameSize.toInt = top := by
    have upper := config.frameSize.toInt_lt
    have positive := usable.frameSize_pos
    rw [Int64.toInt_neg, Int.bmod_eq_of_le (by omega) (by omega)]
    omega
  rw [List.append_assoc,
    Machine.runToExit?_append_eq_bind (by simp [prologue, Line.isExit])] at exited
  obtain ⟨opened, opens, exited⟩ := Option.bind_eq_some_iff.mp exited
  rw [Machine.runToExit?_append_eq_bind noExit] at exited
  obtain ⟨closed, executed, exited⟩ := Option.bind_eq_some_iff.mp exited
  have opened_eq : opened.registers config.stackRegister =
      .stack (top + (-config.frameSize).toInt) := by
    obtain rfl :
        m.set config.stackRegister (.stack (top + (-config.frameSize).toInt)) = opened := by
      simpa [prologue, Machine.executeAll?, Machine.execute?, stack_eq] using opens
    exact Machine.set_registers_self _ _ _
  have closed_eq : closed.registers config.stackRegister =
      .stack (top + (-config.frameSize).toInt) :=
    (Machine.registers_of_executeAll? not_writes executed).trans opened_eq
  obtain rfl : (closed.set config.stackRegister (.stack top)).set config.syscallRegister
      (.word config.exitSyscall) = final := by
    simpa [epilogue, Machine.runToExit?, Machine.execute?, closed_eq, cancels, -Int64.toInt_neg]
      using exited
  rw [Machine.set_registers_of_ne _ _ usable.stack_ne_syscall, Machine.set_registers_self]

/-- **Stack discipline.** Let the pool of registers and the size of the frames be chosen in
any way, and let a module be lowered. The code of a function is that of its blocks between
its prologue and its epilogue. It does not write the stack register, so running the routine
ends with the stack where it was; and it reaches the stack only at words inside the frame.
If no name of the function was reported to be without a place, every name has a slot of its
own, at which alone it is reached, and no slot is read before it was written. -/
theorem lowerModule_keeps_stack_discipline {source : IR.Module} {program : Asm.Program}
    {ds : Diagnostics} {k : Nat} {f : Func} (chosen : config.Chosen)
    (lowered : lowerModule config source = (.ok program, ds))
    (isFunc : source.funcs[k]? = some f) :
    ds = source.funcs.flatMap (fun f => (funcCode config source f).diagnostics) ∧
    ∃ trace : List Attributed,
      trace = blocksTrace config f.name (Alloc.crossing f) f.blocks (entryEnv config source) ∧
      program.routines[k]? =
        some (prologue config f ++ trace.map Attributed.line ++ epilogue config) ∧
      (∀ x ∈ trace, ¬ x.line.Writes config.stackRegister) ∧
      (∀ (m final : Machine) top, m.registers config.stackRegister = .stack top →
        m.runToExit? (prologue config f ++ trace.map Attributed.line ++ epilogue config) =
          some final → final.registers config.stackRegister = .stack top) ∧
      (∀ x ∈ trace, ∀ offset, x.line.Reaches config.stackRegister offset →
        4 ∣ offset.toInt ∧ 0 ≤ offset.toInt ∧ offset.toInt ≤ config.frameSize.toInt - 4) ∧
      ((∀ d ∈ (funcCode config source f).diagnostics, d.flag ≠ "unresolved") →
        (∃ home : String → Option Int64,
          (∀ name name' offset, home name = some offset → home name' = some offset →
            name = name') ∧
          ∀ x ∈ trace, ∀ offset, x.line.Reaches config.stackRegister offset →
            ∃ name, x.name? = some name ∧ home name = some offset) ∧
        ∀ past x later offset, trace = past ++ x :: later →
          x.line.LoadsAt config.stackRegister offset →
          ∃ y ∈ past, y.line.SavesAt config.stackRegister offset) := by
  have validates : config.feature .validate = true := by rw [chosen.switches.1]; rfl
  obtain ⟨valid, succeed, routines_eq, ds_eq⟩ := lowerModule_separates validates lowered
  have inModule := List.mem_of_getElem? isFunc
  obtain ⟨blocks_ok, lines_eq, reported⟩ := funcCode_eq_blocksCode (succeed f inModule)
  have wellFormed := valid.wellFormed_body inModule
  have start : Disciplined config [] [] (entryEnv config source) :=
    ⟨⟨Frame.aligned_ofSize chosen.usable.frameSize_pos.le chosen.dvd_frameSize, rfl⟩, by simp,
      by simp, fun _ => tracked_nil rfl⟩
  have disciplined := start.blocks chosen wellFormed blocks_ok
  rw [List.nil_append, List.nil_append] at disciplined
  have code_eq : (blocksTrace config f.name (Alloc.crossing f) f.blocks
      (entryEnv config source)).map Attributed.line = (blocksCode config source f).lines :=
    map_line_blocksTrace wellFormed
  refine ⟨ds_eq, _, rfl, ?_, disciplined.not_writes, ?_, disciplined.fits, ?_⟩
  · rw [routines_eq, List.getElem?_map, isFunc, code_eq, Option.map_some, lines_eq]
  · intro m final top
    apply stack_of_runToExit? chosen.usable
    · rw [code_eq]
      exact (confined_forEach (fun b => confined_lowerBlock) f.blocks _).1
    · exact List.forall_mem_map.mpr disciplined.not_writes
  · intro quiet
    obtain ⟨named, -, ordered⟩ := disciplined.tracked fun d isReported =>
      quiet d (reported.subset isReported)
    refine ⟨⟨_, disciplined.laid.aligned.injective, named⟩, ?_⟩
    rintro past x later offset trace_eq
    exact ordered past x ⟨later, by rw [trace_eq, List.append_assoc]; rfl⟩ offset

/-- With a single register the values of that function go through slots, and each has its
own. -/
theorem lowerModule_keeps_stack_discipline_crowded :
    Config.Chosen { registers := ["s1"] } ∧
    (∀ d ∈ (funcCode { registers := ["s1"] } crowded crowdedMain).diagnostics,
      d.flag ≠ "unresolved") ∧
    ∃ program ds, lowerModule { registers := ["s1"] } crowded = (.ok program, ds) ∧
      ∃ (trace : List Attributed) (home : String → Option Int64),
        program.routines[0]? = some (prologue { registers := ["s1"] } crowdedMain ++
          trace.map Attributed.line ++ epilogue { registers := ["s1"] }) ∧
        (∀ name name' offset, home name = some offset → home name' = some offset →
          name = name') ∧
        (∀ x ∈ trace, ∀ offset, x.line.Reaches "sp" offset →
          ∃ name, x.name? = some name ∧ home name = some offset) ∧
        ∀ past x later offset, trace = past ++ x :: later → x.line.LoadsAt "sp" offset →
          ∃ y ∈ past, y.line.SavesAt "sp" offset := by
  have chosen : Config.Chosen { registers := ["s1"] } :=
    .registers .default (show Config.setRegisters {} ["s1"] = _ from rfl)
  have silent : (funcCode { registers := ["s1"] } crowded crowdedMain).diagnostics = [] := by
    simp only [funcCode, crowdedMain, Emit.forEach, lowerFunc, lowerBlock, Alloc.allocate,
      Alloc.assign, scanOrder_blockTable]
    decide +kernel
  have quiet : ∀ d ∈ (funcCode { registers := ["s1"] } crowded crowdedMain).diagnostics,
      d.flag ≠ "unresolved" := by simp [silent]
  have lowers : (lowerModule { registers := ["s1"] } crowded).1.toOption.isSome = true := by
    simp only [lowerModule, Lowering.addModule, crowded, crowdedMain, Emit.forEach, lowerFunc,
      lowerBlock, Alloc.allocate, Alloc.assign, scanOrder_blockTable]
    decide +kernel
  cases lowered : lowerModule { registers := ["s1"] } crowded with
  | mk result ds =>
    rw [lowered] at lowers
    cases result with
    | error fault => cases lowers
    | ok program =>
      obtain ⟨-, trace, -, isRoutine, -, -, -, noName⟩ :=
        lowerModule_keeps_stack_discipline chosen lowered
          (show crowded.funcs[0]? = some crowdedMain from rfl)
      obtain ⟨⟨home, injective, named⟩, ordered⟩ := noName quiet
      exact ⟨chosen, quiet, program, ds, rfl, trace, home, isRoutine, injective, named, ordered⟩

end RiscBackend.Lower
