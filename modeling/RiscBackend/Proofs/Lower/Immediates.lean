/-
# The constants inside of instructions

Three kinds of instructions carry a constant: loads, stores, and the additions that open and
close a frame. An instruction has twelve bits for it. The offsets of loads and stores are those
of words inside a frame, and a frame is opened and closed by its whole size, so the size of the
frames alone decides whether all constants fit. It is accepted without an upper bound, and the
first size that is too large is 2048: the frame can be opened, and it cannot be closed.
-/

import RiscBackend.Proofs.Lower.Slots

namespace RiscBackend

namespace Asm

/-- The constant that an instruction carries. -/
def Instr.immediate? : Instr → Option Int64
  | lw _ offset _ | sw _ offset _ => some offset
  | addi _ _ value => some value
  | _ => none

/-- The constant in the instruction of a line. -/
def Line.immediate? (l : Line) : Option Int64 :=
  match l.stmt with
  | .instr i => i.immediate?
  | _ => none

theorem Line.immediate?_of_ne_instr {l : Line} (notInstr : ∀ i, l.stmt ≠ .instr i) :
    l.immediate? = none := by
  rw [Line.immediate?]
  split
  · rename_i i isInstr
    exact absurd isInstr (notInstr i)
  · rfl

/-- A signed field of twelve bits can hold the value. -/
def Encodable (value : Int64) : Prop :=
  -2048 ≤ value.toInt ∧ value.toInt ≤ 2047

instance (value : Int64) : Decidable (Encodable value) :=
  inferInstanceAs (Decidable (_ ∧ _))

/-- A constant stands in an addition, or it is the offset of a load or a store. -/
theorem Line.immediate?_eq_some {l : Line} {value : Int64} (carries : l.immediate? = some value) :
    (∃ rd rs, l.stmt = .instr (.addi rd rs value)) ∨ ∃ base, l.Reaches base value := by
  rw [Line.immediate?] at carries
  split at carries
  · rename_i i isInstr
    cases i with
    | addi rd rs _ =>
      cases carries
      exact .inl ⟨rd, rs, isInstr⟩
    | lw rd _ base =>
      cases carries
      exact .inr ⟨base, .inl ⟨rd, isInstr⟩⟩
    | sw rs _ base =>
      cases carries
      exact .inr ⟨base, .inr ⟨rs, isInstr⟩⟩
    | _ => cases carries
  · cases carries

end Asm

namespace Lower

open IR (Block Func Global)
open Asm (Line Instr Encodable)
open Emit

/-- A line of the code between the two ends of a function: it reaches words inside the frame
only, it adds no constant, and its instruction is one of those with a fixed form. -/
structure Inner (size : Int64) (l : Line) : Prop where
  fits : ∀ base offset, l.Reaches base offset → Frame.Fits size offset
  not_addi : ∀ rd rs value, l.stmt ≠ .instr (.addi rd rs value)
  not_plain : ∀ mnemonic operands, l.stmt ≠ .instr (.plain mnemonic operands)

namespace Inner

variable {size offset : Int64} {l : Line}

theorem of_loadsAt {base : String} (loads : l.LoadsAt base offset)
    (fits : Frame.Fits size offset) : Inner size l where
  fits := fun _ _ reaches => loads.offset_eq reaches ▸ fits
  not_addi := by
    obtain ⟨rd, isLoad⟩ := loads
    simp [isLoad]
  not_plain := by
    obtain ⟨rd, isLoad⟩ := loads
    simp [isLoad]

theorem of_savesAt {base : String} (saves : l.SavesAt base offset)
    (fits : Frame.Fits size offset) : Inner size l where
  fits := fun _ _ reaches => saves.offset_eq reaches ▸ fits
  not_addi := by
    obtain ⟨rs, isSave⟩ := saves
    simp [isSave]
  not_plain := by
    obtain ⟨rs, isSave⟩ := saves
    simp [isSave]

/-- A line without a constant. -/
theorem of_immediate?_eq_none (carriesNone : l.immediate? = none)
    (not_plain : ∀ mnemonic operands, l.stmt ≠ .instr (.plain mnemonic operands)) :
    Inner size l where
  fits := by
    rintro base offset (⟨rd, isLoad⟩ | ⟨rs, isSave⟩)
    · simp [Line.immediate?, Instr.immediate?, isLoad] at carriesNone
    · simp [Line.immediate?, Instr.immediate?, isSave] at carriesNone
  not_addi := by
    intro rd rs value isAdd
    simp [Line.immediate?, Instr.immediate?, isAdd] at carriesNone
  not_plain := not_plain

/-- A line without an instruction. -/
theorem of_ne_instr (notInstr : ∀ i, l.stmt ≠ .instr i) : Inner size l :=
  .of_immediate?_eq_none (Line.immediate?_of_ne_instr notInstr) fun _ _ => notInstr _

end Inner

variable {config : Config}

/-- Whatever a task does, the frame stays in order and its lines stay inside. -/
theorem Site.Performs.inner {site : Site} {env env' : Env} {a : Action} {lines : List Line}
    {ds : Diagnostics} (performs : site.Performs env a lines ds env') (laid : Laid config env)
    (room : 4 ≤ config.frameSize.toInt) :
    Laid config env' ∧ ∀ l ∈ lines, Inner config.frameSize l := by
  have atZero := Frame.fits_zero room
  cases performs with
  | skip | reloadNothing | putUnknown => exact ⟨laid, by simp⟩
  | declare => exact ⟨⟨laid.aligned, laid.size_eq⟩, by simp⟩
  | spill iv given | writeBack iv given =>
    obtain ⟨laid', fits⟩ := laid.slotFor given
    exact ⟨laid', List.forall_mem_singleton.mpr (.of_savesAt ⟨_, rfl⟩ fits)⟩
  | putSlot puts found given =>
    obtain ⟨laid', fits⟩ := laid.slotFor given
    exact ⟨laid', List.forall_mem_singleton.mpr (.of_savesAt ⟨_, rfl⟩ fits)⟩
  | reload iv hasSlot =>
    exact ⟨laid, List.forall_mem_singleton.mpr (.of_loadsAt ⟨_, rfl⟩ (laid.fits hasSlot))⟩
  | readSlot rd isLocal found hasSlot =>
    exact ⟨laid, List.forall_mem_singleton.mpr (.of_loadsAt ⟨_, rfl⟩ (laid.fits hasSlot))⟩
  | readNothing =>
    exact ⟨laid, List.forall_mem_singleton.mpr (.of_loadsAt ⟨_, rfl⟩ atZero)⟩
  | readConst | readRegister | readUnknown | compute | putRegister =>
    exact ⟨laid, List.forall_mem_singleton.mpr
      (.of_immediate?_eq_none rfl (by simp [Line.ofInstr]))⟩
  | readGlobal =>
    refine ⟨laid, List.forall_mem_cons.mpr ⟨.of_immediate?_eq_none rfl ?_, ?_⟩⟩
    · simp [Line.ofInstr]
    · exact List.forall_mem_singleton.mpr (.of_loadsAt ⟨_, rfl⟩ atZero)
  | assignGlobal =>
    refine ⟨laid, List.forall_mem_cons.mpr ⟨.of_immediate?_eq_none rfl ?_, ?_⟩⟩
    · simp [Line.ofInstr]
    · exact List.forall_mem_singleton.mpr (.of_savesAt ⟨_, rfl⟩ atZero)

/-- A step that leaves a frame in order and the lines of which stay inside, if it succeeds. -/
def StaysInside (config : Config) (step : Emit Unit) : Prop :=
  ∀ env, Laid config env → (step.run env).outcome = .ok () →
    Laid config (step.run env).env ∧ ∀ l ∈ (step.run env).lines, Inner config.frameSize l

theorem staysInside_forEach {α : Type} {step : α → Emit Unit} {members : List α}
    (inside : ∀ a ∈ members, StaysInside config (step a)) :
    StaysInside config (forEach step members) := by
  intro env laid succeeds
  have keeps : ∀ a ∈ members, ∀ env, Laid config env → ((step a).run env).outcome = .ok () →
      Laid config ((step a).run env).env :=
    fun a isMember env laid succeeds => (inside a isMember env laid succeeds).1
  refine ⟨keeps_forEach _ keeps laid succeeds, fun l isLine => ?_⟩
  rw [(lines_diagnostics_forEach _ _ _).1] at isLine
  obtain ⟨v, visited, isLine⟩ := List.mem_flatMap.mp isLine
  exact (inside v.1 (mem_of_mem_visits visited) v.2 (kept_of_mem_visits _ keeps laid visited)
    (ok_of_mem_visits succeeds visited)).2 l isLine

theorem staysInside_lowerBlock {function : String} {crossing : List String} {b : Block}
    (room : 4 ≤ config.frameSize.toInt) (wellFormed : ∀ i ∈ b.body, i.WellFormed) :
    StaysInside config (lowerBlock config function crossing b) := by
  intro env laid succeeds
  cases entered : Site.ofBlock config function crossing env b with
  | error fault =>
    rw [run_lowerBlock_of_error wellFormed entered] at succeeds
    cases succeeds
  | ok site =>
    rw [run_lowerBlock_of_ok wellFormed entered] at succeeds ⊢
    have tasks : StaysInside config (forEach Task.emit (site.blockTasks b)) :=
      staysInside_forEach fun t _ env laid succeeds => (Task.performs succeeds).inner laid room
    obtain ⟨laid', inside⟩ := tasks env laid succeeds
    refine ⟨laid', List.forall_mem_cons.mpr ⟨.of_ne_instr (by simp), inside⟩⟩

variable {source : IR.Module}

/-- The blocks of a function stay inside its frame. -/
theorem inner_blocksCode {f : Func} (room : 4 ≤ config.frameSize.toInt)
    (whole : 4 ∣ config.frameSize.toInt)
    (wellFormed : ∀ b ∈ f.blocks, ∀ i ∈ b.body, i.WellFormed)
    (succeeds : (blocksCode config source f).outcome = .ok ()) :
    ∀ l ∈ (blocksCode config source f).lines, Inner config.frameSize l := by
  have start : Laid config (entryEnv config source) :=
    ⟨Frame.aligned_ofSize (by show 0 ≤ config.frameSize.toInt; omega) whole, rfl⟩
  exact (staysInside_forEach (fun b isBlock => staysInside_lowerBlock room (wellFormed b isBlock))
    _ start succeeds).2

/-- The line by which a function moves the stack register. -/
def frameLine (config : Config) (value : Int64) : Line :=
  .ofInstr (.addi config.stackRegister config.stackRegister value)

/-- A line of a program: it stays inside a frame, or it opens one or closes one. -/
inductive Framed (config : Config) (l : Line) : Prop
  | inner (inner : Inner config.frameSize l)
  | opens (isOpen : l = frameLine config (-config.frameSize))
  | closes (isClose : l = frameLine config config.frameSize)

namespace Framed

variable {l : Line}

theorem not_plain (framed : Framed config l) (mnemonic : String) (operands : List String) :
    l.stmt ≠ .instr (.plain mnemonic operands) := by
  cases framed with
  | inner inner => exact inner.not_plain mnemonic operands
  | opens isOpen => simp [isOpen, frameLine, Line.ofInstr]
  | closes isClose => simp [isClose, frameLine, Line.ofInstr]

/-- Nothing but the size of a frame is added. -/
theorem addi_eq (framed : Framed config l) {rd rs : String} {value : Int64}
    (isAdd : l.stmt = .instr (.addi rd rs value)) :
    value = -config.frameSize ∨ value = config.frameSize := by
  cases framed with
  | inner inner => exact absurd isAdd (inner.not_addi rd rs value)
  | opens isOpen =>
    subst isOpen
    cases isAdd
    exact .inl rfl
  | closes isClose =>
    subst isClose
    cases isAdd
    exact .inr rfl

/-- Nothing but words inside a frame is reached. -/
theorem fits (framed : Framed config l) {register : String} {offset : Int64}
    (reaches : l.Reaches register offset) : Frame.Fits config.frameSize offset := by
  cases framed with
  | inner inner => exact inner.fits register offset reaches
  | opens isOpen =>
    subst isOpen
    obtain ⟨_, ⟨⟩⟩ | ⟨_, ⟨⟩⟩ := reaches
  | closes isClose =>
    subst isClose
    obtain ⟨_, ⟨⟩⟩ | ⟨_, ⟨⟩⟩ := reaches

/-- In a frame that is small enough all constants fit. -/
theorem encodable (framed : Framed config l) (positive : 0 < config.frameSize.toInt)
    (small : config.frameSize.toInt < 2048) {value : Int64} (carries : l.immediate? = some value) :
    Encodable value := by
  have negated : (-config.frameSize).toInt = -config.frameSize.toInt := by
    rw [Int64.toInt_neg, Int.bmod_eq_of_le (by omega) (by omega)]
  rcases Line.immediate?_eq_some carries with ⟨rd, rs, isAdd⟩ | ⟨register, reaches⟩
  · rcases framed.addi_eq isAdd with rfl | rfl
    · exact ⟨by omega, by omega⟩
    · exact ⟨by omega, by omega⟩
  · obtain ⟨-, lower, upper⟩ := framed.fits reaches
    exact ⟨by omega, by omega⟩

end Framed

/-- There is no instruction before the code of the functions. -/
theorem header_ne_instr (globals : List Global) :
    ∀ l ∈ header globals, ∀ i, l.stmt ≠ .instr i := by
  have inData : ∀ l ∈ globals.flatMap globalLines, ∀ i, l.stmt ≠ .instr i := by
    intro l isLine
    obtain ⟨g, -, ofGlobal⟩ := List.mem_flatMap.mp isLine
    rw [globalLines, List.mem_pair] at ofGlobal
    rcases ofGlobal with rfl | rfl
    · simp
    · simp
  rw [header, List.forall_mem_append]
  constructor
  · split
    · simp
    · exact List.forall_mem_cons.mpr ⟨by simp, inData⟩
  · simp

/-- A function opens its frame, stays inside, and closes it. -/
theorem framed_funcCode {f : Func}
    (inside : ∀ l ∈ (blocksCode config source f).lines, Inner config.frameSize l) :
    ∀ l ∈ prologue config f ++ (blocksCode config source f).lines ++ epilogue config,
      Framed config l := by
  simp only [prologue, epilogue, List.forall_mem_append, List.forall_mem_cons]
  refine ⟨⟨⟨?_, ?_, by simp⟩, ?_⟩, ?_, ?_, ?_, by simp⟩
  · exact .inner (.of_ne_instr (by simp))
  · exact .opens rfl
  · exact fun l isLine => .inner (inside l isLine)
  · exact .closes rfl
  · exact .inner (.of_immediate?_eq_none rfl (by simp [Line.ofInstr]))
  · exact .inner (.of_immediate?_eq_none rfl (by simp [Line.ofInstr]))

variable {program : Asm.Program} {ds : Diagnostics}

/-- So does a program, function by function. -/
theorem framed_of_lowerModule (valid : source.Valid) (room : 4 ≤ config.frameSize.toInt)
    (whole : 4 ∣ config.frameSize.toInt)
    (lowered : lowerModule config source = (.ok program, ds)) :
    ∀ l ∈ program.lines, Framed config l := by
  obtain ⟨succeed, lines_eq⟩ := lines_of_lowerModule valid lowered
  rw [lines_eq, List.forall_mem_append]
  constructor
  · exact fun l inHeader => .inner (.of_ne_instr (header_ne_instr source.globals l inHeader))
  · intro l inFuncs
    obtain ⟨f, isFunc, isLine⟩ := List.mem_flatMap.mp inFuncs
    have wellFormed := valid.wellFormed_body isFunc
    exact framed_funcCode (inner_blocksCode room whole wellFormed (succeed f isFunc)) l isLine

/-- A program with a function has the line that closes a frame. -/
theorem closes_mem_lines {f : Func} (valid : source.Valid) (isFunc : f ∈ source.funcs)
    (lowered : lowerModule config source = (.ok program, ds)) :
    frameLine config config.frameSize ∈ program.lines := by
  rw [(lines_of_lowerModule valid lowered).2]
  apply List.mem_append_right
  apply List.mem_flatMap.mpr
  exact ⟨f, isFunc, List.mem_append_right _ List.mem_cons_self⟩

/-- Without a function there is no constant at all. -/
theorem immediate?_eq_none_of_nil {l : Line} (valid : source.Valid) (noFuncs : source.funcs = [])
    (lowered : lowerModule config source = (.ok program, ds)) (isLine : l ∈ program.lines) :
    l.immediate? = none := by
  rw [(lines_of_lowerModule valid lowered).2, noFuncs, List.flatMap_nil, List.append_nil] at isLine
  exact Line.immediate?_of_ne_instr (header_ne_instr source.globals l isLine)

/-- **When all constants fit.** Let a frame size be accepted, on top of any other settings, and
let a validated module be lowered. No instruction is of the general form. Constants are added
only to open and to close a frame, by its size, and the offsets of loads and stores are those
of words inside a frame. All of these constants fit into their instructions exactly when
the frame is smaller than 2048 bytes, or when there is no function at all. -/
theorem immediates_encodable_iff {base : Config} {size : Int64}
    (set : base.setFrameSize size = .ok config) (validated : source.validate = .ok ())
    (lowered : lowerModule config source = (.ok program, ds)) :
    (∀ l ∈ program.lines, ∀ mnemonic operands, l.stmt ≠ .instr (.plain mnemonic operands)) ∧
      (∀ l ∈ program.lines, ∀ rd rs value, l.stmt = .instr (.addi rd rs value) →
        value = -size ∨ value = size) ∧
      (∀ l ∈ program.lines, ∀ register offset, l.Reaches register offset →
        4 ∣ offset.toInt ∧ 0 ≤ offset.toInt ∧ offset.toInt ≤ size.toInt - 4) ∧
      ((∀ l ∈ program.lines, ∀ value, l.immediate? = some value → Encodable value) ↔
        source.funcs = [] ∨ size.toInt < 2048) := by
  obtain ⟨rfl, positive, whole⟩ := Config.setFrameSize_eq_ok set
  have valid := IR.Module.valid_of_validate validated
  have framed := framed_of_lowerModule valid (show 4 ≤ size.toInt by omega) whole lowered
  refine ⟨?_, ?_, ?_, ?_, ?_⟩
  · exact fun l isLine => (framed l isLine).not_plain
  · exact fun l isLine _ _ _ isAdd => (framed l isLine).addi_eq isAdd
  · exact fun l isLine _ _ reaches => (framed l isLine).fits reaches
  · intro encodable
    cases funcs_eq : source.funcs with
    | nil => exact .inl rfl
    | cons f rest =>
      have isFunc : f ∈ source.funcs := funcs_eq ▸ List.mem_cons_self
      have closing := encodable _ (closes_mem_lines valid isFunc lowered) size rfl
      exact .inr (Int.lt_of_le_of_lt closing.2 (by decide))
  · rintro (noFuncs | small) l isLine value carries
    · cases carries.symm.trans (immediate?_eq_none_of_nil valid noFuncs lowered isLine)
    · exact (framed l isLine).encodable positive small carries

/-- The largest frame that is small enough, with values that go through its slots. -/
theorem immediates_encodable_iff_crowded :
    Config.setFrameSize { registers := ["s1"] } 2044 =
        .ok { registers := ["s1"], frameSize := 2044 } ∧
      crowded.validate = .ok () ∧
      ∃ program ds, lowerModule { registers := ["s1"], frameSize := 2044 } crowded =
          (.ok program, ds) ∧
        program.lines.filterMap Line.immediate? =
          [-2044, 0, 2040, 2040, 2040, 2036, 2040, 2036, 2032, 2032, 0, 2032, 2044] ∧
        ∀ l ∈ program.lines, ∀ value, l.immediate? = some value → Encodable value := by
  have set : Config.setFrameSize { registers := ["s1"] } 2044 =
      .ok { registers := ["s1"], frameSize := 2044 } := rfl
  have validated : crowded.validate = .ok () := by decide
  have constants : (lowerModule { registers := ["s1"], frameSize := 2044 } crowded).1.toOption.map
      (fun program => program.lines.filterMap Line.immediate?) =
        some [-2044, 0, 2040, 2040, 2040, 2036, 2040, 2036, 2032, 2032, 0, 2032, 2044] := by
    simp only [lowerModule, Lowering.addModule, crowded, crowdedMain, Emit.forEach, lowerFunc,
      lowerBlock, Alloc.allocate, Alloc.assign, scanOrder_blockTable]
    decide +kernel
  refine ⟨set, validated, ?_⟩
  cases lowered : lowerModule { registers := ["s1"], frameSize := 2044 } crowded with
  | mk result ds =>
    rw [lowered] at constants
    cases result with
    | error fault => cases constants
    | ok program =>
      obtain ⟨-, -, -, encodable_iff⟩ := immediates_encodable_iff set validated lowered
      exact ⟨program, ds, rfl, Option.some.inj constants, encodable_iff.mpr (.inr (by decide))⟩

/-- A frame size that is accepted and too large. The frame is opened by a constant that still
fits, and closed by one that does not. -/
theorem frame_cannot_be_closed :
    Config.setFrameSize {} 2048 = .ok { frameSize := 2048 } ∧
      crowded.validate = .ok () ∧
      (lowerModule { frameSize := 2048 } crowded).1.toOption.map
        (fun program => (program.lines.filterMap Line.immediate?).filter (¬ Encodable ·)) =
          some [2048] ∧
      Encodable (-2048) := by
  refine ⟨rfl, by decide, ?_, by decide⟩
  simp only [lowerModule, Lowering.addModule, crowded, crowdedMain, Emit.forEach, lowerFunc,
    lowerBlock, Alloc.allocate, Alloc.assign, scanOrder_blockTable]
  decide +kernel

end Lower

end RiscBackend
