/-
# A function around one of its instructions

The code of a function falls into the code up to one of its instructions and the code
after it. If the instruction is the first return, the code up to it follows the
interpreter to the end of its run.
-/

import RiscBackend.Proofs.Lower.Agreement

namespace RiscBackend

open IR (Operand Instruction Block Func Outcome Progress Store)
open Alloc (crossing)
open Asm (Line Machine)

/-- An instruction of a function and what stands around it. -/
structure IR.Func.Cut (f : Func) where
  earlier : List Block
  block : Block
  later : List Block
  done : List Instruction
  here : Instruction
  rest : List Instruction
  blocks_eq : f.blocks = earlier ++ block :: later
  body_eq : block.body = done ++ here :: rest

namespace IR.Func.Cut

variable {f : Func}

/-- The instructions of the function before it. -/
def before (cut : f.Cut) : List Instruction := cut.earlier.flatMap Block.body ++ cut.done

/-- The instructions of the function after it. -/
def after (cut : f.Cut) : List Instruction := cut.rest ++ cut.later.flatMap Block.body

theorem code_eq (cut : f.Cut) : f.code = cut.before ++ cut.here :: cut.after := by
  rw [Func.code, cut.blocks_eq, List.flatMap_append, List.flatMap_cons, cut.body_eq, before, after]
  simp

/-- At the first return the code is cut by its opcodes. -/
theorem dropWhile_code {cut : f.Cut} (isRet : cut.here.opcode = .ret)
    (isFirst : ∀ i ∈ cut.before, i.opcode ≠ .ret) :
    f.code.dropWhile (fun i => i.opcode ≠ .ret) = cut.here :: cut.after := by
  rw [cut.code_eq, List.dropWhile_append_of_pos (by simpa using isFirst),
    List.dropWhile_cons_of_neg (by simpa using isRet)]

/-- A function that returns has a first return. -/
theorem exists_first_return (returns : ∃ i ∈ f.code, i.opcode = .ret) :
    ∃ cut : f.Cut, cut.here.opcode = .ret ∧ ∀ i ∈ cut.before, i.opcode ≠ .ret := by
  obtain ⟨i, inCode, isRet⟩ := returns
  obtain ⟨b, isBlock, inBody⟩ := List.mem_flatMap.mp inCode
  have found : (f.blocks.find? fun b => b.body.any fun i => i.opcode = .ret).isSome := by
    rw [List.find?_isSome]
    exact ⟨b, isBlock, List.any_eq_true.mpr ⟨i, inBody, by simpa using isRet⟩⟩
  obtain ⟨block, isFirst⟩ := Option.isSome_iff_exists.mp found
  obtain ⟨holds, earlier, later, blocks_eq, none⟩ := List.find?_eq_some_iff_append.mp isFirst
  have found' : (block.body.find? fun i => i.opcode = .ret).isSome := by
    rwa [List.find?_isSome, ← List.any_eq_true]
  obtain ⟨here, isFirst'⟩ := Option.isSome_iff_exists.mp found'
  obtain ⟨isRet', done, rest, body_eq, none'⟩ := List.find?_eq_some_iff_append.mp isFirst'
  refine ⟨{ earlier, block, later, done, here, rest, blocks_eq, body_eq },
    by simpa using isRet', ?_⟩
  intro j isEarlier
  rcases List.mem_append.mp isEarlier with inBlocks | isDone
  · obtain ⟨c, isBlock', inBody'⟩ := List.mem_flatMap.mp inBlocks
    have noneHere := none c isBlock'
    simp only [Bool.not_eq_true', List.any_eq_false] at noneHere
    simpa using noneHere j inBody'
  · simpa using none' j isDone

end IR.Func.Cut

namespace Lower

open Emit

variable {config : Config} {source : IR.Module} {f : Func} {b : Block} {site : Site}
  {function : String} {names : List String} {start env : Env}

/-- The tasks of a block from one of its instructions on. -/
def Site.restTasks (site : Site) (b : Block) (done rest : List Instruction) : List Task :=
  Site.tasks { site with position := done.length } rest ++ site.closing b

/-! The code of a function around one of its instructions. -/

section Code

variable (config : Config) (source : IR.Module) (cut : f.Cut)

/-- The blocks before that of the instruction. -/
def Cut.entry : Emission Unit :=
  (forEach (lowerBlock config f.name (crossing f)) cut.earlier).run (entryEnv config source)

/-- The instructions of its block up to and with it. -/
def Cut.reached (site : Site) : Emission Unit :=
  (forEach Task.emit (site.tasks (cut.done ++ [cut.here]))).run (entry config source cut).env

/-- The rest of its block. -/
def Cut.finished (site : Site) : Emission Unit :=
  (forEach Task.emit (site.restTasks cut.block (cut.done ++ [cut.here]) cut.rest)).run
    (reached config source cut site).env

/-- The blocks after it. -/
def Cut.followed (site : Site) : Emission Unit :=
  (forEach (lowerBlock config f.name (crossing f)) cut.later).run
    (finished config source cut site).env

/-- The code of the function up to and with the instruction. -/
def Cut.early : List Line :=
  prologue config f ++ ((entry config source cut).lines ++ { stmt := .label cut.block.label } ::
    match Site.ofBlock config f.name (crossing f) (entry config source cut).env cut.block with
    | .error _ => []
    | .ok site => (reached config source cut site).lines)

/-- The code of the function after the instruction. -/
def Cut.late : List Line :=
  (match Site.ofBlock config f.name (crossing f) (entry config source cut).env cut.block with
    | .error _ => []
    | .ok site =>
      (finished config source cut site).lines ++ (followed config source cut site).lines) ++
    epilogue config

end Code

namespace Cut

variable {cut : f.Cut}

/-- The parts of the code of a function that is lowered. -/
structure Emitted (config : Config) (source : IR.Module) (cut : f.Cut) (site : Site) : Prop where
  entered : Site.ofBlock config f.name (crossing f) (entry config source cut).env cut.block =
    .ok site
  entry_ok : (entry config source cut).outcome = .ok ()
  reached_ok : (reached config source cut site).outcome = .ok ()
  finished_ok : (finished config source cut site).outcome = .ok ()
  followed_ok : (followed config source cut site).outcome = .ok ()
  lines_eq : (blocksCode config source f).lines =
    (entry config source cut).lines ++ { stmt := .label cut.block.label } ::
      ((reached config source cut site).lines ++
        ((finished config source cut site).lines ++ (followed config source cut site).lines))

/-- The tasks of a block, cut after an instruction. -/
theorem blockTasks_eq (entered : Site.ofBlock config function names start cut.block = .ok site) :
    site.blockTasks cut.block = site.tasks (cut.done ++ [cut.here]) ++
      site.restTasks cut.block (cut.done ++ [cut.here]) cut.rest := by
  obtain ⟨_, _, -, rfl⟩ := Site.ofBlock_eq_ok entered
  rw [Site.blockTasks, cut.body_eq, List.append_cons, Site.tasks_append, List.append_assoc,
    Site.restTasks, Nat.zero_add]

theorem exists_emitted (wellFormed : ∀ b ∈ f.blocks, ∀ i ∈ b.body, i.WellFormed)
    (succeeds : (blocksCode config source f).outcome = .ok ()) :
    ∃ site, Emitted config source cut site := by
  have isBlock : cut.block ∈ f.blocks := by simp [cut.blocks_eq]
  rw [blocksCode, cut.blocks_eq, forEach_append] at succeeds
  obtain ⟨_, entry_ok, succeeds⟩ := outcome_bind_eq_ok succeeds
  rw [forEach] at succeeds
  obtain ⟨_, block_ok, followed_ok⟩ := outcome_bind_eq_ok succeeds
  rw [← entry] at block_ok followed_ok
  cases entered :
      Site.ofBlock config f.name (crossing f) (entry config source cut).env cut.block with
  | error fault =>
    rw [run_lowerBlock_of_error (wellFormed _ isBlock) entered] at block_ok
    cases block_ok
  | ok site =>
    have block_eq := run_lowerBlock_of_ok (wellFormed _ isBlock) entered
    rw [blockTasks_eq entered, forEach_append] at block_eq
    have tasks_ok := block_ok
    rw [block_eq] at tasks_ok
    obtain ⟨_, reached_ok, finished_ok⟩ := outcome_bind_eq_ok tasks_ok
    rw [run_bind_of_ok reached_ok] at block_eq
    rw [block_eq] at followed_ok
    refine ⟨site, entered, entry_ok, reached_ok, finished_ok, followed_ok, ?_⟩
    rw [blocksCode, cut.blocks_eq, forEach_append, run_bind_of_ok entry_ok,
      ← entry, forEach, run_bind_of_ok block_ok, block_eq]
    dsimp only
    rw [List.cons_append, List.append_assoc]
    rfl

namespace Emitted

theorem early_eq (emitted : Emitted config source cut site) :
    early config source cut = prologue config f ++ ((entry config source cut).lines ++
      { stmt := .label cut.block.label } :: (reached config source cut site).lines) := by
  rw [early, emitted.entered]

theorem late_eq (emitted : Emitted config source cut site) :
    late config source cut = (finished config source cut site).lines ++
      (followed config source cut site).lines ++ epilogue config := by
  rw [late, emitted.entered]

/-- The two parts are the code of the function. -/
theorem lines_funcCode (emitted : Emitted config source cut site)
    (succeeds : (funcCode config source f).outcome = .ok ()) :
    (funcCode config source f).lines = early config source cut ++ late config source cut := by
  rw [(funcCode_eq_blocksCode succeeds).2.1, emitted.lines_eq, emitted.early_eq, emitted.late_eq]
  simp only [List.append_assoc, List.cons_append]

/-- **Up to the first return.** The code follows the interpreter. -/
theorem executes_early {m : Machine} {progress : Progress} {top : Int}
    (emitted : Emitted config source cut site) (usable : config.Usable)
    (traceable : f.Traceable source) (wellFormed : ∀ i ∈ f.code, i.WellFormed)
    (isRet : cut.here.opcode = .ret) (isFirst : ∀ i ∈ cut.before, i.opcode ≠ .ret)
    (ran : source.runCode? none source.initialStore f.code = some progress)
    (stack_eq : m.registers config.stackRegister = .stack top)
    (data_eq : ∀ g ∈ source.globals, m.data g.name = some (.word g.value)) :
    ∃ mid places, m.executeAll? (early config source cut) = some mid ∧
      Reached config source (top + (-config.frameSize).toInt) places (cut.done ++ [cut.here])
        progress (reached config source cut site).env mid := by
  have inCode {i : Instruction} (isMember : i ∈ cut.before ∨ i = cut.here) : i ∈ f.code := by
    rw [cut.code_eq]
    simpa using isMember.imp_right Or.inl
  have isEarlier {i : Instruction} (inBlocks : i ∈ cut.earlier.flatMap Block.body) :
      i ∈ cut.before := List.mem_append_left _ inBlocks
  have isDone {i : Instruction} (isMember : i ∈ cut.done) : i ∈ cut.before :=
    List.mem_append_right _ isMember
  rw [cut.code_eq, Func.Cut.before, List.append_assoc] at ran
  obtain ⟨s, ranEarlier, ran⟩ := IR.Module.exists_running_of_append
    (fun i inBlocks => wellFormed i (inCode (.inl (isEarlier inBlocks))))
    (fun i inBlocks => isFirst i (isEarlier inBlocks)) ran
  obtain ⟨s', ranDone, ran⟩ := IR.Module.exists_running_of_append
    (fun i isMember => wellFormed i (inCode (.inl (isDone isMember))))
    (fun i isMember => isFirst i (isDone isMember)) ran
  have hereFits := wellFormed cut.here (inCode (.inr rfl))
  have ranHere : source.runCode? none s (cut.done ++ [cut.here]) = some progress := by
    rw [IR.Module.runCode?_append, ranDone]
    dsimp only
    rw [IR.Module.runCode?_ret hereFits isRet] at ran ⊢
    exact ran
  have opens : m.executeAll? (prologue config f) =
      some (m.set config.stackRegister (.stack (top + (-config.frameSize).toInt))) := by
    simp [prologue, Machine.executeAll?, Machine.execute?, stack_eq]
  have start : Agrees config source (top + (-config.frameSize).toInt) (homes (crossing f))
      source.initialStore (entryEnv config source)
      (m.set config.stackRegister (.stack (top + (-config.frameSize).toInt))) := by
    show Agrees _ _ _ _ _ (entryEnv config source).beginFunction _
    exact agrees_start usable rfl rfl (by simp) data_eq
  have noRet : ∀ i ∈ (cut.earlier.flatMap Block.body).dropLast, i.opcode ≠ .ret :=
    fun i inBlocks => isFirst i (isEarlier (List.dropLast_subset _ inBlocks))
  obtain ⟨m', executedEarlier, agrees⟩ := executes_blocks usable traceable wellFormed cut.earlier
    [] _ _ _ cut.blocks_eq noRet ranEarlier (entered_nil source) start () emitted.entry_ok
  have entered : Entered cut.earlier s := (entered_nil source).through
    (fun i inBlocks => wellFormed i (inCode (.inl (isEarlier inBlocks))))
    (fun i inBlocks => traceable.named i (inCode (.inl (isEarlier inBlocks)))) ranEarlier
  obtain ⟨intervals, pool, allocated, site_eq⟩ := Site.ofBlock_eq_ok emitted.entered
  have body_eq : cut.block.body = (cut.done ++ [cut.here]) ++ cut.rest := by
    rw [cut.body_eq, List.append_cons]
  have steps := executes_leadingSteps usable traceable wellFormed cut.blocks_eq body_eq allocated
    (by simpa using fun i isMember => isFirst i (isDone isMember)) ranHere entered agrees
  rw [← site_eq, Site.steps_eq_forEach] at steps
  · obtain ⟨mid, executed, promised⟩ := steps () emitted.reached_ok
    refine ⟨mid, _, ?_, promised⟩
    rw [emitted.early_eq, Machine.executeAll?_append, opens, Option.bind_some,
      Machine.executeAll?_append, entry, executedEarlier, Option.bind_some]
    exact executed
  · intro i isMember
    rw [List.mem_append, List.mem_singleton] at isMember
    exact wellFormed i (inCode (isMember.imp_left isDone))

end Emitted

end Cut

end Lower

end RiscBackend
