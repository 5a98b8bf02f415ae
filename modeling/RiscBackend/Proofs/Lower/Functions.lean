/-
# Lowered functions follow the interpreter

The code of a block is run position by position, and the code of a function block by
block. Between blocks every value that a later block can ask for is in its slot: a
name with a value was mentioned in an earlier block, so if a later block mentions it,
it crosses and was written back.

Lowering relies on more than the validity of a module, and `Lowerable` says on what.
An instruction that reads a local and overwrites it must not be the first of its block
to mention the local, because its old value is then not fetched. A return must be the
last instruction of its function, because the code runs on after it. The empty name
is not an operand. And positions must stay below the one that stands for no eviction.
-/

import RiscBackend.Proofs.Alloc.Crossing
import RiscBackend.Proofs.IR.Runs
import RiscBackend.Proofs.Lower.Simulation

namespace RiscBackend

open IR (Instruction Block Func Operand Store Progress)
open Asm (Machine)
open Alloc

/-- Whether a block of a function updates a local as the first thing it does with it:
an instruction reads the local and has it as its result, and no earlier instruction of
the block mentions the name. -/
def IR.Func.UpdatesBlindly (source : IR.Module) (f : Func) (name : String) : Prop :=
  ∃ before b after done i rest, f.blocks = before ++ b :: after ∧ b.body = done ++ i :: rest ∧
    i.opcode ≠ .other ∧ i.result = some name ∧ .name name ∈ i.args ∧
    ((source.findGlobal? name).isSome → ∃ j ∈ before.flatMap Block.body ++ done,
      j.opcode = .alloca ∧ j.result = some name) ∧
    ∀ j ∈ done, name ∉ mentions j

/-- A check for blocks that update no local blindly, whatever the names mean. -/
def IR.Block.sighted (b : Block) : Bool :=
  (List.range b.body.length).all fun position =>
    b.body[position]?.all fun i => i.result.all fun name =>
      !i.args.contains (.name name) ||
        (b.body.take position).any fun j => (mentions j).contains name

theorem IR.Func.not_updatesBlindly {source : IR.Module} {f : Func}
    (checked : ∀ b ∈ f.blocks, b.sighted = true) (name : String) :
    ¬ f.UpdatesBlindly source name := by
  rintro ⟨before, b, after, done, i, rest, blocks_eq, body_eq, -, isResult, isArg, -, first⟩
  have sighted := checked b (by simp [blocks_eq])
  rw [IR.Block.sighted, List.all_eq_true] at sighted
  have here := sighted done.length (by simp [body_eq])
  simp [body_eq, isResult, isArg] at here
  obtain ⟨j, isDone, isMention⟩ := here
  exact first j isDone isMention

/-- What lowering relies on in a function of a valid module. -/
structure IR.Func.Lowerable (source : IR.Module) (f : Func) : Prop where
  sighted : ∀ name, ¬ f.UpdatesBlindly source name
  returns_last : ∀ i ∈ f.code.dropLast, i.opcode ≠ .ret
  named : ∀ i ∈ f.code, i.opcode ≠ .other → .name "" ∉ i.args
  short : ∀ b ∈ f.blocks, (b.body.length : Int) < never

/-- What lowering relies on in a function that may return before its end. -/
structure IR.Func.Traceable (source : IR.Module) (f : Func) : Prop where
  sighted : ∀ name, ¬ f.UpdatesBlindly source name
  named : ∀ i ∈ f.code, i.opcode ≠ .other → .name "" ∉ i.args
  short : ∀ b ∈ f.blocks, (b.body.length : Int) < never

theorem IR.Func.Lowerable.traceable {source : IR.Module} {f : Func}
    (lowerable : f.Lowerable source) : f.Traceable source :=
  ⟨lowerable.sighted, lowerable.named, lowerable.short⟩

namespace Lower

open Emit

variable {source : IR.Module} {base : Int} {s s' : Store} {env : Env} {m : Machine}
  {site : Site} {isGlobal : String → Bool} {b : Block} {config : Config} {f : Func}

theorem Reached.mono {places : String → Option Place} {code code' : List Instruction}
    {progress : Progress} (reached : Reached config source base places code progress env m)
    (subset : code ⊆ code') : Reached config source base places code' progress env m := by
  cases progress with
  | running s => exact reached
  | returned value s => exact ⟨reached.1, reached.2.imp_right fun isMember => subset isMember⟩

/-- The code before and at an instruction. -/
theorem executes_step {done rest : List Instruction} {i : Instruction} {progress : Progress}
    (fit : Fit source s isGlobal done i) (usable : site.config.Usable)
    (planned : Planned site.config.registers isGlobal site.crossing b site.table)
    (body_eq : b.body = done ++ i :: rest) (position_eq : site.position = done.length)
    (stepped : source.step? none s i = some progress)
    (agrees : Agrees site.config source base
      (placesBy site.table site.crossing (placeBefore site.position)) s env m) :
    (site.step i).Executes
      (fun _ env m => Reached site.config source base
        (placesBy site.table site.crossing (placeBefore (site.position + 1))) [i] progress env m)
      env m := by
  refine executes_bind ((executes_spills planned agrees).mono fun _ env m spilled => ?_)
  refine executes_bind ((executes_reloads usable planned spilled).mono fun _ env m ready => ?_)
  have here : AtInstruction source base isGlobal b done i rest site s env m :=
    { fit, usable, planned, body_eq, position_eq, agrees := ready }
  exact here.executes_select stepped

/-- **Instructions of a block.** The code may stop before the end of the block. -/
theorem executes_steps (site : Site) {declared : List String} {progress : Progress}
    {tail : List Instruction} (usable : site.config.Usable)
    (planned : Planned site.config.registers isGlobal site.crossing b site.table)
    (fits : ∀ done i rest (s : Store), b.body = done ++ i :: rest →
      s.declared = declaredBy declared done → Fit source s isGlobal done i)
    (rest : List Instruction) :
    ∀ (position : Nat) (done : List Instruction) (s : Store) (env : Env) (m : Machine),
      b.body = done ++ rest ++ tail → position = done.length →
      s.declared = declaredBy declared done → (∀ i ∈ rest.dropLast, i.opcode ≠ .ret) →
      source.runCode? none s rest = some progress →
      Agrees site.config source base
        (placesBy site.table site.crossing (placeBefore position)) s env m →
      (Site.steps { site with position } rest).Executes
        (fun _ env m => Reached site.config source base
          (placesBy site.table site.crossing (placeBefore (position + rest.length : Nat))) rest
          progress env m)
        env m := by
  induction rest with
  | nil =>
    intro position done s env m _ _ _ _ ran agrees
    cases ran
    exact executes_pure agrees
  | cons i rest ih =>
    intro position done s env m body_eq position_eq declared_eq noRet ran agrees
    rw [List.append_assoc, List.cons_append] at body_eq
    have fit := fits done i (rest ++ tail) s body_eq declared_eq
    rw [IR.Module.runCode?] at ran
    cases stepped : source.step? none s i with
    | none =>
      rw [stepped] at ran
      cases ran
    | some first =>
      rw [stepped] at ran
      have now : (Site.step { site with position } i).Executes
          (fun _ env m => Reached site.config source base
            (placesBy site.table site.crossing (placeBefore (position + 1))) [i] first env m)
          env m :=
        executes_step fit usable planned body_eq position_eq stepped agrees
      refine executes_bind (now.mono fun _ env m reached => ?_)
      cases first with
      | running next =>
        obtain ⟨declared_next, -⟩ :=
          (source.steps_of_step? fit.wellFormed stepped).of_running
        have later := ih (position + 1) (done ++ [i]) next env m (by simp [body_eq])
          (by simp [position_eq]) ?_ ?_ ran reached
        · rw [Nat.add_assoc, Nat.add_comm 1] at later
          exact later.mono fun _ env m reached => reached.mono (List.subset_cons_self i rest)
        · rw [declared_next, declared_eq, declaredBy_append]
          rfl
        · intro j isLater
          refine noRet j ?_
          cases rest with
          | nil => cases isLater
          | cons k rest => exact List.mem_cons_of_mem _ isLater
      | returned value next =>
        cases ran
        have isRet := (source.steps_of_step? fit.wellFormed stepped).of_returned
        cases rest with
        | nil => exact executes_pure reached
        | cons j rest => exact absurd isRet (noRet i List.mem_cons_self)

/-- Between blocks the crossing names are in their slots. -/
def homes (crossing : List String) (name : String) : Option Place :=
  if name ∈ crossing then some .slot else none

theorem placesBy_placeAfter (t : Table) (crossing : List String) :
    placesBy t crossing (placeAfter crossing) = homes crossing := by
  funext name
  rw [placesBy, homes]
  cases found : t.lookup name with
  | none => rfl
  | some iv => simp [placeAfter, Table.name_of_lookup found]

/-- Where a run stands before a block: what has been declared and what can have a
value comes from the code before it. -/
structure Entered (before : List Block) (s : Store) : Prop where
  declared_eq : s.declared = declaredBy [] (before.flatMap Block.body)
  mentioned : ∀ name, s.locals name ≠ none →
    name ∈ (before.flatMap Block.body).flatMap mentions

theorem entered_nil (source : IR.Module) : Entered [] source.initialStore :=
  ⟨rfl, fun _ hasValue => absurd rfl hasValue⟩

/-- Blocks that are run to their ends bring the run to the next one. -/
theorem Entered.through {before blocks : List Block} (entered : Entered before s)
    (wellFormed : ∀ i ∈ blocks.flatMap Block.body, i.WellFormed)
    (named : ∀ i ∈ blocks.flatMap Block.body, i.opcode ≠ .other → .name "" ∉ i.args)
    (ran : source.runCode? none s (blocks.flatMap Block.body) = some (.running s')) :
    Entered (before ++ blocks) s' := by
  obtain ⟨declared_eq, written⟩ := IR.Module.runCode?_eq_running wellFormed ran
  constructor
  · rw [declared_eq, entered.declared_eq, List.flatMap_append, declaredBy_append]
  · intro name hasValue
    rw [List.flatMap_append, List.flatMap_append, List.mem_append]
    rcases written name hasValue with old | ⟨i, inBody, lowered, occurs⟩
    · exact .inl (entered.mentioned name old)
    · refine .inr (List.mem_flatMap.mpr ⟨i, inBody, mem_mentions.mpr ⟨lowered, ?_⟩⟩)
      refine occurs.imp_right fun isArg => ⟨isArg, ?_⟩
      rintro rfl
      exact named i inBody lowered isArg

/-- The instructions of a traceable function fit their places. -/
theorem fit_of_traceable {before after : List Block} {done rest : List Instruction}
    {i : Instruction} (traceable : f.Traceable source) (wellFormed : ∀ i ∈ f.code, i.WellFormed)
    (blocks_eq : f.blocks = before ++ b :: after) (body_eq : b.body = done ++ i :: rest)
    (isGlobal_eq : ∀ name, isGlobal name = ((source.findGlobal? name).isSome &&
      !(declaredBy [] (before.flatMap Block.body)).contains name))
    (declared_eq : s.declared = declaredBy (declaredBy [] (before.flatMap Block.body)) done) :
    Fit source s isGlobal done i := by
  have inCode : i ∈ f.code := by
    rw [Func.code, blocks_eq]
    simp [body_eq]
  rw [← declaredBy_append] at declared_eq
  refine ⟨wellFormed i inCode, fun name => ?_, traceable.named i inCode, ?_⟩
  · have split : name ∈ declaredBy [] (before.flatMap Block.body ++ done) ↔
        name ∈ declaredBy [] done ∨ name ∈ declaredBy [] (before.flatMap Block.body) := by
      simp only [mem_declaredBy, List.mem_append]
      grind
    rw [isLocalAmong, Store.denotesGlobal, isGlobal_eq, declared_eq]
    by_cases isGlobal : (source.findGlobal? name).isSome = true
    · simp [isGlobal, split]
    · simp [isGlobal]
  · intro lowered name isResult isArg isLocal
    by_contra unmentioned
    refine traceable.sighted name ⟨before, b, after, done, i, rest, blocks_eq, body_eq, lowered,
      isResult, isArg, fun isGlobal => ?_, ?_⟩
    · have declared : name ∈ s.declared := by
        simpa [Store.denotesGlobal, isGlobal] using isLocal
      rw [declared_eq, mem_declaredBy] at declared
      exact declared.resolve_left (by simp)
    · exact fun j isDone isMention => unmentioned ⟨j, isDone, isMention⟩

/-- On entry to a block every value that the block uses is in its slot. -/
theorem Agrees.enter {before after : List Block} {t : Table}
    (agrees : Agrees config source base (homes (crossing f)) s env m)
    (entered : Entered before s) (blocks_eq : f.blocks = before ++ b :: after)
    (planned : Planned config.registers isGlobal (crossing f) b t) :
    Agrees config source base (placesBy t (crossing f) (placeBefore 0)) s env m := by
  have inSlot {iv : Interval} (inTable : iv ∈ t.intervals) :
      placeBefore 0 iv = some .slot ∧ iv.name ∈ b.body.flatMap mentions := by
    obtain ⟨done, i, rest, body_eq, start_eq, isFirst⟩ := planned.opens iv inTable
    have bound := planned.start_le_stop iv inTable
    constructor
    · rw [placeBefore]
      grind
    · obtain ⟨lowered, occurs⟩ :=
        exists_mem_touchesAfter.mp ⟨_, List.mem_of_find?_eq_some isFirst⟩
      refine List.mem_flatMap.mpr ⟨i, by simp [body_eq], mem_mentions.mpr ⟨lowered, ?_⟩⟩
      exact occurs.imp_right fun isArg => ⟨isArg.1, isArg.2.1⟩
  refine { agrees with inPool := ?_, holds := ?_ }
  · intro name register known
    obtain ⟨iv, inTable, -, placed⟩ := exists_interval_of_placesBy known
    rw [(inSlot inTable).1] at placed
    cases placed
  · intro name place value known wordOf
    have hasValue : s.locals name ≠ none := by simp [wordOf]
    rw [placesBy] at known
    cases found : t.lookup name with
    | none =>
      rw [found] at known
      exact agrees.holds name place value known wordOf
    | some iv =>
      rw [found] at known
      obtain ⟨place_eq, here⟩ := inSlot (Table.mem_of_lookup found)
      rw [Table.name_of_lookup found] at here
      cases place_eq.symm.trans known
      refine agrees.holds name .slot value (if_pos ?_) wordOf
      exact mem_crossing_of_mentions blocks_eq (entered.mentioned name hasValue) here

/-- A block without instructions is only a label. -/
theorem executes_lowerBlock_of_empty {done : Unit → Env → Machine → Prop} {function : String}
    {crossing : List String} (empty : b.body = []) (kept : done () env m) :
    (lowerBlock config function crossing b).Executes done env m := by
  refine executes_bind (executes_label (executes_bind (executes_getEnv ?_)))
  dsimp only
  split
  · exact executes_fail
  · rw [fallsThrough, empty]
    exact executes_bind (executes_pure (executes_pure kept))

/-- A block that is run to its end has values to hand on. -/
theorem fallsThrough_of_running (wellFormed : ∀ i ∈ b.body, i.WellFormed)
    (ran : source.runCode? none s b.body = some (.running s')) (nonempty : b.body ≠ []) :
    fallsThrough b = true := by
  have noRet := IR.Module.ne_ret_of_runCode? wellFormed ran
  have continues : b.terminates = false := by
    rw [Block.terminates]
    split
    · rename_i last isLast
      simpa using noRet last (List.mem_of_getLast? isLast)
    · rfl
  simp [fallsThrough, continues, nonempty]

/-- An instruction that is not among all but the last is the last. -/
theorem getLast?_eq_some_of_mem {code : List Instruction} {i : Instruction} (inCode : i ∈ code)
    (notEarlier : i ∉ code.dropLast) : code.getLast? = some i := by
  have nonempty : code ≠ [] := List.ne_nil_of_mem inCode
  rw [← List.dropLast_append_getLast nonempty, List.mem_append, List.mem_singleton] at inCode
  rw [inCode.resolve_left notEarlier]
  exact List.getLast?_eq_some_getLast nonempty

theorem not_fallsThrough_of_returned {value : Int32} (wellFormed : ∀ i ∈ b.body, i.WellFormed)
    (ran : source.runCode? none s b.body = some (.returned value s'))
    (noRet : ∀ i ∈ b.body.dropLast, i.opcode ≠ .ret) : fallsThrough b = false := by
  obtain ⟨i, inBody, isRet⟩ := IR.Module.exists_ret_of_returned wellFormed ran
  have isLast := getLast?_eq_some_of_mem inBody fun isEarlier => noRet i isEarlier isRet
  simp [fallsThrough, Block.terminates, isLast, isRet]

/-- The first instructions of a block that is entered. -/
theorem executes_leadingSteps {before after : List Block} {first tail : List Instruction}
    {progress : Progress} {intervals : List Interval} {pool : Pool}
    (usable : config.Usable) (traceable : f.Traceable source)
    (wellFormed : ∀ i ∈ f.code, i.WellFormed) (blocks_eq : f.blocks = before ++ b :: after)
    (body_eq : b.body = first ++ tail)
    (allocated : allocate (.ofNames config.registers)
      (blockTable (crossing f) env b).intervals = .ok (intervals, pool))
    (noRet : ∀ i ∈ first.dropLast, i.opcode ≠ .ret)
    (ran : source.runCode? none s first = some progress) (entered : Entered before s)
    (agrees : Agrees config source base (homes (crossing f)) s env m) :
    (Site.steps
        { config, function := f.name, block := b.label, table := { intervals }
          crossing := crossing f } first).Executes
      (fun _ env m => Reached config source base
        (placesBy { intervals } (crossing f) (placeBefore first.length)) first progress env m)
      env m := by
  have inFunc : b ∈ f.blocks := by simp [blocks_eq]
  have planned :=
    planned_of_allocate usable.nonempty usable.nodup (traceable.short b inFunc) allocated
  have isGlobal_eq (name : String) : env.isGlobal name = ((source.findGlobal? name).isSome &&
      !(declaredBy [] (before.flatMap Block.body)).contains name) := by
    rw [agrees.isGlobal_eq, Store.denotesGlobal, entered.declared_eq]
  have fits (done : List Instruction) (i : Instruction) (rest : List Instruction) (s : Store)
      (body_eq : b.body = done ++ i :: rest)
      (declared_eq : s.declared = declaredBy (declaredBy [] (before.flatMap Block.body)) done) :
      Fit source s env.isGlobal done i :=
    fit_of_traceable traceable wellFormed blocks_eq body_eq isGlobal_eq declared_eq
  rw [← Nat.zero_add first.length]
  exact executes_steps
    { config, function := f.name, block := b.label, table := { intervals }, crossing := crossing f }
    usable planned fits first 0 [] s env m body_eq rfl entered.declared_eq noRet ran
    (agrees.enter entered blocks_eq planned)

/-- **A block.** -/
theorem executes_lowerBlock {before after : List Block} {progress : Progress}
    (usable : config.Usable) (traceable : f.Traceable source)
    (wellFormed : ∀ i ∈ f.code, i.WellFormed) (blocks_eq : f.blocks = before ++ b :: after)
    (noRet : ∀ i ∈ b.body.dropLast, i.opcode ≠ .ret)
    (ran : source.runCode? none s b.body = some progress) (entered : Entered before s)
    (agrees : Agrees config source base (homes (crossing f)) s env m) :
    (lowerBlock config f.name (crossing f) b).Executes
      (fun _ env m => Reached config source base (homes (crossing f)) b.body progress env m)
      env m := by
  by_cases empty : b.body = []
  · refine executes_lowerBlock_of_empty empty ?_
    rw [empty] at ran
    cases ran
    exact agrees
  refine executes_bind (executes_label (executes_bind (executes_getEnv ?_)))
  dsimp only
  split
  · exact executes_fail
  rename_i intervals pool allocated
  have inFunc : b ∈ f.blocks := by simp [blocks_eq]
  have short := traceable.short b inFunc
  have planned := planned_of_allocate usable.nonempty usable.nodup short allocated
  have bodyFits (i : Instruction) (inBody : i ∈ b.body) : i.WellFormed :=
    wellFormed i (List.mem_flatMap.mpr ⟨b, inFunc, inBody⟩)
  have steps := executes_leadingSteps usable traceable wellFormed blocks_eq
    (List.append_nil b.body).symm allocated noRet ran entered agrees
  refine executes_bind (steps.mono fun _ env m reached => ?_)
  cases progress with
  | running next =>
    have falls : fallsThrough b = true := fallsThrough_of_running bodyFits ran empty
    rw [if_pos falls, ← placesBy_placeAfter { intervals }]
    exact executes_writeBacks short rfl falls planned reached
  | returned value next =>
    rw [if_neg (by simp [not_fallsThrough_of_returned bodyFits ran noRet])]
    exact executes_pure reached

/-- Blocks without instructions leave everything as it is. -/
theorem executes_emptyBlocks {function : String} {crossing : List String}
    {kept : Env → Machine → Prop} {blocks : List Block} (empty : blocks.flatMap Block.body = [])
    (holds : kept env m) :
    (forEach (lowerBlock config function crossing) blocks).Executes (fun _ env m => kept env m)
      env m := by
  rw [List.flatMap_eq_nil_iff] at empty
  have walk := @executes_forEach _ (lowerBlock config function crossing)
    (fun rest env m => (∀ b ∈ rest, b.body = []) ∧ kept env m) ?_ blocks env m ⟨empty, holds⟩
  · exact walk.mono fun _ env m both => both.2
  · rintro b rest env m ⟨empty, holds⟩
    rw [List.forall_mem_cons] at empty
    exact executes_lowerBlock_of_empty empty.1 ⟨empty.2, holds⟩

/-- **Blocks of a function.** The code may stop before the last block. -/
theorem executes_blocks {progress : Progress} {after : List Block} (usable : config.Usable)
    (traceable : f.Traceable source) (wellFormed : ∀ i ∈ f.code, i.WellFormed)
    (blocks : List Block) :
    ∀ (before : List Block) (s : Store) (env : Env) (m : Machine),
      f.blocks = before ++ blocks ++ after →
      (∀ i ∈ (blocks.flatMap Block.body).dropLast, i.opcode ≠ .ret) →
      source.runCode? none s (blocks.flatMap Block.body) = some progress →
      Entered before s → Agrees config source base (homes (crossing f)) s env m →
      (forEach (lowerBlock config f.name (crossing f)) blocks).Executes
        (fun _ env m => Reached config source base (homes (crossing f))
          (blocks.flatMap Block.body) progress env m) env m := by
  induction blocks with
  | nil =>
    intro before s env m _ _ ran _ agrees
    cases ran
    exact executes_pure agrees
  | cons b rest ih =>
    intro before s env m blocks_eq noRet ran entered agrees
    have here_eq : f.blocks = before ++ b :: (rest ++ after) := by simp [blocks_eq]
    have inBody {i : Instruction} (isMember : i ∈ b.body) : i ∈ f.code :=
      List.mem_flatMap.mpr ⟨b, by simp [blocks_eq], isMember⟩
    have bodyFits (i : Instruction) (isMember : i ∈ b.body) := wellFormed i (inBody isMember)
    rw [List.flatMap_cons] at noRet ran ⊢
    rw [List.dropLast_append] at noRet
    rw [IR.Module.runCode?_append] at ran
    have noRetHere : ∀ i ∈ b.body.dropLast, i.opcode ≠ .ret := by
      intro i isEarlier
      refine noRet i ?_
      split
      · exact isEarlier
      · exact List.mem_append_left _ (List.dropLast_subset _ isEarlier)
    cases first : source.runCode? none s b.body with
    | none =>
      rw [first] at ran
      cases ran
    | some reachedHere =>
      rw [first] at ran
      refine executes_bind ((executes_lowerBlock usable traceable wellFormed here_eq noRetHere
        first entered agrees).mono fun _ env m reached => ?_)
      cases reachedHere with
      | running next =>
        have named (i : Instruction) (isMember : i ∈ b.body) :=
          traceable.named i (inBody isMember)
        have entered' : Entered (before ++ [b]) next := by
          apply entered.through <;> rwa [List.flatMap_singleton]
        have later := ih (before ++ [b]) next env m (by simp [blocks_eq]) ?_ ran entered' reached
        · exact later.mono fun _ env m reached => reached.mono (List.subset_append_right _ _)
        · intro i isEarlier
          refine noRet i ?_
          split
          · rename_i isLast
            rw [List.isEmpty_iff.mp isLast] at isEarlier
            cases isEarlier
          · exact List.mem_append_right _ isEarlier
      | returned value next =>
        cases ran
        -- The return is the last instruction of the function, so the other blocks are empty.
        have empty : rest.flatMap Block.body = [] := by
          by_contra nonempty
          obtain ⟨i, isMember, isRet⟩ := IR.Module.exists_ret_of_returned bodyFits first
          refine noRet i ?_ isRet
          rw [if_neg (by simpa using nonempty)]
          exact List.mem_append_left _ isMember
        rw [empty, List.append_nil]
        exact executes_emptyBlocks empty reached

end Lower

end RiscBackend
