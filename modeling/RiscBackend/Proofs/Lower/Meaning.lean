/-
# The meaning of lowered modules

Executing the code of a function from its label to its exit, from any registers and
any stack, leaves the words of the globals and the register for return values as the
interpreter says. This holds for every pool of registers that a user can choose, down
to a single one, and for every function on which lowering can rely.

The condition on the function cannot be dropped. The last theorem shows a valid module
with a block that updates a local blindly: its code returns a wrong value.
-/

import RiscBackend.Proofs.Config.Chosen
import RiscBackend.Proofs.Lower.Functions
import RiscBackend.Proofs.Lower.Routines

namespace RiscBackend.Lower

open IR (Func Global Outcome Progress Instruction)
open Asm (Machine Value Line)
open Emit

/-- If a step succeeds, its lines run up to an exit on a machine, which is then as
promised. -/
def Emit.Exits {α : Type} (step : Emit α) (promise : Machine → Prop) (env : Env) (m : Machine) :
    Prop :=
  ∀ a, (step.run env).outcome = .ok a →
    ∃ m', m.runToExit? (step.run env).lines = some m' ∧ promise m'

theorem Emit.exits_bind {α β : Type} {step : Emit α} {next : α → Emit β} {env : Env}
    {m : Machine} {promise : Machine → Prop}
    (executes : step.Executes (fun a env m => (next a).Exits promise env m) env m) :
    (step >>= next).Exits promise env m := by
  intro b succeeds
  obtain ⟨a, here, later⟩ := outcome_bind_eq_ok succeeds
  obtain ⟨m', executed, continues⟩ := executes a here
  obtain ⟨m'', exited, kept⟩ := continues b later
  rw [run_bind_of_ok here]
  refine ⟨m'', ?_, kept⟩
  rw [Machine.runToExit?_append executed, exited]

theorem Emit.exits_ecall {α : Type} {next : Unit → Emit α} {env : Env} {m : Machine}
    {promise : Machine → Prop} (kept : promise m) :
    (instr .ecall >>= next).Exits promise env m := by
  intro a _
  rw [run_bind_of_ok rfl]
  exact ⟨m, rfl, kept⟩

variable {config : Config} {source : IR.Module} {f : Func} {env : Env} {m : Machine}

/-- At the start of a function nothing has a value and everything is in place. -/
theorem agrees_start {top : Int} (usable : config.Usable)
    (globals_eq : env.globals = source.globals) (size_eq : env.frameSize = config.frameSize)
    (stack_eq : m.registers config.stackRegister = .stack top)
    (data_eq : ∀ g ∈ source.globals, m.data g.name = some (.word g.value)) :
    Agrees config source top (homes (Alloc.crossing f)) source.initialStore env.beginFunction
      m where
  stack_eq := stack_eq
  data_eq := by
    intro name isGlobal
    obtain ⟨g, found⟩ := Option.isSome_iff_exists.mp isGlobal
    have name_eq : g.name = name := by simpa using List.find?_some found
    have word := data_eq g (List.mem_of_find?_eq_some found)
    rw [name_eq] at word
    simpa [IR.Module.initialStore, found] using word
  defines_eq := defines_eq_isSome globals_eq
  hidden_eq := rfl
  wellFormed := by
    refine Frame.wellFormed_ofSize ?_
    rw [size_eq]
    exact usable.frameSize_pos.le
  inPool := by
    intro name register known
    rw [homes] at known
    split at known <;> cases known
  holds := fun name place value _ wordOf => by cases wordOf

/-- What a machine shows when a function has been executed. -/
structure Shows (config : Config) (source : IR.Module) (f : Func) (outcome : Outcome)
    (m : Machine) : Prop where
  globals : ∀ g ∈ source.globals, m.data g.name = some (.word (outcome.globals g.name))
  value : ∀ i value, f.code.getLast? = some i → i.opcode = .ret → i.args = [value] →
    m.registers config.returnRegister = .word outcome.value

/-- When the blocks of a function have been executed, the machine shows its outcome. -/
theorem Reached.shows {base : Int} {places : String → Option Place} {progress : Progress}
    (reached : Reached config source base places f.code progress env m)
    (lowerable : f.Lowerable source) (wellFormed : ∀ i ∈ f.code, i.WellFormed)
    (ran : source.runCode? none source.initialStore f.code = some progress) :
    Shows config source f progress.outcome m := by
  have isDefined {g : Global} (inModule : g ∈ source.globals) :
      (source.findGlobal? g.name).isSome := by
    rw [IR.Module.findGlobal?, List.find?_isSome]
    exact ⟨g, inModule, by simp⟩
  cases progress with
  | running s =>
    refine ⟨fun g inModule => reached.data_eq g.name (isDefined inModule), ?_⟩
    intro i value isLast isRet _
    exact absurd isRet (IR.Module.ne_ret_of_runCode? wellFormed ran i
      (List.mem_of_getLast? isLast))
  | returned word s =>
    obtain ⟨grounded, inRegister | isBare⟩ := reached
    · exact ⟨fun g inModule => grounded.data_eq g.name (isDefined inModule),
        fun _ _ _ _ _ => inRegister⟩
    · refine ⟨fun g inModule => grounded.data_eq g.name (isDefined inModule), ?_⟩
      intro i value isLast _ args_eq
      have bareLast := getLast?_eq_some_of_mem isBare fun isEarlier =>
        lowerable.returns_last _ isEarlier rfl
      cases isLast.symm.trans bareLast
      cases args_eq

theorem Reached.stack_eq {base : Int} {places : String → Option Place} {progress : Progress}
    {code : List Instruction} (reached : Reached config source base places code progress env m) :
    m.registers config.stackRegister = .stack base := by
  cases progress with
  | running s => exact Grounded.stack_eq reached.toGrounded
  | returned word s => exact reached.1.stack_eq

/-- **The routine of a function.** -/
theorem exits_lowerFunc {outcome : Outcome} {top : Int} (usable : config.Usable)
    (lowerable : f.Lowerable source) (wellFormed : ∀ i ∈ f.code, i.WellFormed)
    (ran : source.run? none f = some outcome) (globals_eq : env.globals = source.globals)
    (size_eq : env.frameSize = config.frameSize)
    (stack_eq : m.registers config.stackRegister = .stack top)
    (data_eq : ∀ g ∈ source.globals, m.data g.name = some (.word g.value)) :
    (lowerFunc config f).Exits (Shows config source f outcome) env m := by
  obtain ⟨progress, ranCode, rfl⟩ := Option.map_eq_some_iff.mp ran
  have opened : m.execute? (.addi config.stackRegister config.stackRegister (-config.frameSize)) =
      some (m.set config.stackRegister (.stack (top + (-config.frameSize).toInt))) := by
    simp [Machine.execute?, stack_eq]
  have start : Agrees config source (top + (-config.frameSize).toInt)
      (homes (Alloc.crossing f)) source.initialStore env.beginFunction
      (m.set config.stackRegister (.stack (top + (-config.frameSize).toInt))) :=
    agrees_start usable globals_eq size_eq (by simp) data_eq
  refine exits_bind (executes_modifyEnv (exits_bind (executes_label (exits_bind
    (executes_instr opened (exits_bind ?_))))))
  refine (executes_blocks usable lowerable.traceable wellFormed f.blocks [] _ _ _
    (List.append_nil _).symm lowerable.returns_last ranCode (entered_nil source) start).mono
    fun _ env m reached => ?_
  have shows := reached.shows lowerable wellFormed ranCode
  have closed : m.execute? (.addi config.stackRegister config.stackRegister config.frameSize) =
      some (m.set config.stackRegister
        (.stack (top + (-config.frameSize).toInt + config.frameSize.toInt))) := by
    simp [Machine.execute?, reached.stack_eq]
  refine exits_bind (executes_instr closed (exits_bind (executes_instr rfl (exits_ecall ?_))))
  refine ⟨shows.globals, fun i value isLast isRet args_eq => ?_⟩
  rw [Machine.set_registers_of_ne _ _ usable.syscall_ne_return.symm,
    Machine.set_registers_of_ne _ _ usable.stack_ne_return.symm]
  exact shows.value i value isLast isRet args_eq

/-- A module that is added has passed the check, and its code was emitted without a
fault. -/
theorem Lowering.addModule_eq_ok {l l' : Lowering}
    (added : l.addModule source = (l', .ok ())) :
    (l.config.feature .validate = true → source.validate = .ok ()) ∧
      ((forEach (lowerFunc l.config) source.funcs).run
        (source.globals.foldl Env.define l.env)).outcome = .ok () ∧
      l'.program.lines = l.program.lines ++
        header (source.globals.foldl Env.define l.env).globals ++
        ((forEach (lowerFunc l.config) source.funcs).run
          (source.globals.foldl Env.define l.env)).lines := by
  rw [addModule] at added
  dsimp only at added
  split at added
  · cases added
  · rename_i passes
    split at added
    · cases added
    · split at added
      · cases added
      · rename_i succeeds
        split at added
        · cases added
        · cases added
          exact ⟨fun validates => by simpa [validates] using passes, succeeds, rfl⟩

/-- A module that is lowered is valid, and its program is a header and the code of its
functions. -/
theorem lowerModule_eq_ok {program : Asm.Program} {ds : Diagnostics}
    (validates : config.feature .validate = true)
    (lowered : lowerModule config source = (.ok program, ds)) :
    source.Valid ∧ ∃ env : Env, env.globals = source.globals ∧ env.frameSize = config.frameSize ∧
      ((forEach (lowerFunc config) source.funcs).run env).outcome = .ok () ∧
      program = { lines := header env.globals ++
        ((forEach (lowerFunc config) source.funcs).run env).lines } := by
  rw [lowerModule] at lowered
  cases result : (Lowering.ofConfig config).addModule source with
  | mk l outcome =>
    rw [result] at lowered
    cases outcome with
    | error fault => cases lowered
    | ok =>
      obtain ⟨checked, succeeds, lines_eq⟩ := Lowering.addModule_eq_ok result
      have valid := IR.Module.valid_of_validate (checked validates)
      cases lowered
      have env_eq := foldl_define_ofFrameSize valid.nodup_globals config.frameSize
      refine ⟨valid, source.globals.foldl Env.define (.ofFrameSize config.frameSize), ?_, ?_,
        succeeds, ?_⟩
      · rw [env_eq]
      · rw [env_eq]
        rfl
      · cases program : l.program with
        | mk lines =>
          rw [program] at lines_eq
          exact congrArg Asm.Program.mk lines_eq

/-- **Lowering preserves meaning.** Let the pool of registers and the size of the
frames be chosen in any way, and let a module be lowered. The program has one routine
per function. Executed from any machine whose stack register holds a stack address and
whose data words hold the initial globals, the routine of a lowerable function that has
an outcome reaches its exit, and the machine then shows that outcome. -/
theorem lowerModule_preserves_meaning {program : Asm.Program} {ds : Diagnostics} {k : Nat}
    {outcome : Outcome} {top : Int} (chosen : config.Chosen)
    (lowered : lowerModule config source = (.ok program, ds))
    (isFunc : source.funcs[k]? = some f) (lowerable : f.Lowerable source)
    (ran : source.run? none f = some outcome)
    (stack_eq : m.registers config.stackRegister = .stack top)
    (data_eq : ∀ g ∈ source.globals, m.data g.name = some (.word g.value)) :
    ∃ routine final, program.routines[k]? = some routine ∧
      routine.head? = some { stmt := .label f.name } ∧
      m.runToExit? routine = some final ∧
      (∀ g ∈ source.globals, final.data g.name = some (.word (outcome.globals g.name))) ∧
      ∀ i value, f.code.getLast? = some i → i.opcode = .ret → i.args = [value] →
        final.registers config.returnRegister = .word outcome.value := by
  have validates : config.feature .validate = true := by
    obtain ⟨registers, frameSize, rfl, -⟩ := chosen.settings
    rfl
  obtain ⟨valid, env, globals_eq, size_eq, succeeds, rfl⟩ := lowerModule_eq_ok validates lowered
  obtain ⟨start, globals_eq', size_eq', succeeds', isRoutine⟩ :=
    routinesOf_forEach_lowerFunc source.funcs succeeds isFunc
  have wellFormed := valid.wellFormed f (List.mem_of_getElem? isFunc)
  obtain ⟨final, exited, shows⟩ :=
    exits_lowerFunc chosen.usable lowerable wellFormed ran (globals_eq'.trans globals_eq)
      (size_eq'.trans size_eq) stack_eq data_eq _ succeeds'
  refine ⟨_, final, ?_, rfl, exited, shows.globals, shows.value⟩
  rw [routines_header]
  exact isRoutine

/-- A function whose values do not fit into one register. Its second block updates a
local after having mentioned it. -/
def crowdedMain : Func where
  name := "main"
  blocks :=
    [{ label := "entry"
       body :=
        [.load "x" "g", .binary (.arith .add) "x" (.name "x") (.const 1),
          .binary (.arith .mul) "y" (.name "x") (.name "x")] },
      { label := "next"
        body :=
          [.binary (.arith .sub) "z" (.name "y") (.name "x"),
            .binary (.arith .add) "x" (.name "x") (.name "z"), .store (.name "x") "g",
            .ret (.name "z")] }]

/-- The module with that function and the global that it reads and writes. -/
def crowded : IR.Module where
  globals := [{ name := "g", value := 5 }]
  funcs := [crowdedMain]

/-- A machine with the global of that module and nothing of use in its registers. -/
def scrambled : Machine where
  registers := fun register => if register = "sp" then .stack 64 else .symbol register
  stack := fun address => .stack address
  data := fun name => if name = "g" then some (.word 5) else none

/-- With a single register the code still returns six squared less six. -/
theorem lowerModule_preserves_meaning_crowded :
    Config.Chosen { registers := ["s1"] } ∧ crowdedMain.Lowerable crowded ∧
    ∃ program ds outcome, lowerModule { registers := ["s1"] } crowded = (.ok program, ds) ∧
      crowded.run? none crowdedMain = some outcome ∧ outcome.value = 30 ∧
      ∃ routine final, program.routines[0]? = some routine ∧
        routine.head? = some { stmt := .label "main" } ∧
        scrambled.runToExit? routine = some final ∧
        (∀ g ∈ crowded.globals, final.data g.name = some (.word (outcome.globals g.name))) ∧
        ∀ i value, crowdedMain.code.getLast? = some i → i.opcode = .ret → i.args = [value] →
          final.registers "a0" = .word outcome.value := by
  have chosen : Config.Chosen { registers := ["s1"] } :=
    .registers .default (show Config.setRegisters {} ["s1"] = _ from rfl)
  have lowerable : crowdedMain.Lowerable crowded :=
    ⟨IR.Func.not_updatesBlindly (by decide), by decide, by decide, by decide⟩
  have lowers : (lowerModule { registers := ["s1"] } crowded).1.toOption.isSome = true := by
    simp only [lowerModule, Lowering.addModule, crowded, crowdedMain, Emit.forEach, lowerFunc,
      lowerBlock, Alloc.allocate, Alloc.assign, scanOrder_blockTable]
    decide +kernel
  have returns : (crowded.run? none crowdedMain).map Outcome.value = some 30 := by
    decide +kernel
  obtain ⟨outcome, ran, value_eq⟩ := Option.map_eq_some_iff.mp returns
  cases lowered : lowerModule { registers := ["s1"] } crowded with
  | mk result ds =>
    rw [lowered] at lowers
    cases result with
    | error fault => cases lowers
    | ok program =>
      exact ⟨chosen, lowerable, program, ds, outcome, rfl, ran, value_eq,
        lowerModule_preserves_meaning chosen lowered rfl lowerable ran rfl
          (by simp [crowded, scrambled])⟩

/-- A module with a block that updates a local blindly. -/
def forgetful : IR.Module where
  funcs :=
    [{ name := "main"
       blocks :=
        [{ label := "entry"
           body :=
            [.binary (.arith .add) "y" (.const 1) (.const 2),
              .binary (.arith .add) "x" (.const 3) (.const 4),
              .binary (.arith .add) "z" (.name "y") (.const 0)] },
          { label := "next"
            body := [.binary (.arith .add) "x" (.name "x") (.const 1), .ret (.name "x")] }] }]

/-- The value of a local that is updated blindly is lost: seven and one are returned as
three and one, because the second block takes what the first left in the register. -/
theorem blind_update_returns_wrong_value :
    forgetful.validate = .ok () ∧ Config.Chosen {} ∧
    (forgetful.funcs[0]?.bind (forgetful.run? none)).map Outcome.value = some 8 ∧
    ((lowerModule {} forgetful).1.toOption.bind fun program =>
      program.routines[0]?.bind fun routine =>
        (scrambled.runToExit? routine).map fun final => final.registers "a0") =
      some (.word 4) := by
  refine ⟨by decide, .default, by decide +kernel, ?_⟩
  simp only [lowerModule, Lowering.addModule, forgetful, Emit.forEach, lowerFunc, lowerBlock,
    Alloc.allocate, Alloc.assign, scanOrder_blockTable]
  decide +kernel

end RiscBackend.Lower
