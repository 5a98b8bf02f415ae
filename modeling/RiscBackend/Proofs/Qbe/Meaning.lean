/-
# The text of a program means what the module means

The second backend writes a text. For a valid module whose names are made of the
characters that names are made of in source texts, the text can be read back, and
running a function of the text is running the function of the module: both return the
same value and leave the same words in the globals, or neither comes to an end. What
has to be excluded is that two variables of the function share the text of their
temporaries, which can happen because some characters of a name are replaced.
-/

import RiscBackend.Proofs.IR.Runs
import RiscBackend.Proofs.Qbe.Simulation
import RiscBackend.Source.Lexeme

namespace RiscBackend

namespace Qbe

open IR (Instruction Block Module Operand Outcome)
open Lower (Env)

variable {source : Module} {env env' : Env}

/-- The characters of names break no line and no word. -/
theorem plain_of_isNameChar {name : String}
    (spelled : ∀ c ∈ name.toList, Source.isNameChar c = true) : Plain name := by
  constructor
  · intro isBlank
    exact absurd (spelled _ isBlank) (by decide)
  · intro isEnding
    exact absurd (spelled _ isEnding) (by decide)

theorem plain_safeName {name : String} (plain : Plain name) : Plain (safeName name) := by
  rw [safeName, Plain, String.toList_ofList]
  constructor
  · intro isBlank
    obtain ⟨c, -, replaced⟩ := List.mem_map.mp isBlank
    grind
  · intro isEnding
    obtain ⟨c, inName, replaced⟩ := List.mem_map.mp isEnding
    have := plain.2
    grind

theorem plain_ofLocal {name : String} (plain : Plain name) : Plain (Temp.ofLocal name).text :=
  plain_append.mpr ⟨by decide, plain_safeName plain⟩

theorem plain_ofGlobal {name : String} (plain : Plain name) : Plain (Temp.ofGlobal name).text :=
  plain_append.mpr ⟨by decide, plain_safeName plain⟩

/-- What is written for an operand is plain if its name is. -/
theorem plain_operand (env : Env) {a : Operand} (plain : ∀ name, a.name? = some name → Plain name) :
    (∀ stmt ∈ (operand env a).1, stmt.Plain) ∧ Plain (operand env a).2.text := by
  cases a with
  | const value => exact ⟨by simp [operand], plain_toString _⟩
  | hole => exact ⟨by simp [operand], show Plain "" by decide⟩
  | name name =>
    have plainName := plain name rfl
    rw [operand]
    split
    · exact ⟨List.forall_mem_singleton.mpr ⟨plain_ofGlobal plainName, plainName⟩,
        plain_ofGlobal plainName⟩
    · exact ⟨by simp, plain_ofLocal plainName⟩

/-- The statements of an instruction with plain names are plain. -/
theorem Lowered.plain {i : Instruction} {stmts : List Stmt} (lowered : Lowered env i stmts env')
    (plain : ∀ name ∈ i.names, Plain name) : ∀ stmt ∈ stmts, stmt.Plain := by
  have plainResult {name : String} (isResult : i.result = some name) : Plain name :=
    plain name (List.mem_append_left _ (by simp [isResult]))
  have plainArg {a : Operand} (isArg : a ∈ i.args) :
      (∀ stmt ∈ (operand env a).1, stmt.Plain) ∧ Plain (operand env a).2.text :=
    plain_operand env fun name isName =>
      plain name (List.mem_append_right _ (List.mem_filterMap.mpr ⟨a, isArg, isName⟩))
  cases lowered with
  | ret => exact List.forall_mem_singleton.mpr (plain_toString 0)
  | retValue =>
    obtain ⟨load, value⟩ := plainArg List.mem_cons_self
    exact List.forall_mem_append.mpr ⟨load, List.forall_mem_singleton.mpr value⟩
  | arith =>
    obtain ⟨loadFirst, first⟩ := plainArg List.mem_cons_self
    obtain ⟨loadSecond, second⟩ := plainArg (List.mem_cons_of_mem _ List.mem_cons_self)
    exact List.forall_mem_append.mpr ⟨List.forall_mem_append.mpr ⟨loadFirst, loadSecond⟩,
      List.forall_mem_singleton.mpr ⟨plain_ofLocal (plainResult rfl), first, second⟩⟩
  | alloca =>
    exact List.forall_mem_singleton.mpr ⟨plain_ofLocal (plainResult rfl), plain_toString 0⟩
  | load =>
    obtain ⟨load, value⟩ := plainArg List.mem_cons_self
    exact List.forall_mem_append.mpr
      ⟨load, List.forall_mem_singleton.mpr ⟨plain_ofLocal (plainResult rfl), value⟩⟩
  | @storeGlobal value target =>
    obtain ⟨load, value⟩ := plainArg List.mem_cons_self
    have plainTarget : Plain target :=
      plain target (by simp [Instruction.names, Instruction.store, Operand.name?])
    exact List.forall_mem_append.mpr ⟨load, List.forall_mem_singleton.mpr ⟨value, plainTarget⟩⟩
  | @storeLocal value target =>
    obtain ⟨load, value⟩ := plainArg List.mem_cons_self
    have plainTarget : Plain target :=
      plain target (by simp [Instruction.names, Instruction.store, Operand.name?])
    exact List.forall_mem_append.mpr
      ⟨load, List.forall_mem_singleton.mpr ⟨plain_ofLocal plainTarget, value⟩⟩
  | other => simp

theorem LoweredBody.plain {code : List Instruction} {stmts : List Stmt}
    (body : LoweredBody env code stmts env')
    (plain : ∀ i ∈ code, ∀ name ∈ i.names, Plain name) : ∀ stmt ∈ stmts, stmt.Plain := by
  induction body with
  | nil => simp
  | cons lowered body ih =>
    rw [List.forall_mem_cons] at plain
    exact List.forall_mem_append.mpr ⟨lowered.plain plain.1, ih plain.2⟩

/-- The return that follows the last block, unless the block ends in one. -/
def endingOf (blocks : List Block) : List Stmt :=
  if blocks.getLast?.any Block.terminates then [] else [.ret (.const 0)]

theorem runAll?_append_congr {first second second' : List Stmt}
    (same : ∀ t, runAll? State.step? t second = runAll? State.step? t second') (t : State) :
    runAll? State.step? t (first ++ second) = runAll? State.step? t (first ++ second') := by
  rw [runAll?_append, runAll?_append]
  split
  · exact same _
  · rfl

theorem runAll?_label (t : State) (name : String) (stmts : List Stmt) :
    runAll? State.step? t (.label name :: stmts) = runAll? State.step? t stmts :=
  rfl

/-- Blocks are lowered to statements that run as those of their instructions in a row,
with a return at the end. -/
theorem exists_loweredBlocks {b : Block} {rest : List Block}
    (wellFormed : ∀ c ∈ b :: rest, ∀ i ∈ c.body, i.WellFormed) (env : Env) :
    ∃ stmts env' flat, lowerBlocks env (b :: rest) = .ok (stmts, env') ∧
      LoweredBody env ((b :: rest).flatMap Block.body) flat env' ∧
      (∀ t, runAll? State.step? t stmts =
        runAll? State.step? t (flat ++ endingOf (b :: rest))) ∧
      ∀ stmt ∈ stmts, stmt ∈ flat ∨ stmt = .ret (.const 0) ∨
        ∃ c ∈ b :: rest, stmt = .label c.label := by
  induction rest generalizing b env with
  | nil =>
    rw [List.forall_mem_singleton] at wellFormed
    obtain ⟨body, env', body_eq, lowered⟩ := exists_loweredBody wellFormed env
    refine ⟨.label b.label :: body ++ endingOf [b], env', body, ?_, by simpa using lowered,
      fun t => rfl, ?_⟩
    · rw [lowerBlocks, body_eq]
      cases terminates : b.terminates <;>
        simp [endingOf, lowerBlocks, terminates, bind, Except.bind, pure, Except.pure]
    · intro stmt isStmt
      rw [endingOf] at isStmt
      split at isStmt <;> simp at isStmt <;> grind
  | cons c rest ih =>
    rw [List.forall_mem_cons] at wellFormed
    obtain ⟨body, middle, body_eq, lowered⟩ := exists_loweredBody wellFormed.1 env
    obtain ⟨later, env', flat, later_eq, loweredLater, runs, isLowered⟩ := ih wellFormed.2 middle
    refine ⟨.label b.label :: body ++ later, env', body ++ flat, ?_, ?_, ?_, ?_⟩
    · rw [lowerBlocks, body_eq]
      simp [later_eq, bind, Except.bind, pure, Except.pure]
    · simpa using lowered.append loweredLater
    · intro t
      have ending_eq : endingOf (b :: c :: rest) = endingOf (c :: rest) := by
        rw [endingOf, endingOf, List.getLast?_cons_cons]
      rw [ending_eq, List.append_assoc, List.cons_append, runAll?_label]
      exact runAll?_append_congr runs t
    · intro stmt isStmt
      simp only [List.cons_append, List.mem_cons, List.mem_append] at isStmt ⊢
      rcases isStmt with rfl | inBody | isLater
      · exact .inr (.inr ⟨b, .inl rfl, rfl⟩)
      · exact .inl (.inl inBody)
      · rcases isLowered stmt isLater with inFlat | isReturn | ⟨d, isBlock, isLabel⟩
        · exact .inl (.inr inFlat)
        · exact .inr (.inl isReturn)
        · exact .inr (.inr ⟨d, .inr (List.mem_cons.mp isBlock), isLabel⟩)

/-- What a function is lowered to. -/
structure LoweredFunc (env : Env) (f : IR.Func) (g : Func) : Prop where
  name_eq : g.name = f.name
  plain : ∀ stmt ∈ g.body, stmt.Plain
  origin : ∀ stmt ∈ g.body, stmt = .ret (.const 0) ∨ (∃ label, stmt = .label label) ∨
    ∃ flat env', LoweredBody env.beginFunction f.code flat env' ∧ stmt ∈ flat
  runs : ∃ flat env', LoweredBody env.beginFunction f.code flat env' ∧
    ∀ t, runAll? State.step? t g.body = runAll? State.step? t (flat ++ endingOf f.blocks)

/-- A function of well-formed instructions can be lowered. -/
theorem exists_loweredFunc {f : IR.Func} (wellFormed : ∀ i ∈ f.code, i.WellFormed)
    (plain : ∀ name ∈ f.names, Plain name) (env : Env) :
    ∃ g, lowerFunc env f = .ok g ∧ LoweredFunc env f g := by
  obtain ⟨name, blocks⟩ := f
  cases blocks with
  | nil =>
    refine ⟨_, rfl, rfl, ?_, by simp, [], _, .nil, fun t => rfl⟩
    simpa [Stmt.Plain] using ⟨show Plain "start" by decide, plain_toString 0⟩
  | cons b rest =>
    have inBlocks : ∀ c ∈ b :: rest, ∀ i ∈ c.body, i.WellFormed := fun c isBlock i inBody =>
      wellFormed i (List.mem_flatMap.mpr ⟨c, isBlock, inBody⟩)
    obtain ⟨stmts, env', flat, lowered_eq, body, runs, isLowered⟩ :=
      exists_loweredBlocks inBlocks env.beginFunction
    refine ⟨{ name, body := stmts }, ?_, rfl, ?_, ?_, flat, env', body, runs⟩
    · rw [lowerFunc, lowered_eq]
      simp [bind, Except.bind, pure, Except.pure]
    · have plainBlock : ∀ c ∈ b :: rest, ∀ name ∈ c.label :: c.body.flatMap Instruction.names,
          Plain name := fun c isBlock other isName =>
        plain other (List.mem_cons_of_mem _ (List.mem_flatMap.mpr ⟨c, isBlock, isName⟩))
      have plainBody : ∀ i ∈ (b :: rest).flatMap Block.body, ∀ name ∈ i.names, Plain name := by
        intro i inCode other isName
        obtain ⟨c, isBlock, inBody⟩ := List.mem_flatMap.mp inCode
        exact plainBlock c isBlock other
          (List.mem_cons_of_mem _ (List.mem_flatMap.mpr ⟨i, inBody, isName⟩))
      intro stmt isStmt
      rcases isLowered stmt isStmt with inFlat | rfl | ⟨c, isBlock, rfl⟩
      · exact body.plain plainBody stmt inFlat
      · exact plain_toString 0
      · exact plainBlock c isBlock c.label List.mem_cons_self
    · intro stmt isStmt
      rcases isLowered stmt isStmt with inFlat | isReturn | ⟨c, -, isLabel⟩
      · exact .inr (.inr ⟨flat, env', body, inFlat⟩)
      · exact .inl isReturn
      · exact .inr (.inl ⟨c.label, isLabel⟩)

/-- Functions of well-formed instructions can be lowered, each to one with its name. -/
theorem exists_loweredFuncs {funcs : List IR.Func}
    (wellFormed : ∀ f ∈ funcs, ∀ i ∈ f.code, i.WellFormed)
    (plain : ∀ f ∈ funcs, ∀ name ∈ f.names, Plain name) (env : Env) :
    ∃ lowered, funcs.mapM (lowerFunc env) = .ok lowered ∧
      lowered.map Func.name = funcs.map IR.Func.name ∧
      (∀ f ∈ funcs, ∃ g ∈ lowered, LoweredFunc env f g) ∧
      ∀ g ∈ lowered, ∃ f ∈ funcs, LoweredFunc env f g := by
  induction funcs with
  | nil => exact ⟨[], rfl, rfl, by simp, by simp⟩
  | cons f rest ih =>
    rw [List.forall_mem_cons] at wellFormed plain
    obtain ⟨g, lowered_eq, lowered⟩ := exists_loweredFunc wellFormed.1 plain.1 env
    obtain ⟨later, later_eq, names_eq, isLowered, isOrigin⟩ := ih wellFormed.2 plain.2
    refine ⟨g :: later, ?_, ?_, ?_, ?_⟩
    · rw [List.mapM_cons, lowered_eq, later_eq]
      rfl
    · rw [List.map_cons, List.map_cons, lowered.name_eq, names_eq]
    · refine List.forall_mem_cons.mpr ⟨⟨g, List.mem_cons_self, lowered⟩, fun h inRest => ?_⟩
      obtain ⟨k, isLater, lowered⟩ := isLowered h inRest
      exact ⟨k, List.mem_cons_of_mem _ isLater, lowered⟩
    · refine List.forall_mem_cons.mpr ⟨⟨f, List.mem_cons_self, lowered⟩, fun k isLater => ?_⟩
      obtain ⟨h, inRest, lowered⟩ := isOrigin k isLater
      exact ⟨h, List.mem_cons_of_mem _ inRest, lowered⟩

/-- A valid module with plain names can be lowered. -/
theorem exists_lowered_program (config : Config) (validated : source.validate = .ok ())
    (plain : ∀ name ∈ source.names, Plain name) :
    ∃ program env, lower config source = .ok program ∧ program.Plain ∧
      program.data = source.globals ∧ env.globals = source.globals ∧
      ∀ f ∈ source.funcs, ∃ g ∈ program.funcs, LoweredFunc env f g := by
  have valid := Module.valid_of_validate validated
  have plainFunc : ∀ f ∈ source.funcs, ∀ name ∈ f.names, Plain name := fun f inModule name isName =>
    plain name (List.mem_append_right _ (List.mem_flatMap.mpr ⟨f, inModule, isName⟩))
  let env := source.globals.foldl Env.define (.ofFrameSize config.frameSize)
  have globals_eq : env.globals = source.globals :=
    congrArg Env.globals (Lower.foldl_define_ofFrameSize valid.nodup_globals config.frameSize)
  have lower_eq : lower config source = (source.funcs.mapM (lowerFunc env)).map fun funcs =>
      { data := env.globals, funcs } := by
    rw [lower, validated]
    split <;> rfl
  obtain ⟨lowered, lowered_eq, names_eq, isLowered, isOrigin⟩ :=
    exists_loweredFuncs valid.wellFormed plainFunc env
  refine ⟨{ data := env.globals, funcs := lowered }, env, by rw [lower_eq, lowered_eq]; rfl, ?_,
    globals_eq, globals_eq, isLowered⟩
  refine ⟨?_, ?_, ?_, by rw [names_eq]; exact valid.nodup_funcs⟩
  · intro g isGlobal
    exact plain g.name (List.mem_append_left _ (List.mem_map_of_mem (globals_eq ▸ isGlobal)))
  · intro g isFunc
    obtain ⟨f, inModule, lowered⟩ := isOrigin g isFunc
    rw [lowered.name_eq]
    exact plainFunc f inModule f.name List.mem_cons_self
  · intro g isFunc
    obtain ⟨f, -, lowered⟩ := isOrigin g isFunc
    exact lowered.plain

/-- The temporaries of a function: those of its locals and those of the globals. -/
def tempsOf (source : Module) (f : IR.Func) : List Temp :=
  (localsFrom source [] f.code).map Temp.ofLocal ++
    source.globals.map fun g => Temp.ofGlobal g.name

/-- Before a function starts, the data hold the globals and nothing else was written. -/
theorem mirrors_start {program : Program} (temps : List Temp)
    (globals_eq : env.globals = source.globals) (data_eq : program.data = source.globals) :
    Mirrors source temps env.beginFunction source.initialStore { data := program.initialData } where
  globals := globals_eq
  hidden := rfl
  locals name _ := rfl
  data g isGlobal := by
    have found : (source.findGlobal? g.name).isSome = true := by
      rw [Module.findGlobal?, List.find?_isSome]
      exact ⟨g, isGlobal, by simp⟩
    calc program.initialData ("$" ++ g.name)
        = (source.findGlobal? g.name).map IR.Global.value := by
          simp [Program.initialData, data_eq, List.find?_map, Function.comp_def,
            Module.findGlobal?]
      _ = some (source.initialStore.globals g.name) := by
          obtain ⟨h, found⟩ := Option.isSome_iff_exists.mp found
          simp [Module.initialStore, found]

/-- A function that is run to its end has a return written after its last block. -/
theorem endingOf_of_running {f : IR.Func} (wellFormed : ∀ i ∈ f.code, i.WellFormed) (s : IR.Store)
    (ran : source.runCode? (some 0) source.initialStore f.code = some (.running s)) :
    endingOf f.blocks = [.ret (.const 0)] := by
  rw [endingOf, if_neg]
  intro terminates
  obtain ⟨b, isLast, terminates⟩ := Option.any_eq_true _ _ |>.mp terminates
  rw [Block.terminates] at terminates
  split at terminates
  · rename_i i isLastInstruction
    have inCode : i ∈ f.code := List.mem_flatMap.mpr
      ⟨b, List.mem_of_getLast? isLast, List.mem_of_getLast? isLastInstruction⟩
    exact Module.ne_ret_of_runCode? wellFormed ran i inCode (by simpa using terminates)
  · cases terminates

/-- **The text of a program means what the module means.** Let the names of a valid
module be made of the characters of names. Then the module is lowered under every
configuration. Let the temporaries of a function have different texts. If the function
has an outcome, then running the text of the program returns its value and leaves its
words in the data of the globals; if it has none, neither has the text. -/
theorem lower_preserves_meaning (config : Config) (validated : source.validate = .ok ())
    (spelled : ∀ name ∈ source.names, ∀ c ∈ name.toList, Source.isNameChar c = true) :
    ∃ program, lower config source = .ok program ∧
      ∀ f ∈ source.funcs,
        (∀ a ∈ tempsOf source f, ∀ b ∈ tempsOf source f, a.text = b.text → a = b) →
        (∀ outcome, source.run? (some 0) f = some outcome →
          ∃ final, interpret? program.text f.name = some (outcome.value, final) ∧
            ∀ g ∈ source.globals,
              final.data ("$" ++ g.name) = some (outcome.globals g.name)) ∧
        (source.run? (some 0) f = none → interpret? program.text f.name = none) := by
  obtain ⟨program, env, lower_eq, plain, data_eq, globals_eq, isLowered⟩ :=
    exists_lowered_program config validated fun name isName =>
      plain_of_isNameChar (spelled name isName)
  refine ⟨program, lower_eq, fun f inModule apart => ?_⟩
  obtain ⟨g, isFunc, lowered⟩ := isLowered f inModule
  obtain ⟨flat, env', body, runs⟩ := lowered.runs
  have separates : Separates source (tempsOf source f) :=
    ⟨fun g isGlobal => List.mem_append_right _ (List.mem_map_of_mem isGlobal), apart⟩
  have follows := (mirrors_start (tempsOf source f) globals_eq data_eq).follows_body body separates
    fun name isLocal => List.mem_append_left _ (List.mem_map_of_mem isLocal)
  have interpret_eq := interpret?_text plain isFunc
  rw [lowered.name_eq, runs, runAll?_append] at interpret_eq
  rw [interpret_eq, Module.run?]
  have ending_eq := @endingOf_of_running source f
    ((Module.valid_of_validate validated).wellFormed f inModule)
  generalize source.runCode? (some 0) source.initialStore f.code = ran at follows ending_eq ⊢
  generalize runAll? State.step? { data := program.initialData } flat = ran' at follows ⊢
  cases follows with
  | stuck => exact ⟨by simp, fun _ => rfl⟩
  | @running s t mirrors =>
    refine ⟨fun outcome same => ⟨t, ?_, ?_⟩, by simp⟩
    · cases same
      dsimp only
      rw [ending_eq s rfl, runAll?_singleton, State.step?, State.word?_const]
      rfl
    · cases same
      exact mirrors.data
  | @returned value s t data =>
    refine ⟨fun outcome same => ⟨t, ?_, ?_⟩, by simp⟩
    · cases same
      rfl
    · cases same
      exact data

/-- A function that reads two globals, hides one of them behind a local, and writes the
other from it. -/
def coveringMain : IR.Func where
  name := "main"
  blocks :=
    [{ label := "entry"
       body :=
        [.load "0" "x", .binary (.arith .add) "1" (.name "0") (.name "y-z"), .alloca "x",
          .store (.name "1") "x", .store (.name "x") "y-z"] },
      { label := "done"
        body := [.binary (.arith .mul) "2" (.name "y-z") (.name "x"), .ret (.name "2")] }]

/-- The module with that function. -/
def covering : Module where
  globals := [{ name := "x", value := 5 }, { name := "y-z", value := 7 }]
  funcs := [coveringMain]

/-- The text of that module returns twelve squared, with twelve in the global that was
written and five still in the one that was hidden. -/
theorem lower_preserves_meaning_covering :
    covering.validate = .ok () ∧
    (∀ name ∈ covering.names, ∀ c ∈ name.toList, Source.isNameChar c = true) ∧
    (∀ a ∈ tempsOf covering coveringMain, ∀ b ∈ tempsOf covering coveringMain,
      a.text = b.text → a = b) ∧
    ∃ program final, lower {} covering = .ok program ∧
      interpret? program.text "main" = some (144, final) ∧
      final.data "$x" = some 5 ∧ final.data "$y-z" = some 12 := by
  have validated : covering.validate = .ok () := by decide
  have spelled : ∀ name ∈ covering.names, ∀ c ∈ name.toList, Source.isNameChar c = true := by
    have ascii : (covering.names.all fun name => name.toList.all fun c =>
        c.isAlpha || c.isDigit || c = '-') = true := by
      cbv
    intro name isName c inName
    have isAscii := List.all_eq_true.mp (List.all_eq_true.mp ascii name isName) c inName
    simp only [Bool.or_eq_true, decide_eq_true_iff] at isAscii
    rcases isAscii with (isAlpha | isDigit) | rfl
    · simp [Source.isNameChar, Text.isLetter, isAlpha]
    · simp [Source.isNameChar, Text.isDigit, isDigit]
    · simp [Source.isNameChar]
  have apart : ∀ a ∈ tempsOf covering coveringMain, ∀ b ∈ tempsOf covering coveringMain,
      a.text = b.text → a = b := by
    decide
  have ran : (covering.run? (some 0) coveringMain).map (fun outcome =>
      (outcome.value, outcome.globals "x", outcome.globals "y-z")) = some (144, 5, 12) := by
    decide
  obtain ⟨outcome, ran, values_eq⟩ := Option.map_eq_some_iff.mp ran
  obtain ⟨program, lower_eq, means⟩ := lower_preserves_meaning {} validated spelled
  obtain ⟨final, interpreted, data⟩ :=
    (means coveringMain List.mem_cons_self apart).1 outcome ran
  simp only [Prod.mk.injEq] at values_eq
  rw [values_eq.1] at interpreted
  refine ⟨validated, spelled, apart, program, final, lower_eq, interpreted, ?_, ?_⟩
  · exact (data { name := "x", value := 5 } (by decide)).trans (congrArg some values_eq.2.1)
  · exact (data { name := "y-z", value := 7 } (by decide)).trans (congrArg some values_eq.2.2)

end Qbe

end RiscBackend
