/-
# Temporaries that share a text

The text of a temporary is made from the name of a variable. Some characters of the name are
replaced on the way, and the texts of globals have a mark in front that a local may have in its
name as well. This module says exactly when two variables of a function come to share a text, and
what follows: a statement overwrites all variables that share the text of its target, and no
others. The last theorem shows functions that return wrong values for it.
-/

import RiscBackend.Proofs.Qbe.Meaning

namespace RiscBackend.Qbe

open IR (Instruction Module Operand)
open Lower (Env)

/-- The characters of names that read the same in the text of a temporary. -/
def isBlurred (c : Char) : Bool :=
  c = '-' || c = '$' || c = '_'

/-- Names with the same characters, except where both have one of those that read the same. -/
def Alike (first second : String) : Prop :=
  List.Forall₂ (fun c d => c = d ∨ isBlurred c = true ∧ isBlurred d = true)
    first.toList second.toList

instance (first second : String) : Decidable (Alike first second) :=
  inferInstanceAs (Decidable (List.Forall₂ ..))

/-- The name of the variable. -/
def Temp.name : Temp → String
  | ofLocal name | ofGlobal name => name

/-- Temporaries that are written alike. The mark of a global is read as a part of the name of a
local. -/
def Temp.Clashes : Temp → Temp → Prop
  | ofLocal first, ofLocal second => Alike first second
  | ofGlobal first, ofGlobal second => Alike first second
  | ofLocal first, ofGlobal second => ∃ rest, first = "g." ++ rest ∧ Alike rest second
  | ofGlobal first, ofLocal second => ∃ rest, second = "g." ++ rest ∧ Alike rest first

/-- The name is made of the characters of names. -/
def Spelled (name : String) : Prop :=
  ∀ c ∈ name.toList, Source.isNameChar c = true

section Text

theorem space_not_mem {name : String} (spelled : Spelled name) : ' ' ∉ name.toList :=
  fun isSpace => absurd (spelled _ isSpace) (by decide)

/-- What `safeName` does to a character. -/
def blur (c : Char) : Char :=
  if c = '-' || c = '$' || c = ' ' then '_' else c

theorem toList_safeName (name : String) : (safeName name).toList = name.toList.map blur :=
  String.toList_ofList

theorem blur_eq_blur_iff {c d : Char} (ne : c ≠ ' ') (ne' : d ≠ ' ') :
    blur c = blur d ↔ c = d ∨ isBlurred c = true ∧ isBlurred d = true := by
  simp only [blur, isBlurred, Bool.or_eq_true, decide_eq_true_eq]
  grind

/-- Texts of characters are the same when they are so character by character. -/
theorem map_blur_eq_iff {first second : List Char} (noSpace : ' ' ∉ first)
    (noSpace' : ' ' ∉ second) :
    first.map blur = second.map blur ↔
      List.Forall₂ (fun c d => c = d ∨ isBlurred c = true ∧ isBlurred d = true) first second := by
  induction first generalizing second with
  | nil => cases second <;> simp
  | cons c rest ih =>
    cases second with
    | nil => simp
    | cons d rest' =>
      rw [List.mem_cons, not_or] at noSpace noSpace'
      rw [List.map_cons, List.map_cons, List.cons.injEq, List.forall₂_cons,
        blur_eq_blur_iff (Ne.symm noSpace.1) (Ne.symm noSpace'.1), ih noSpace.2 noSpace'.2]

theorem safeName_eq_iff {first second : String} (spelled : Spelled first)
    (spelled' : Spelled second) : safeName first = safeName second ↔ Alike first second := by
  rw [← String.toList_inj, toList_safeName, toList_safeName]
  exact map_blur_eq_iff (space_not_mem spelled) (space_not_mem spelled')

/-- A name reads as a mark and another name when it starts with the mark. -/
theorem safeName_eq_append_iff {first second : String} (spelled : Spelled first)
    (spelled' : Spelled second) :
    safeName first = "g." ++ safeName second ↔ ∃ rest, first = "g." ++ rest ∧ Alike rest second := by
  constructor
  · intro same
    have chars_eq : first.toList.map blur = 'g' :: '.' :: second.toList.map blur := by
      rw [← toList_safeName, same, String.toList_append, toList_safeName]
      rfl
    obtain ⟨c, later, first_eq, isMark, later_eq⟩ := List.map_eq_cons_iff.mp chars_eq
    obtain ⟨d, rest, rfl, isDot, rest_eq⟩ := List.map_eq_cons_iff.mp later_eq
    obtain rfl : c = 'g' := by grind [blur]
    obtain rfl : d = '.' := by grind [blur]
    refine ⟨String.ofList rest, ?_, ?_⟩
    · rw [← String.toList_inj, first_eq]
      simp
    · rw [Alike, String.toList_ofList, ← map_blur_eq_iff _ (space_not_mem spelled'), rest_eq]
      have noSpace := space_not_mem spelled
      rw [first_eq] at noSpace
      exact fun isSpace => noSpace (List.mem_cons_of_mem _ (List.mem_cons_of_mem _ isSpace))
  · rintro ⟨rest, rfl, alike⟩
    have spelledRest : Spelled rest := fun c inRest =>
      spelled c (by rw [String.toList_append]; exact List.mem_append_right _ inRest)
    rw [← String.toList_inj, String.toList_append, ← (safeName_eq_iff spelledRest spelled').mpr alike,
      toList_safeName, toList_safeName, String.toList_append, List.map_append]
    rfl

/-- **When temporaries share a text.** -/
theorem Temp.text_eq_iff {a b : Temp} (spelled : Spelled a.name) (spelled' : Spelled b.name) :
    a.text = b.text ↔ a.Clashes b := by
  have marked (name : String) : (ofGlobal name).text = "%." ++ ("g." ++ safeName name) := by
    rw [← String.append_assoc]
    rfl
  cases a with
  | ofLocal first =>
    cases b with
    | ofLocal second => exact (String.append_right_inj _).trans (safeName_eq_iff spelled spelled')
    | ofGlobal second =>
      rw [marked]
      exact (String.append_right_inj _).trans (safeName_eq_append_iff spelled spelled')
  | ofGlobal first =>
    cases b with
    | ofLocal second =>
      rw [marked, eq_comm]
      exact (String.append_right_inj _).trans (safeName_eq_append_iff spelled' spelled)
    | ofGlobal second => exact (String.append_right_inj _).trans (safeName_eq_iff spelled spelled')

end Text

/-- The temporary of an operand. -/
def Value.temps : Value → List Temp
  | temp t => [t]
  | const _ | blank => []

namespace Stmt

/-- The temporary that a statement writes. -/
def target? : Stmt → Option Temp
  | arith target .. | copy target _ | loadw target _ => some target
  | label _ | storew .. | ret _ => none

/-- The temporaries in a statement. -/
def temps : Stmt → List Temp
  | label _ => []
  | arith target _ a b => target :: (a.temps ++ b.temps)
  | copy target value => target :: value.temps
  | loadw target _ => [target]
  | storew value _ | ret value => value.temps

theorem mem_temps_of_target? {stmt : Stmt} {target : Temp} (isTarget : stmt.target? = some target) :
    target ∈ stmt.temps := by
  cases stmt with
  | label | storew | ret => cases isTarget
  | arith | copy | loadw =>
    cases isTarget
    exact List.mem_cons_self

end Stmt

section Origin

variable {source : Module} {env env' : Env}

/-- The temporaries of variables: of locals with given names, and of the globals. -/
def tempsFor (source : Module) (locals : List String) : List Temp :=
  locals.map Temp.ofLocal ++ source.globals.map fun g => Temp.ofGlobal g.name

theorem isGlobal_eq_of_globals_eq (globals_eq : env.globals = source.globals) (name : String) :
    env.isGlobal name = ((source.findGlobal? name).isSome && !env.hidden.contains name) := by
  rw [Env.isGlobal, Env.isHidden, Lower.defines_eq_isSome globals_eq]

/-- The temporaries in what is written for an operand. -/
theorem mem_temps_operand (globals_eq : env.globals = source.globals) {a : Operand} {temp : Temp}
    (isTemp : temp ∈ (operand env a).1.flatMap Stmt.temps ++ (operand env a).2.temps) :
    (∃ name, a = .name name ∧ env.isGlobal name = false ∧ temp = .ofLocal name) ∨
      ∃ g ∈ source.globals, temp = .ofGlobal g.name := by
  cases a with
  | const | hole => simp [operand, Value.temps] at isTemp
  | name name =>
    rw [operand] at isTemp
    split at isTemp
    · rename_i isGlobal
      obtain rfl : temp = .ofGlobal name := by simpa [Stmt.temps, Value.temps] using isTemp
      rw [isGlobal_eq_of_globals_eq globals_eq, Bool.and_eq_true, Module.findGlobal?,
        List.find?_isSome] at isGlobal
      obtain ⟨⟨g, inModule, isNamed⟩, -⟩ := isGlobal
      exact .inr ⟨g, inModule, congrArg Temp.ofGlobal (by simpa [eq_comm] using isNamed)⟩
    · rename_i isLocal
      exact .inl ⟨name, rfl, by simpa using isLocal, by simpa [Value.temps] using isTemp⟩

theorem tempsFor_subset {locals locals' : List String} (subset : locals ⊆ locals') :
    tempsFor source locals ⊆ tempsFor source locals' := by
  intro temp isTemp
  rw [tempsFor, List.mem_append] at isTemp ⊢
  exact isTemp.imp_left fun isLocal => List.map_subset _ subset isLocal

/-- The statements of an instruction are about its locals and about globals. -/
theorem Lowered.temps_subset {i : Instruction} {stmts : List Stmt}
    (lowered : Lowered env i stmts env') (globals_eq : env.globals = source.globals) :
    stmts.flatMap Stmt.temps ⊆ tempsFor source (localsIn source env.hidden i) := by
  -- An instruction that is passed over writes nothing.
  by_cases other : i.opcode = .other
  · cases lowered with
    | other => simp
    | _ => simp [Instruction.binary, Instruction.alloca, Instruction.load, Instruction.store] at other
  have ofResult {name : String} (isResult : i.result = some name) :
      .ofLocal name ∈ tempsFor source (localsIn source env.hidden i) := by
    rw [localsIn, if_neg other, isResult]
    simp [tempsFor]
  have ofArg {a : Operand} (isArg : a ∈ i.args) :
      (operand env a).1.flatMap Stmt.temps ++ (operand env a).2.temps ⊆
        tempsFor source (localsIn source env.hidden i) := by
    intro temp isTemp
    rw [tempsFor, List.mem_append]
    rcases mem_temps_operand globals_eq isTemp with ⟨name, rfl, isLocal, rfl⟩ | ⟨g, inModule, rfl⟩
    · left
      apply List.mem_map_of_mem
      rw [localsIn, if_neg other, List.mem_append, List.mem_filter, List.mem_filterMap]
      rw [isGlobal_eq_of_globals_eq globals_eq] at isLocal
      exact .inr ⟨⟨_, isArg, rfl⟩, by rw [isLocal]; rfl⟩
    · exact .inr (List.mem_map_of_mem inModule)
  cases lowered with
  | ret => simp [Stmt.temps, Value.temps]
  | retValue =>
    simpa [Stmt.temps] using ofArg List.mem_cons_self
  | arith =>
    have first := ofArg List.mem_cons_self
    have second := ofArg (List.mem_cons_of_mem _ List.mem_cons_self)
    have result := ofResult rfl
    grind [Stmt.temps]
  | alloca =>
    have result := ofResult rfl
    grind [Stmt.temps, Value.temps]
  | load =>
    have value := ofArg List.mem_cons_self
    have result := ofResult rfl
    grind [Stmt.temps]
  | storeGlobal isGlobal =>
    have value := ofArg List.mem_cons_self
    simpa [Stmt.temps] using value
  | @storeLocal value target isLocal =>
    have source := ofArg List.mem_cons_self
    -- The target of a store is an operand, and a local here.
    have isArg : Operand.name target ∈ (Instruction.store value target).args :=
      List.mem_cons_of_mem _ List.mem_cons_self
    have result := ofArg isArg
    rw [operand, isLocal] at result
    grind [Stmt.temps, Value.temps]
  | other => simp at other

theorem Lowered.globals_eq {i : Instruction} {stmts : List Stmt}
    (lowered : Lowered env i stmts env') : env'.globals = env.globals := by
  cases lowered with
  | _ => rfl

/-- The statements of a body are about its locals and about globals. -/
theorem LoweredBody.temps_subset {code : List Instruction} {stmts : List Stmt}
    (body : LoweredBody env code stmts env') (globals_eq : env.globals = source.globals) :
    stmts.flatMap Stmt.temps ⊆ tempsFor source (localsFrom source env.hidden code) := by
  induction body with
  | nil => simp
  | cons lowered body ih =>
    rw [List.flatMap_append, localsFrom]
    apply List.append_subset.mpr
    constructor
    · apply List.Subset.trans (lowered.temps_subset globals_eq)
      exact tempsFor_subset (List.subset_append_left ..)
    · have later := ih (lowered.globals_eq.trans globals_eq)
      rw [lowered.hidden_eq] at later
      exact List.Subset.trans later (tempsFor_subset (List.subset_append_right ..))

/-- A function mentions no temporaries but its own. -/
theorem LoweredFunc.mem_tempsOf {f : IR.Func} {g : Func} (lowered : LoweredFunc env f g)
    (globals_eq : env.globals = source.globals) {stmt : Stmt} (isStmt : stmt ∈ g.body) {temp : Temp}
    (isTemp : temp ∈ stmt.temps) : temp ∈ tempsOf source f := by
  rcases lowered.origin stmt isStmt with rfl | ⟨label, rfl⟩ | ⟨flat, env', body, inFlat⟩
  · cases isTemp
  · cases isTemp
  · exact body.temps_subset globals_eq (List.mem_flatMap.mpr ⟨stmt, inFlat, isTemp⟩)

theorem localsIn_subset (declared : List String) (i : Instruction) :
    localsIn source declared i ⊆ i.names := by
  rw [localsIn]
  split
  · simp
  · exact List.append_subset.mpr ⟨List.subset_append_left .., fun name isLocal =>
      List.mem_append_right _ (List.mem_filter.mp isLocal).1⟩

theorem localsFrom_subset (declared : List String) (code : List Instruction) :
    localsFrom source declared code ⊆ code.flatMap Instruction.names := by
  induction code generalizing declared with
  | nil => simp [localsFrom]
  | cons i rest ih =>
    rw [localsFrom, List.flatMap_cons]
    exact List.append_subset.mpr ⟨fun name isLocal =>
      List.mem_append_left _ (localsIn_subset declared i isLocal), fun name isLocal =>
      List.mem_append_right _ (ih _ isLocal)⟩

/-- The temporaries of a function are named by names of the module. -/
theorem name_mem_of_mem_tempsOf {f : IR.Func} (isFunc : f ∈ source.funcs) {temp : Temp}
    (isTemp : temp ∈ tempsOf source f) : temp.name ∈ source.names := by
  rw [Module.names, List.mem_append]
  rcases List.mem_append.mp isTemp with isLocal | isGlobal
  · obtain ⟨name, inCode, rfl⟩ := List.mem_map.mp isLocal
    obtain ⟨i, inCode, isName⟩ := List.mem_flatMap.mp (localsFrom_subset [] f.code inCode)
    obtain ⟨b, isBlock, inBody⟩ := List.mem_flatMap.mp inCode
    right
    apply List.mem_flatMap.mpr
    refine ⟨f, isFunc, List.mem_cons_of_mem _ (List.mem_flatMap.mpr ⟨b, isBlock, ?_⟩)⟩
    exact List.mem_cons_of_mem _ (List.mem_flatMap.mpr ⟨i, inBody, isName⟩)
  · obtain ⟨g, inModule, rfl⟩ := List.mem_map.mp isGlobal
    exact .inl (List.mem_map_of_mem inModule)

end Origin

namespace State

/-- A step writes the temporary with the text of its target, and no other. -/
theorem temps_of_step? {t t' : State} {stmt : Stmt} (stepped : t.step? stmt = some (.running t')) :
    (stmt.target? = none ∧ t'.temps = t.temps) ∨
      ∃ target word, stmt.target? = some target ∧
        t'.temps = Function.update t.temps target.text (some word) := by
  cases stmt with
  | label name =>
    cases stepped
    exact .inl ⟨rfl, rfl⟩
  | ret value =>
    obtain ⟨word, -, ⟨⟩⟩ := Option.map_eq_some_iff.mp stepped
  | storew value global =>
    rw [step?, store?] at stepped
    split at stepped
    · obtain ⟨word, -, ⟨⟩⟩ := Option.map_eq_some_iff.mp stepped
      exact .inl ⟨rfl, rfl⟩
    · cases stepped
  | arith target op a b =>
    obtain ⟨word, -, ⟨⟩⟩ := Option.map_eq_some_iff.mp stepped
    exact .inr ⟨target, word, rfl, rfl⟩
  | copy target value =>
    obtain ⟨word, -, ⟨⟩⟩ := Option.map_eq_some_iff.mp stepped
    exact .inr ⟨target, word, rfl, rfl⟩
  | loadw target global =>
    obtain ⟨word, -, ⟨⟩⟩ := Option.map_eq_some_iff.mp stepped
    exact .inr ⟨target, word, rfl, rfl⟩

/-- A temporary keeps its word while no statement writes its text. -/
theorem temps_of_runAll? {t t' : State} {stmts : List Stmt} {text : String}
    (ran : runAll? step? t stmts = some (.running t'))
    (unwritten : ∀ stmt ∈ stmts, ∀ target, stmt.target? = some target → target.text ≠ text) :
    t'.temps text = t.temps text := by
  induction stmts generalizing t with
  | nil =>
    cases ran
    rfl
  | cons stmt rest ih =>
    rw [List.forall_mem_cons] at unwritten
    rw [runAll?] at ran
    split at ran
    · rename_i middle stepped
      rw [ih ran unwritten.2]
      rcases temps_of_step? stepped with ⟨-, same⟩ | ⟨target, word, isTarget, written⟩
      · rw [same]
      · rw [written, Function.update_of_ne (Ne.symm (unwritten.1 target isTarget))]
    · rename_i stopped
      exact absurd ran (stopped t')

end State

variable {source : Module}

/-- **When variables share a temporary.** Let the names of a validated module be made of the
characters of names. Then the module is lowered under every configuration, and the statements of
each function mention no temporaries but those of its locals and of the globals. Two of these
have the same text exactly when they clash: two locals or two globals, when their names differ
only in characters that read the same; a local and a global, when in addition the name of the
local starts with the mark of globals. A statement that writes gives its word to everything that
clashes with its target, and to nothing else; so a variable keeps its word in every run of
statements the targets of which it does not clash with. -/
theorem temporaries_share_text_iff (config : Config) (validated : source.validate = .ok ())
    (spelled : ∀ name ∈ source.names, ∀ c ∈ name.toList, Source.isNameChar c = true) :
    ∃ program, lower config source = .ok program ∧
      ∀ f ∈ source.funcs, ∃ g ∈ program.funcs, g.name = f.name ∧
        (∀ stmt ∈ g.body, ∀ temp ∈ stmt.temps, temp ∈ tempsOf source f) ∧
        (∀ a ∈ tempsOf source f, ∀ b ∈ tempsOf source f, a.text = b.text ↔ a.Clashes b) ∧
        (∀ stmt ∈ g.body, ∀ target, stmt.target? = some target →
          ∀ t t' : State, t.step? stmt = some (.running t') →
          ∃ word, ∀ temp ∈ tempsOf source f,
            (target.Clashes temp → t'.temps temp.text = some word) ∧
              (¬ target.Clashes temp → t'.temps temp.text = t.temps temp.text)) ∧
        ∀ stmts t t', stmts ⊆ g.body → runAll? State.step? t stmts = some (.running t') →
          ∀ temp ∈ tempsOf source f,
            (∀ stmt ∈ stmts, ∀ target, stmt.target? = some target → ¬ target.Clashes temp) →
            t'.temps temp.text = t.temps temp.text := by
  obtain ⟨program, env, lower_eq, -, -, globals_eq, isLowered⟩ :=
    exists_lowered_program config validated fun name isName =>
      plain_of_isNameChar (spelled name isName)
  refine ⟨program, lower_eq, fun f isFunc => ?_⟩
  obtain ⟨g, inProgram, lowered⟩ := isLowered f isFunc
  have mentioned : ∀ stmt ∈ g.body, ∀ temp ∈ stmt.temps, temp ∈ tempsOf source f :=
    fun stmt isStmt temp isTemp => lowered.mem_tempsOf globals_eq isStmt isTemp
  have share_iff : ∀ a ∈ tempsOf source f, ∀ b ∈ tempsOf source f,
      (a.text = b.text ↔ a.Clashes b) := fun a isTemp b isTemp' =>
    Temp.text_eq_iff (spelled _ (name_mem_of_mem_tempsOf isFunc isTemp))
      (spelled _ (name_mem_of_mem_tempsOf isFunc isTemp'))
  have ofTarget {stmt : Stmt} (isStmt : stmt ∈ g.body) {target : Temp}
      (isTarget : stmt.target? = some target) : target ∈ tempsOf source f :=
    mentioned stmt isStmt target (Stmt.mem_temps_of_target? isTarget)
  refine ⟨g, inProgram, lowered.name_eq, mentioned, share_iff, ?_, ?_⟩
  · intro stmt isStmt target isTarget t t' stepped
    rcases State.temps_of_step? stepped with ⟨noTarget, -⟩ | ⟨_, word, isTarget', written⟩
    · cases noTarget.symm.trans isTarget
    · obtain rfl := Option.some.inj (isTarget'.symm.trans isTarget)
      refine ⟨word, fun temp isTemp => ?_⟩
      rw [written, ← share_iff _ (ofTarget isStmt isTarget) temp isTemp]
      constructor
      · intro same
        rw [same, Function.update_self]
      · intro ne
        exact Function.update_of_ne (Ne.symm ne) ..
  · intro stmts t t' subset ran temp isTemp apart
    apply State.temps_of_runAll? ran
    intro stmt isStmt target isTarget same
    exact apart stmt isStmt target isTarget
      ((share_iff target (ofTarget (subset isStmt) isTarget) temp isTemp).mp same)

theorem isNameChar_of_ascii {c : Char}
    (isAscii : (c.isAlpha || c.isDigit || c = '-' || c = '_' || c = '.') = true) :
    Source.isNameChar c = true := by
  simp only [Bool.or_eq_true, decide_eq_true_iff] at isAscii
  rcases isAscii with (((isAlpha | isDigit) | rfl) | rfl) | rfl
  · simp [Source.isNameChar, Text.isLetter, isAlpha]
  · simp [Source.isNameChar, Text.isDigit, isDigit]
  · simp [Source.isNameChar]
  · simp [Source.isNameChar]
  · simp [Source.isNameChar]

/-- The names are made of characters of names. -/
theorem spelled_of_ascii {names : List String}
    (ascii : (names.all fun name => name.toList.all fun c =>
      c.isAlpha || c.isDigit || c = '-' || c = '_' || c = '.') = true) :
    ∀ name ∈ names, ∀ c ∈ name.toList, Source.isNameChar c = true := by
  intro name isName c inName
  exact isNameChar_of_ascii (List.all_eq_true.mp (List.all_eq_true.mp ascii name isName) c inName)

/-- A function that works with a local and a global which share a text. -/
def mixed : IR.Func where
  name := "mixed"
  blocks :=
    [{ label := "entry"
       body :=
        [.binary (.arith .add) "g.x" (.const 5) (.const 0),
          .binary (.arith .add) "r" (.name "g.x") (.name "x"), .ret (.name "r")] }]

/-- A module with that function, one that works with two such locals, and one that works with two
such globals. -/
def blurry : Module where
  globals :=
    [{ name := "x", value := 9 }, { name := "p-q", value := 3 }, { name := "p_q", value := 4 }]
  funcs :=
    [{ name := "locals"
       blocks :=
        [{ label := "entry"
           body :=
            [.binary (.arith .add) "a-b" (.const 1) (.const 0),
              .binary (.arith .add) "a_b" (.const 2) (.const 0), .ret (.name "a-b")] }] },
      { name := "globals"
        blocks :=
          [{ label := "entry"
             body :=
              [.binary (.arith .add) "r" (.name "p-q") (.name "p_q"), .ret (.name "r")] }] },
      mixed]

theorem spelled_blurry : ∀ name ∈ blurry.names, ∀ c ∈ name.toList, Source.isNameChar c = true :=
  spelled_of_ascii (by cbv)

/-- The local and the global have one text, and the result has a text of its own. -/
theorem temporaries_share_text_iff_blurry :
    blurry.validate = .ok () ∧
      (∀ name ∈ blurry.names, ∀ c ∈ name.toList, Source.isNameChar c = true) ∧
      ∃ program, lower {} blurry = .ok program ∧ ∃ g ∈ program.funcs, g.name = "mixed" ∧
        (Temp.ofLocal "g.x").text = (Temp.ofGlobal "x").text ∧
        (Temp.ofLocal "r").text ≠ (Temp.ofGlobal "x").text ∧
        ∀ stmts t t', stmts ⊆ g.body → runAll? State.step? t stmts = some (.running t') →
          (∀ stmt ∈ stmts, ∀ target, stmt.target? = some target →
            ¬ target.Clashes (.ofLocal "r")) →
          t'.temps "%.r" = t.temps "%.r" := by
  have validated : blurry.validate = .ok () := by decide
  have isFunc : mixed ∈ blurry.funcs := by decide
  have isLocal : .ofLocal "g.x" ∈ tempsOf blurry mixed := by decide
  have isGlobal : .ofGlobal "x" ∈ tempsOf blurry mixed := by decide
  have isResult : .ofLocal "r" ∈ tempsOf blurry mixed := by decide
  have clashes : (Temp.ofLocal "g.x").Clashes (.ofGlobal "x") := ⟨"x", by decide, by decide⟩
  have apart : ¬ (Temp.ofLocal "r").Clashes (.ofGlobal "x") := by
    rintro ⟨rest, marked, -⟩
    have lengths : 1 = 2 + rest.length := by
      rw [← show "g.".length = 2 by decide, ← String.length_append, ← marked]
      decide
    omega
  obtain ⟨program, lower_eq, holds⟩ := temporaries_share_text_iff {} validated spelled_blurry
  obtain ⟨g, inProgram, name_eq, -, share_iff, -, keeps⟩ := holds mixed isFunc
  refine ⟨validated, spelled_blurry, program, lower_eq, g, inProgram, name_eq, ?_, ?_, ?_⟩
  · exact (share_iff _ isLocal _ isGlobal).mpr clashes
  · exact fun same => apart ((share_iff _ isResult _ isGlobal).mp same)
  · exact fun stmts t t' subset ran => keeps stmts t t' subset ran _ isResult

/-- In each of these functions a value is overwritten through the other name, and the text returns
something else than the function. -/
theorem shared_temporaries_return_wrong_values :
    blurry.validate = .ok () ∧
      (∀ name ∈ blurry.names, ∀ c ∈ name.toList, Source.isNameChar c = true) ∧
      blurry.funcs.map (fun f => (f.name, (blurry.run? (some 0) f).map IR.Outcome.value)) =
        [("locals", some 1), ("globals", some 7), ("mixed", some 14)] ∧
      ∃ program, lower {} blurry = .ok program ∧
        program.funcs.map (fun g => (g.name, (interpret? program.text g.name).map Prod.fst)) =
          [("locals", some 2), ("globals", some 8), ("mixed", some 18)] := by
  have validated : blurry.validate = .ok () := by decide
  obtain ⟨program, -, lower_eq, plain, -⟩ :=
    exists_lowered_program {} validated fun name isName =>
      plain_of_isNameChar (spelled_blurry name isName)
  -- The text is run statement by statement.
  have results : (lower {} blurry).toOption.map (fun program => program.funcs.map fun g =>
      (g.name, ((runAll? State.step? { data := program.initialData } g.body).bind
        Progress.result?).map Prod.fst)) =
      some [("locals", some 2), ("globals", some 8), ("mixed", some 18)] := by
    cbv
  refine ⟨validated, spelled_blurry, by decide, program, lower_eq, ?_⟩
  rw [lower_eq] at results
  rw [← Option.some.inj results]
  apply List.map_congr_left
  intro g isFunc
  rw [interpret?_text plain isFunc]

end RiscBackend.Qbe
