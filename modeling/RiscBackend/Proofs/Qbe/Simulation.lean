/-
# Statements follow the interpreter

Every local lives in the temporary with its text, and a global is read into a
temporary of its own before each use. As long as the temporaries of a function have
different texts, a write to one of them leaves the others alone, so the statements of
an instruction do to the temporaries and to the data what the instruction does to the
locals and to the globals. They also stop exactly where the interpreter stops: at an
operand without a value and at a division by zero.
-/

import RiscBackend.Alloc.Liveness
import RiscBackend.Proofs.IR.WellFormed
import RiscBackend.Proofs.Lower.Frame
import RiscBackend.Proofs.Qbe.Lines
import RiscBackend.Qbe.Lower

namespace RiscBackend.Qbe

open IR (Instruction Module Operand Store)
open Lower (Env)

variable {source : Module} {temps : List Temp} {env env' : Env} {s : Store} {t : State}

theorem runAll?_append {α : Type} (step? : State → α → Option Progress) (t : State)
    (first second : List α) :
    runAll? step? t (first ++ second) =
      match runAll? step? t first with
      | some (.running t) => runAll? step? t second
      | stopped => stopped := by
  induction first generalizing t with
  | nil => rfl
  | cons a rest ih =>
    rw [List.cons_append, runAll?, runAll?]
    split
    · exact ih _
    · rename_i notRunning
      split
      · rename_i running
        exact absurd running (notRunning _)
      · rfl

theorem runAll?_singleton {α : Type} (step? : State → α → Option Progress) (t : State) (a : α) :
    runAll? step? t [a] = step? t a := by
  rw [runAll?]
  split
  · rename_i running
    rw [running, runAll?]
  · rfl

/-- A step after a run that goes on. -/
theorem runAll?_concat {α : Type} {step? : State → α → Option Progress} {t t' : State}
    {first : List α} (ran : runAll? step? t first = some (.running t')) (a : α) :
    runAll? step? t (first ++ [a]) = step? t' a := by
  rw [runAll?_append, ran]
  exact runAll?_singleton step? t' a

namespace State

@[simp]
theorem word?_const (t : State) (value : Int32) :
    t.word? (Value.const value).text = some value := by
  have text_eq : (Value.const value).text = toString value.toInt := rfl
  have read : (toString value.toInt).toInt? = some value.toInt := Int.toInt?_repr _
  rw [word?, text_eq, isTemp_toString, read]
  simp

@[simp]
theorem word?_temp (t : State) (temp : Temp) :
    t.word? (Value.temp temp).text = t.temps temp.text := by
  rw [word?, Value.text, if_pos (isTemp_text temp)]

@[simp]
theorem word?_blank (t : State) : t.word? Value.blank.text = none := by
  have notTemp : isTemp Value.blank.text = false := by decide
  have notNumber : Value.blank.text.toInt? = none := by cbv
  rw [word?, notTemp, notNumber]
  rfl

@[simp]
theorem setTemp_self (t : State) (text : String) (value : Int32) :
    (t.setTemp text value).temps text = some value :=
  Function.update_self ..

theorem setTemp_of_ne (t : State) (value : Int32) {text other : String} (ne : other ≠ text) :
    (t.setTemp text value).temps other = t.temps other :=
  Function.update_of_ne ne ..

end State

/-- Temporaries, among them those of the globals, that can be told apart. -/
structure Separates (source : Module) (temps : List Temp) : Prop where
  globals : ∀ g ∈ source.globals, .ofGlobal g.name ∈ temps
  apart : ∀ a ∈ temps, ∀ b ∈ temps, a.text = b.text → a = b

/-- The state of the text and the store of the interpreter at one point of a function. -/
structure Mirrors (source : Module) (temps : List Temp) (env : Env) (s : Store) (t : State) :
    Prop where
  globals : env.globals = source.globals
  hidden : env.hidden = s.declared
  locals : ∀ name, .ofLocal name ∈ temps → t.temps (Temp.ofLocal name).text = s.locals name
  data : ∀ g ∈ source.globals, t.data ("$" ++ g.name) = some (s.globals g.name)

theorem exists_global_of_denotesGlobal {name : String}
    (isGlobal : s.denotesGlobal source name = true) : ∃ g ∈ source.globals, g.name = name := by
  rw [Store.denotesGlobal, Bool.and_eq_true, Module.findGlobal?, List.find?_isSome] at isGlobal
  simpa using isGlobal.1

namespace Mirrors

theorem isGlobal_eq (mirrors : Mirrors source temps env s t) (name : String) :
    env.isGlobal name = s.denotesGlobal source name := by
  rw [Env.isGlobal, Env.isHidden, Store.denotesGlobal, mirrors.hidden,
    Lower.defines_eq_isSome mirrors.globals]

/-- A write to the temporary of a global changes no local. -/
theorem setTemp_ofGlobal (mirrors : Mirrors source temps env s t)
    (separates : Separates source temps) {name : String} (isTemp : .ofGlobal name ∈ temps)
    (value : Int32) : Mirrors source temps env s (t.setTemp (Temp.ofGlobal name).text value) where
  globals := mirrors.globals
  hidden := mirrors.hidden
  locals other isOther := by
    rw [State.setTemp_of_ne]
    · exact mirrors.locals other isOther
    · intro same
      cases separates.apart _ isOther _ isTemp same
  data := mirrors.data

/-- A write to the temporary of a local is a write to the local. -/
theorem setTemp_ofLocal (mirrors : Mirrors source temps env s t)
    (separates : Separates source temps) {name : String} (isTemp : .ofLocal name ∈ temps)
    (value : Int32) :
    Mirrors source temps env (s.setLocal name value)
      (t.setTemp (Temp.ofLocal name).text value) where
  globals := mirrors.globals
  hidden := mirrors.hidden
  locals other isOther := by
    by_cases same : other = name
    · subst same
      simp [Store.setLocal]
    · rw [State.setTemp_of_ne]
      · simpa [Store.setLocal, same] using mirrors.locals other isOther
      · intro sameText
        cases separates.apart _ isOther _ isTemp sameText
        exact same rfl
  data := mirrors.data

/-- A declaration hides its name and starts the local with a word. -/
theorem declare (mirrors : Mirrors source temps env s t) (separates : Separates source temps)
    {name : String} (isTemp : .ofLocal name ∈ temps) (value : Int32) :
    Mirrors source temps (env.hide name) (s.declare name (some value))
      (t.setTemp (Temp.ofLocal name).text value) where
  globals := mirrors.globals
  hidden := congrArg (name :: ·) mirrors.hidden
  locals := (mirrors.setTemp_ofLocal separates isTemp value).locals
  data := mirrors.data

/-- A write to the data of a global is a write to the global. -/
theorem setData (mirrors : Mirrors source temps env s t) (name : String) (value : Int32) :
    Mirrors source temps env { s with globals := Function.update s.globals name value }
      (t.setData ("$" ++ name) value) where
  globals := mirrors.globals
  hidden := mirrors.hidden
  locals := mirrors.locals
  data g isGlobal := by
    by_cases same : g.name = name
    · simp [State.setData, same]
    · simpa [State.setData, same] using mirrors.data g isGlobal

end Mirrors

/-- The names of operands that mean locals have temporaries. -/
def Named (source : Module) (temps : List Temp) (s : Store) (a : Operand) : Prop :=
  ∀ name, a = .name name → s.denotesGlobal source name = false → .ofLocal name ∈ temps

namespace Mirrors

theorem operand_of_local (mirrors : Mirrors source temps env s t) {name : String}
    (denotes : s.denotesGlobal source name = false) :
    operand env (.name name) = ([], .temp (.ofLocal name)) := by
  simp [operand, mirrors.isGlobal_eq, denotes]

theorem operand_of_global (mirrors : Mirrors source temps env s t) {name : String}
    (denotes : s.denotesGlobal source name = true) :
    operand env (.name name) = ([.loadw (.ofGlobal name) name], .temp (.ofGlobal name)) := by
  simp [operand, mirrors.isGlobal_eq, denotes]

/-- An operand that is no global is always ready. -/
theorem word?_operand (mirrors : Mirrors source temps env s t) {a : Operand}
    (named : Named source temps s a)
    (isLocal : ∀ name, a = .name name → s.denotesGlobal source name = false) :
    t.word? (operand env a).2.text = s.read? source a := by
  cases a with
  | const value => simp [operand, Store.read?]
  | hole => simp [operand, Store.read?]
  | name name =>
    have denotes := isLocal name rfl
    rw [mirrors.operand_of_local denotes, State.word?_temp,
      mirrors.locals name (named name rfl denotes), Store.read?, denotes]
    rfl

/-- Loading an operand makes its value ready, and leaves ready what was. -/
theorem load (mirrors : Mirrors source temps env s t) (separates : Separates source temps)
    {a : Operand} (named : Named source temps s a) :
    ∃ t', runAll? State.step? t (operand env a).1 = some (.running t') ∧
      Mirrors source temps env s t' ∧
      t'.word? (operand env a).2.text = s.read? source a ∧
      ∀ b, Named source temps s b → t.word? (operand env b).2.text = s.read? source b →
        t'.word? (operand env b).2.text = s.read? source b := by
  by_cases isGlobal : ∃ name, a = .name name ∧ s.denotesGlobal source name = true
  · obtain ⟨name, rfl, denotes⟩ := isGlobal
    obtain ⟨g, isGlobal, rfl⟩ := exists_global_of_denotesGlobal denotes
    rw [mirrors.operand_of_global denotes, runAll?_singleton, State.step?,
      mirrors.data g isGlobal]
    have mirrors' := mirrors.setTemp_ofGlobal separates (separates.globals g isGlobal)
      (s.globals g.name)
    refine ⟨_, rfl, mirrors', by simp [State.setTemp, Store.read?, denotes], ?_⟩
    intro b named' ready
    by_cases isGlobal' : ∃ name, b = .name name ∧ s.denotesGlobal source name = true
    · obtain ⟨name, rfl, denotes'⟩ := isGlobal'
      obtain ⟨h, isGlobal', rfl⟩ := exists_global_of_denotesGlobal denotes'
      rw [mirrors.operand_of_global denotes', State.word?_temp] at ready ⊢
      by_cases same : h.name = g.name
      · simp [same, Store.read?, denotes]
      · rw [State.setTemp_of_ne, ready]
        intro sameText
        exact same (Temp.ofGlobal.inj (separates.apart _ (separates.globals h isGlobal') _
          (separates.globals g isGlobal) sameText))
    · exact mirrors'.word?_operand named' fun name same =>
        eq_false_of_ne_true fun denotes' => isGlobal' ⟨name, same, denotes'⟩
  · have isLocal (name : String) (same : a = .name name) : s.denotesGlobal source name = false :=
      eq_false_of_ne_true fun denotes => isGlobal ⟨name, same, denotes⟩
    have noLoad : (operand env a).1 = [] := by
      cases a with
      | name name => rw [mirrors.operand_of_local (isLocal name rfl)]
      | _ => rfl
    rw [noLoad]
    exact ⟨t, rfl, mirrors, mirrors.word?_operand named isLocal, fun b _ ready => ready⟩

end Mirrors

/-- The names that an instruction uses as locals, after given declarations. -/
def localsIn (source : Module) (declared : List String) (i : Instruction) : List String :=
  if i.opcode = .other then []
  else i.result.toList ++ (i.args.filterMap Operand.name?).filter fun name =>
    !((source.findGlobal? name).isSome && !declared.contains name)

/-- A run of statements that has come as far as a run of instructions. -/
inductive Follows (source : Module) (temps : List Temp) (env : Env) :
    Option IR.Progress → Option Progress → Prop
  | stuck : Follows source temps env none none
  | running {s : Store} {t : State} (mirrors : Mirrors source temps env s t) :
    Follows source temps env (some (.running s)) (some (.running t))
  | returned {value : Int32} {s : Store} {t : State}
    (data : ∀ g ∈ source.globals, t.data ("$" ++ g.name) = some (s.globals g.name)) :
    Follows source temps env (some (.returned value s)) (some (.returned value t))

theorem named_of_localsIn {i : Instruction}
    (named : ∀ name ∈ localsIn source s.declared i, .ofLocal name ∈ temps)
    {a : Operand} (isArg : a ∈ i.args) (lowered : i.opcode ≠ .other := by simp) :
    Named source temps s a := by
  rintro name rfl isLocal
  refine named name ?_
  rw [localsIn, if_neg lowered]
  refine List.mem_append_right _ (List.mem_filter.mpr ⟨?_, ?_⟩)
  · exact List.mem_filterMap.mpr ⟨_, isArg, rfl⟩
  · rw [← Store.denotesGlobal, isLocal]
    rfl

theorem isTemp_of_localsIn {i : Instruction} {name : String}
    (named : ∀ name ∈ localsIn source s.declared i, .ofLocal name ∈ temps)
    (isResult : i.result = some name) (lowered : i.opcode ≠ .other := by simp) :
    .ofLocal name ∈ temps := by
  refine named name ?_
  rw [localsIn, if_neg lowered, isResult]
  exact List.mem_append_left _ List.mem_cons_self

/-- What an instruction is lowered to, form by form. -/
inductive Lowered (env : Env) : Instruction → List Stmt → Env → Prop
  | ret : Lowered env { opcode := .ret } [.ret (.const 0)] env
  | retValue {value : Operand} :
    Lowered env { opcode := .ret, args := [value] }
      ((operand env value).1 ++ [.ret (operand env value).2]) env
  | arith {op : IR.ArithOp} {name : String} {a b : Operand} :
    Lowered env (.binary (.arith op) name a b)
      ((operand env a).1 ++ (operand env b).1 ++
        [.arith (.ofLocal name) op (operand env a).2 (operand env b).2]) env
  | alloca {name : String} :
    Lowered env (.alloca name) [.copy (.ofLocal name) (.const 0)] (env.hide name)
  | load {name place : String} :
    Lowered env (.load name place)
      ((operand env (.name place)).1 ++ [.copy (.ofLocal name) (operand env (.name place)).2]) env
  | storeGlobal {value : Operand} {target : String} (isGlobal : env.isGlobal target = true) :
    Lowered env (.store value target)
      ((operand env value).1 ++ [.storew (operand env value).2 target]) env
  | storeLocal {value : Operand} {target : String} (isLocal : env.isGlobal target = false) :
    Lowered env (.store value target)
      ((operand env value).1 ++ [.copy (.ofLocal target) (operand env value).2]) env
  | other {result : Option String} {args : List Operand} :
    Lowered env { opcode := .other, result, args } [] env

/-- A well-formed instruction can be lowered. -/
theorem exists_lowered (env : Env) {i : Instruction} (wellFormed : i.WellFormed) :
    ∃ stmts env', lowerInstruction env i = .ok (stmts, env') ∧ Lowered env i stmts env' := by
  cases wellFormed with
  | ret => exact ⟨_, _, rfl, .ret⟩
  | retValue value => exact ⟨_, _, rfl, .retValue⟩
  | arith op name a b => exact ⟨_, _, rfl, .arith⟩
  | alloca name => exact ⟨_, _, rfl, .alloca⟩
  | load name place => exact ⟨_, _, rfl, .load⟩
  | store value target =>
    have lowered_eq : lowerInstruction env (.store value target) =
        if env.isGlobal target = true then
          .ok ((operand env value).1 ++ [.storew (operand env value).2 target], env)
        else .ok ((operand env value).1 ++ [.copy (.ofLocal target) (operand env value).2], env) :=
      rfl
    rw [lowered_eq]
    cases isGlobal : env.isGlobal target with
    | true => exact ⟨_, _, rfl, .storeGlobal isGlobal⟩
    | false => exact ⟨_, _, rfl, .storeLocal isGlobal⟩
  | other result args => exact ⟨_, _, rfl, .other⟩

/-- A copy after the load of an operand assigns the value of the operand. -/
theorem Mirrors.follows_copy (mirrors : Mirrors source temps env s t)
    (separates : Separates source temps) {a : Operand} (named : Named source temps s a)
    {name : String} (isTemp : .ofLocal name ∈ temps) :
    Follows source temps env
      ((s.read? source a).bind fun word => some (.running (s.setLocal name word)))
      (runAll? State.step? t
        ((operand env a).1 ++ [.copy (.ofLocal name) (operand env a).2])) := by
  obtain ⟨t', loaded, mirrors', ready, -⟩ := mirrors.load separates named
  rw [runAll?_concat loaded, State.step?, ready]
  cases s.read? source a with
  | none => exact .stuck
  | some word => exact .running (mirrors'.setTemp_ofLocal separates isTemp word)

/-- **The statements of an instruction follow its step.** -/
theorem Mirrors.follows_step (mirrors : Mirrors source temps env s t)
    (separates : Separates source temps) {i : Instruction} {stmts : List Stmt}
    (named : ∀ name ∈ localsIn source s.declared i, .ofLocal name ∈ temps)
    (lowered : Lowered env i stmts env') :
    Follows source temps env' (source.step? (some 0) s i) (runAll? State.step? t stmts) := by
  cases lowered with
  | ret =>
    rw [runAll?_singleton, State.step?, State.word?_const]
    exact .returned mirrors.data
  | @retValue value =>
    obtain ⟨t', loaded, mirrors', ready, -⟩ :=
      mirrors.load separates (named_of_localsIn named List.mem_cons_self)
    rw [runAll?_concat loaded, State.step?, ready]
    change Follows _ _ _ (do return .returned (← s.read? source value) s) _
    cases s.read? source value with
    | none => exact .stuck
    | some word => exact .returned mirrors'.data
  | @arith op name a b =>
    have namedFirst : Named source temps s a :=
      named_of_localsIn named List.mem_cons_self
    have namedSecond : Named source temps s b :=
      named_of_localsIn named (List.mem_cons_of_mem _ List.mem_cons_self)
    obtain ⟨t', loaded, mirrors', ready, -⟩ := mirrors.load separates namedFirst
    obtain ⟨t'', loaded', mirrors'', ready', kept⟩ := mirrors'.load separates namedSecond
    have bothLoaded : runAll? State.step? t ((operand env a).1 ++ (operand env b).1) =
        some (.running t'') := by
      rw [runAll?_append, loaded]
      exact loaded'
    have isTemp := isTemp_of_localsIn named rfl
    rw [runAll?_concat bothLoaded, State.step?, ready', kept a namedFirst ready]
    change Follows _ _ _ (do
      let word ← op.eval? (← s.read? source a) (← s.read? source b)
      return .running (s.setLocal name word)) _
    cases s.read? source a with
    | none => exact .stuck
    | some x =>
      cases s.read? source b with
      | none => exact .stuck
      | some y =>
        simp only [Option.bind_eq_bind, Option.bind_some]
        cases op.eval? x y with
        | none => exact .stuck
        | some word => exact .running (mirrors''.setTemp_ofLocal separates isTemp word)
  | @alloca name =>
    rw [runAll?_singleton, State.step?, State.word?_const]
    exact .running (mirrors.declare separates (isTemp_of_localsIn named rfl) 0)
  | @load name place =>
    exact mirrors.follows_copy separates (named_of_localsIn named List.mem_cons_self)
      (isTemp_of_localsIn named rfl)
  | @storeGlobal value target isGlobal =>
    rw [mirrors.isGlobal_eq] at isGlobal
    obtain ⟨t', loaded, mirrors', ready, -⟩ :=
      mirrors.load separates (named_of_localsIn named List.mem_cons_self)
    obtain ⟨g, inModule, rfl⟩ := exists_global_of_denotesGlobal isGlobal
    rw [runAll?_concat loaded, State.step?, ready, State.store?, mirrors'.data g inModule]
    change Follows _ _ _ (do return .running (s.write source g.name (← s.read? source value))) _
    cases s.read? source value with
    | none => exact .stuck
    | some word =>
      simp only [Option.bind_eq_bind, Option.bind_some, Store.write, isGlobal]
      exact .running (mirrors'.setData g.name word)
  | @storeLocal value target isLocal =>
    rw [mirrors.isGlobal_eq] at isLocal
    have isTemp : .ofLocal target ∈ temps :=
      (named_of_localsIn named (List.mem_cons_of_mem _ List.mem_cons_self)) target rfl isLocal
    have follows := mirrors.follows_copy separates
      (named_of_localsIn named List.mem_cons_self) isTemp
    have write_eq (word : Int32) : s.write source target word = s.setLocal target word := by
      rw [Store.write, isLocal]
      rfl
    simp only [← write_eq] at follows
    exact follows
  | other => exact .running mirrors

/-- The names that instructions use as locals, after given declarations. -/
def localsFrom (source : Module) : List String → List Instruction → List String
  | _, [] => []
  | declared, i :: rest =>
    localsIn source declared i ++ localsFrom source (Alloc.declares i ++ declared) rest

/-- What instructions in a row are lowered to. -/
inductive LoweredBody : Env → List Instruction → List Stmt → Env → Prop
  | nil {env : Env} : LoweredBody env [] [] env
  | cons {env middle env' : Env} {i : Instruction} {rest : List Instruction}
    {first later : List Stmt} (lowered : Lowered env i first middle)
    (body : LoweredBody middle rest later env') :
    LoweredBody env (i :: rest) (first ++ later) env'

theorem LoweredBody.append {env middle env' : Env} {code code' : List Instruction}
    {stmts stmts' : List Stmt} (first : LoweredBody env code stmts middle)
    (second : LoweredBody middle code' stmts' env') :
    LoweredBody env (code ++ code') (stmts ++ stmts') env' := by
  induction first with
  | nil => exact second
  | cons lowered body ih =>
    rw [List.append_assoc]
    exact .cons lowered (ih second)

/-- Well-formed instructions can be lowered. -/
theorem exists_loweredBody {code : List Instruction} (wellFormed : ∀ i ∈ code, i.WellFormed)
    (env : Env) :
    ∃ stmts env', lowerBody env code = .ok (stmts, env') ∧ LoweredBody env code stmts env' := by
  induction code generalizing env with
  | nil => exact ⟨[], env, rfl, .nil⟩
  | cons i rest ih =>
    rw [List.forall_mem_cons] at wellFormed
    obtain ⟨first, middle, first_eq, lowered⟩ := exists_lowered env wellFormed.1
    obtain ⟨later, env', later_eq, body⟩ := ih wellFormed.2 middle
    refine ⟨first ++ later, env', ?_, .cons lowered body⟩
    rw [lowerBody, first_eq]
    dsimp only [bind, Except.bind]
    rw [later_eq]
    rfl

/-- A declaration is all that changes which names are hidden. -/
theorem Lowered.hidden_eq {i : Instruction} {stmts : List Stmt}
    (lowered : Lowered env i stmts env') : env'.hidden = Alloc.declares i ++ env.hidden := by
  cases lowered with
  | _ => rfl

/-- **The statements of a body follow its run.** -/
theorem Mirrors.follows_body {code : List Instruction} {stmts : List Stmt}
    (body : LoweredBody env code stmts env') (separates : Separates source temps)
    (mirrors : Mirrors source temps env s t)
    (named : ∀ name ∈ localsFrom source env.hidden code, .ofLocal name ∈ temps) :
    Follows source temps env' (source.runCode? (some 0) s code)
      (runAll? State.step? t stmts) := by
  induction body generalizing s t with
  | nil => exact .running mirrors
  | @cons env middle env' i rest first later lowered body ih =>
    rw [localsFrom, List.forall_mem_append] at named
    have stepped := mirrors.follows_step separates (mirrors.hidden ▸ named.1) lowered
    rw [runAll?_append, Module.runCode?]
    generalize source.step? (some 0) s i = progress at stepped ⊢
    generalize runAll? State.step? t first = progress' at stepped ⊢
    cases stepped with
    | stuck => exact .stuck
    | running mirrors' => exact ih mirrors' (lowered.hidden_eq ▸ named.2)
    | returned data => exact .returned data

end RiscBackend.Qbe
