/-
# Valid modules

A module that passes the check has only instructions of a few forms, and its globals
and functions have distinct names. This module states the forms as a predicate with
one case per form, which later proofs split on, and gives the meaning of an
instruction form by form.
-/

import Mathlib.Data.List.Nodup
import RiscBackend.IR.Check
import RiscBackend.Proofs.IR.Interpreter

namespace RiscBackend.IR

/-- The names in an instruction. -/
def Instruction.names (i : Instruction) : List String :=
  i.result.toList ++ i.args.filterMap Operand.name?

/-- The names in a function, with its own and those of its blocks. -/
def Func.names (f : Func) : List String :=
  f.name :: f.blocks.flatMap fun b => b.label :: b.body.flatMap Instruction.names

/-- The names in a module. -/
def Module.names (m : Module) : List String :=
  m.globals.map Global.name ++ m.funcs.flatMap Func.names

/-- Checks in a row pass when each of them passes. -/
theorem bind_eq_ok {ε α : Type} {check : Except ε Unit} {next : Unit → Except ε α} {a : α} :
    check >>= next = .ok a ↔ check = .ok () ∧ next () = .ok a := by
  cases check with
  | error fault =>
    constructor
    · intro passes
      cases passes
    · rintro ⟨passes, -⟩
      cases passes
  | ok => exact ⟨fun passes => ⟨rfl, passes⟩, fun passes => passes.2⟩

theorem throw_ne_ok {ε α : Type} {fault : ε} {a : α} :
    (throw fault : Except ε α) = .ok a ↔ False :=
  ⟨by simp, False.elim⟩

namespace Instruction

theorem checkCount_eq_ok {i : Instruction} {want : Nat} :
    i.checkCount want = .ok () ↔ i.args.length = want := by
  simp [checkCount]

theorem checkResult_eq_ok {i : Instruction} :
    i.checkResult = .ok () ↔ ∃ name, i.result = some name := by
  simp [checkResult, Option.isSome_iff_exists]

theorem checkNoResult_eq_ok {i : Instruction} : i.checkNoResult = .ok () ↔ i.result = none := by
  simp [checkNoResult]

theorem checkName_eq_ok {i : Instruction} {index : Nat} {fault : InstructionFault} :
    i.checkName index fault = .ok () ↔ ∃ name, i.args[index]? = some (.name name) := by
  rw [checkName]
  cases i.args[index]? with
  | none => simp
  | some arg => cases arg <;> simp [Operand.name?]

@[simp]
theorem opcode_binary (opcode : Opcode) (result : String) (a b : Operand) :
    (binary opcode result a b).opcode = opcode := rfl

@[simp]
theorem opcode_alloca (name : String) : (alloca name).opcode = .alloca := rfl

@[simp]
theorem opcode_load (result source : String) : (load result source).opcode = .load := rfl

@[simp]
theorem opcode_store (value : Operand) (target : String) :
    (store value target).opcode = .store := rfl

/-- The forms that an instruction of a valid module can have. -/
inductive WellFormed : Instruction → Prop
  | ret : WellFormed { opcode := .ret }
  | retValue (value : Operand) : WellFormed { opcode := .ret, args := [value] }
  | arith (op : ArithOp) (name : String) (a b : Operand) : WellFormed (.binary (.arith op) name a b)
  | alloca (name : String) : WellFormed (.alloca name)
  | load (name source : String) : WellFormed (.load name source)
  | store (value : Operand) (target : String) : WellFormed (.store value target)
  | other (result : Option String) (args : List Operand) :
    WellFormed { opcode := .other, result, args }

/-- An instruction that passes the check has no empty place. -/
theorem hole_not_mem_of_check {i : Instruction} (checked : i.check = .ok ()) :
    .hole ∉ i.args := by
  intro isHole
  rw [check, if_pos (by simpa using isHole)] at checked
  cases checked

/-- An instruction that passes the check has one of the forms. -/
theorem wellFormed_of_check {i : Instruction} (checked : i.check = .ok ()) : i.WellFormed := by
  obtain ⟨opcode, result, args⟩ := i
  rw [check] at checked
  cases opcode with
  | ret =>
    simp only [ite_eq_iff, bind_eq_ok, throw_ne_ok, checkNoResult_eq_ok] at checked
    obtain ⟨-, ⟨⟩, -⟩ | ⟨-, ⟨-, ⟨⟩, -⟩ | ⟨few, rfl⟩⟩ := checked
    rcases args with _ | ⟨value, _ | ⟨_, _⟩⟩
    · exact .ret
    · exact .retValue value
    · simp at few
  | arith op =>
    simp only [ite_eq_iff, bind_eq_ok, throw_ne_ok, checkCount_eq_ok, checkResult_eq_ok]
      at checked
    obtain ⟨-, ⟨⟩, -⟩ | ⟨-, two, name, rfl⟩ := checked
    obtain ⟨a, b, rfl⟩ := List.length_eq_two.mp two
    exact .arith op name a b
  | alloca =>
    simp only [ite_eq_iff, bind_eq_ok, throw_ne_ok, checkCount_eq_ok, checkResult_eq_ok]
      at checked
    obtain ⟨-, ⟨⟩, -⟩ | ⟨-, none, name, rfl⟩ := checked
    obtain rfl := List.length_eq_zero_iff.mp none
    exact .alloca name
  | load =>
    simp only [ite_eq_iff, bind_eq_ok, throw_ne_ok, checkCount_eq_ok, checkName_eq_ok,
      checkResult_eq_ok] at checked
    obtain ⟨-, ⟨⟩, -⟩ | ⟨-, one, ⟨source, isName⟩, name, rfl⟩ := checked
    obtain ⟨arg, rfl⟩ := List.length_eq_one_iff.mp one
    obtain rfl : arg = .name source := by simpa using isName
    exact .load name source
  | store =>
    simp only [ite_eq_iff, bind_eq_ok, throw_ne_ok, checkCount_eq_ok, checkName_eq_ok,
      checkNoResult_eq_ok] at checked
    obtain ⟨-, ⟨⟩, -⟩ | ⟨-, two, ⟨target, isName⟩, rfl⟩ := checked
    obtain ⟨value, arg, rfl⟩ := List.length_eq_two.mp two
    obtain rfl : arg = .name target := by simpa using isName
    exact .store value target
  | other => exact .other result args
  | unlisted code =>
    simp only [ite_eq_iff, bind_eq_ok, throw_ne_ok] at checked
    obtain ⟨-, ⟨⟩, -⟩ | ⟨-, ⟨⟩⟩ := checked

end Instruction

/-- Names are distinct and new if the first is new and the others are distinct and new after it. -/
theorem nodup_and_new_cons_iff {α : Type} {key : α → String} {seen : List String} {a : α}
    {rest : List α} :
    (((a :: rest).map key).Nodup ∧ ∀ x ∈ a :: rest, key x ∉ seen) ↔
      key a ∉ seen ∧ (rest.map key).Nodup ∧ ∀ x ∈ rest, key x ∉ key a :: seen := by
  rw [List.map_cons, List.nodup_cons, List.forall_mem_cons]
  constructor
  · rintro ⟨⟨notLater, nodup⟩, new, later⟩
    refine ⟨new, nodup, fun x inRest => ?_⟩
    have ne : key x ≠ key a := fun same => notLater (same ▸ List.mem_map_of_mem inRest)
    exact List.not_mem_cons_of_ne_of_not_mem ne (later x inRest)
  · rintro ⟨new, nodup, later⟩
    refine ⟨⟨fun isLater => ?_, nodup⟩, new, fun x inRest isSeen => ?_⟩
    · obtain ⟨x, inRest, same⟩ := List.mem_map.mp isLater
      exact later x inRest (same ▸ List.mem_cons_self)
    · exact later x inRest (List.mem_cons_of_mem _ isSeen)

section Checks

variable {function label : String} {seen : List String}

theorem checkBody_eq_ok_iff {position : Nat} {body : List Instruction} :
    checkBody function label position body = .ok () ↔ ∀ i ∈ body, i.check = .ok () := by
  induction body generalizing position with
  | nil => simp [checkBody]
  | cons i rest ih =>
    rw [checkBody, List.forall_mem_cons]
    cases i.check with
    | error fault => simp
    | ok => simpa using ih

/-- Blocks pass the check if their labels are distinct and new and their instructions pass it. -/
theorem checkBlocks_eq_ok_iff {blocks : List Block} :
    checkBlocks function seen blocks = .ok () ↔
      ((blocks.map Block.label).Nodup ∧ ∀ b ∈ blocks, b.label ∉ seen) ∧
        ∀ b ∈ blocks, ∀ i ∈ b.body, i.check = .ok () := by
  induction blocks generalizing seen with
  | nil => simp [checkBlocks]
  | cons b rest ih =>
    rw [checkBlocks, nodup_and_new_cons_iff, List.forall_mem_cons]
    simp only [ite_eq_iff, bind_eq_ok, throw_ne_ok, checkBody_eq_ok_iff, ih, List.contains_iff_mem]
    tauto

/-- Functions pass the check if their names are distinct and new and their blocks pass it. -/
theorem checkFuncs_eq_ok_iff {funcs : List Func} :
    checkFuncs seen funcs = .ok () ↔
      ((funcs.map Func.name).Nodup ∧ ∀ f ∈ funcs, f.name ∉ seen) ∧
        ∀ f ∈ funcs, checkBlocks f.name [] f.blocks = .ok () := by
  induction funcs generalizing seen with
  | nil => simp [checkFuncs]
  | cons f rest ih =>
    rw [checkFuncs, nodup_and_new_cons_iff, List.forall_mem_cons]
    simp only [ite_eq_iff, bind_eq_ok, throw_ne_ok, ih, List.contains_iff_mem]
    tauto

/-- Globals pass the check if they have names, which are distinct and new. -/
theorem checkGlobals_eq_ok_iff {globals : List Global} :
    checkGlobals seen globals = .ok () ↔
      ((globals.map Global.name).Nodup ∧ ∀ g ∈ globals, g.name ∉ seen) ∧
        ∀ g ∈ globals, g.name ≠ "" := by
  induction globals generalizing seen with
  | nil => simp [checkGlobals]
  | cons g rest ih =>
    rw [checkGlobals, nodup_and_new_cons_iff, List.forall_mem_cons]
    simp only [ite_eq_iff, bind_eq_ok, throw_ne_ok, ih, List.contains_iff_mem]
    tauto

/-- What validation checks. -/
theorem Module.validate_eq_ok_iff {m : Module} :
    m.validate = .ok () ↔
      (m.globals.map Global.name).Nodup ∧ (∀ g ∈ m.globals, g.name ≠ "") ∧
        (m.funcs.map Func.name).Nodup ∧ ∀ f ∈ m.funcs, (f.blocks.map Block.label).Nodup ∧
          ∀ b ∈ f.blocks, ∀ i ∈ b.body, i.check = .ok () := by
  rw [validate, bind_eq_ok, checkGlobals_eq_ok_iff, checkFuncs_eq_ok_iff]
  simp only [checkBlocks_eq_ok_iff, List.not_mem_nil, not_false_eq_true, implies_true, and_true,
    and_assoc]

end Checks

/-- What validation establishes. -/
structure Module.Valid (m : Module) : Prop where
  nodup_globals : (m.globals.map Global.name).Nodup
  nodup_funcs : (m.funcs.map Func.name).Nodup
  wellFormed : ∀ f ∈ m.funcs, ∀ i ∈ f.code, i.WellFormed

/-- The instructions of every block have one of the forms. -/
theorem Module.Valid.wellFormed_body {m : Module} (valid : m.Valid) {f : Func}
    (isFunc : f ∈ m.funcs) : ∀ b ∈ f.blocks, ∀ i ∈ b.body, i.WellFormed :=
  fun b isBlock i inBody => valid.wellFormed f isFunc i (List.mem_flatMap.mpr ⟨b, isBlock, inBody⟩)

/-- What a well-formed instruction does, form by form. -/
inductive Module.Steps (m : Module) (fresh : Option Int32) (s : Store) :
    Instruction → Progress → Prop
  | ret : Steps m fresh s { opcode := .ret } (.returned 0 s)
  | retValue {value : Operand} {word : Int32} (read : s.read? m value = some word) :
    Steps m fresh s { opcode := .ret, args := [value] } (.returned word s)
  | arith {op : ArithOp} {name : String} {a b : Operand} {x y word : Int32}
    (readFirst : s.read? m a = some x) (readSecond : s.read? m b = some y)
    (computed : op.eval? x y = some word) :
    Steps m fresh s (.binary (.arith op) name a b) (.running (s.setLocal name word))
  | alloca {name : String} : Steps m fresh s (.alloca name) (.running (s.declare name fresh))
  | load {name place : String} {word : Int32} (read : s.read? m (.name place) = some word) :
    Steps m fresh s (.load name place) (.running (s.setLocal name word))
  | store {value : Operand} {target : String} {word : Int32} (read : s.read? m value = some word) :
    Steps m fresh s (.store value target) (.running (s.write m target word))
  | other {result : Option String} {args : List Operand} :
    Steps m fresh s { opcode := .other, result, args } (.running s)

/-- A step of the interpreter is one of these. -/
theorem Module.steps_of_step? {m : Module} {fresh : Option Int32} {s : Store} {i : Instruction}
    {progress : Progress} (wellFormed : i.WellFormed)
    (stepped : m.step? fresh s i = some progress) : m.Steps fresh s i progress := by
  cases wellFormed with
  | ret =>
    cases stepped
    exact .ret
  | retValue value =>
    obtain ⟨word, read, same⟩ := Option.bind_eq_some_iff.mp stepped
    cases same
    exact .retValue read
  | arith op name a b =>
    obtain ⟨x, readFirst, later⟩ := Option.bind_eq_some_iff.mp stepped
    obtain ⟨y, readSecond, last⟩ := Option.bind_eq_some_iff.mp later
    obtain ⟨word, computed, same⟩ := Option.bind_eq_some_iff.mp last
    cases same
    exact .arith readFirst readSecond computed
  | alloca name =>
    cases stepped
    exact .alloca
  | load name place =>
    obtain ⟨word, read, same⟩ := Option.bind_eq_some_iff.mp stepped
    cases same
    exact .load read
  | store value target =>
    obtain ⟨word, read, same⟩ := Option.bind_eq_some_iff.mp stepped
    cases same
    exact .store read
  | other result args =>
    cases stepped
    exact .other

theorem Module.valid_of_validate {m : Module} (validated : m.validate = .ok ()) : m.Valid := by
  obtain ⟨nodup, -, nodup', checked⟩ := validate_eq_ok_iff.mp validated
  refine ⟨nodup, nodup', fun f inModule i inCode => ?_⟩
  obtain ⟨b, inFunc, inBody⟩ := List.mem_flatMap.mp inCode
  exact Instruction.wellFormed_of_check ((checked f inModule).2 b inFunc i inBody)

end RiscBackend.IR
