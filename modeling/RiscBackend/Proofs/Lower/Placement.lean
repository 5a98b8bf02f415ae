/-
# Where values are kept

Between two lowered instructions the value of a local is in a register or in the slot
of its name. A placement says for each name where its value is to be found, or that
nothing is known about it. `Agrees` relates a store of the interpreter to an
environment and a machine under a placement: the globals are in the words of their
symbols, the stack register points to the frame, and every value of a local is where
the placement says.

Each way in which lowered code moves a value, to a scratch register, to a register of
the pool or to a slot, has one lemma here that says which placement holds afterwards.
-/

import RiscBackend.Lower.Block
import RiscBackend.Proofs.Config.Chosen
import RiscBackend.Proofs.Lower.Execution
import RiscBackend.Proofs.Lower.Frame

namespace RiscBackend.Lower

open IR (Store Operand)
open Asm (Machine Value Instr Line)
open Emit (Executes)

/-- A place for the value of a local. -/
inductive Place where
  | register (name : String)
  | slot
  deriving DecidableEq

/-- Whether the value of a name is in a place, where `base` is the address of the
frame. -/
def Holds (base : Int) (env : Env) (m : Machine) (name : String) (value : Int32) : Place → Prop
  | .register register => m.registers register = .word value
  | .slot => ∃ offset, env.frame.offset? name = some offset ∧
      m.stack (base + offset.toInt) = .word value

/-- The part of the relation between a run and its lowered code that does not depend
on where locals are kept. -/
structure Grounded (config : Config) (source : IR.Module) (base : Int) (s : Store) (env : Env)
    (m : Machine) : Prop where
  stack_eq : m.registers config.stackRegister = .stack base
  data_eq : ∀ name, (source.findGlobal? name).isSome → m.data name = some (.word (s.globals name))
  defines_eq : ∀ name, env.defines name = (source.findGlobal? name).isSome
  hidden_eq : env.hidden = s.declared
  wellFormed : env.frame.WellFormed

/-- A store, an environment and a machine that agree under a placement. -/
structure Agrees (config : Config) (source : IR.Module) (base : Int)
    (places : String → Option Place) (s : Store) (env : Env) (m : Machine) : Prop
    extends Grounded config source base s env m where
  inPool : ∀ name register, places name = some (.register register) → register ∈ config.registers
  holds : ∀ name place value, places name = some place → s.locals name = some value →
    Holds base env m name value place

variable {config : Config} {source : IR.Module} {base : Int}
  {places places' : String → Option Place} {s s' : Store} {env : Env} {m : Machine}

/-- Lowering and interpreter agree on what a name means. -/
theorem Grounded.isGlobal_eq (grounded : Grounded config source base s env m) (name : String) :
    env.isGlobal name = s.denotesGlobal source name := by
  rw [Env.isGlobal, Store.denotesGlobal, grounded.defines_eq, Env.isHidden, grounded.hidden_eq]

theorem Grounded.set {register : String} (grounded : Grounded config source base s env m)
    (ne : config.stackRegister ≠ register) (value : Value) :
    Grounded config source base s env (m.set register value) :=
  { grounded with
    stack_eq := by rw [Machine.set_registers_of_ne _ _ ne, grounded.stack_eq] }

namespace Agrees

/-- Knowing less is still knowing. -/
theorem weaken (agrees : Agrees config source base places s env m)
    (less : ∀ name place, places' name = some place → places name = some place) :
    Agrees config source base places' s env m :=
  { agrees with
    inPool := fun name register known => agrees.inPool name register (less _ _ known)
    holds := fun name place value known => agrees.holds name place value (less _ _ known) }

/-- Knowing less about one name. -/
theorem weaken_at {name : String} (agrees : Agrees config source base places s env m)
    (others : ∀ other, other ≠ name → places' other = places other)
    (here : ∀ place, places' name = some place → places name = some place) :
    Agrees config source base places' s env m := by
  refine agrees.weaken fun other place known => ?_
  by_cases isName : other = name
  · subst isName
    exact here place known
  · rw [← others other isName]
    exact known

/-- A register outside the pool holds no local. -/
theorem set_outside {register : String} (agrees : Agrees config source base places s env m)
    (outside : register ∉ config.registers) (ne : config.stackRegister ≠ register)
    (value : Value) : Agrees config source base places s env (m.set register value) :=
  { agrees.toGrounded.set ne value with
    inPool := agrees.inPool
    holds := by
      intro name place word known written
      have old := agrees.holds name place word known written
      cases place with
      | register held =>
        have differ : held ≠ register := fun same =>
          outside (same ▸ agrees.inPool name held known)
        exact (Machine.set_registers_of_ne m value differ).trans old
      | slot => exact old }

end Agrees

/-- Stores that differ in the value of one local at most. -/
structure SameBut (name : String) (s s' : Store) : Prop where
  globals_eq : s'.globals = s.globals
  declared_eq : s'.declared = s.declared
  locals_eq : ∀ other, other ≠ name → s'.locals other = s.locals other

theorem SameBut.refl (name : String) (s : Store) : SameBut name s s :=
  ⟨rfl, rfl, fun _ _ => rfl⟩

theorem sameBut_setLocal (name : String) (s : Store) (value : Int32) :
    SameBut name s (s.setLocal name value) :=
  ⟨rfl, rfl, fun _ ne => Function.update_of_ne ne _ _⟩

theorem Grounded.of_sameBut {name : String} (grounded : Grounded config source base s env m)
    (same : SameBut name s s') : Grounded config source base s' env m :=
  { grounded with
    data_eq := same.globals_eq ▸ grounded.data_eq
    hidden_eq := same.declared_eq ▸ grounded.hidden_eq }

namespace Agrees

/-- A value moves to a register that no other local is kept in. -/
theorem set_register {name register : String} {value : Value}
    (agrees : Agrees config source base places s env m) (inPool : register ∈ config.registers)
    (ne : config.stackRegister ≠ register) (same : SameBut name s s')
    (here : ∀ place, places' name = some place →
      place = .register register ∧ ∀ word, s'.locals name = some word → value = .word word)
    (others : ∀ other place, other ≠ name → places' other = some place →
      places other = some place ∧ place ≠ .register register) :
    Agrees config source base places' s' env (m.set register value) :=
  { (agrees.toGrounded.of_sameBut same).set ne value with
    inPool := by
      intro other held known
      by_cases isName : other = name
      · subst isName
        cases (here _ known).1
        exact inPool
      · exact agrees.inPool other held (others other _ isName known).1
    holds := by
      intro other place word known wordOf
      by_cases isName : other = name
      · subst isName
        obtain ⟨rfl, written⟩ := here _ known
        exact (Machine.set_registers_self m register value).trans (written word wordOf)
      · obtain ⟨old, free⟩ := others other place isName known
        rw [same.locals_eq other isName] at wordOf
        have held := agrees.holds other place word old wordOf
        cases place with
        | register kept =>
          have differ : kept ≠ register := fun h => free (h ▸ rfl)
          exact (Machine.set_registers_of_ne m value differ).trans held
        | slot => exact held }

/-- A value moves to the slot of its name. -/
theorem set_slot {name : String} {offset : Int64} {frame : Frame} {value : Value}
    (agrees : Agrees config source base places s env m)
    (given : env.frame.slotFor name = .ok (offset, frame)) (same : SameBut name s s')
    (here : ∀ place, places' name = some place →
      place = .slot ∧ ∀ word, s'.locals name = some word → value = .word word)
    (others : ∀ other place, other ≠ name → places' other = some place →
      places other = some place) :
    Agrees config source base places' s' { env with frame }
      { m with stack := Function.update m.stack (base + offset.toInt) value } := by
  obtain ⟨wellFormed, own, rest⟩ := agrees.wellFormed.slotFor given
  exact
    { agrees.toGrounded.of_sameBut same with
      wellFormed
      inPool := by
        intro other held known
        by_cases isName : other = name
        · subst isName
          cases (here _ known).1
        · exact agrees.inPool other held (others other _ isName known)
      holds := by
        intro other place word known wordOf
        by_cases isName : other = name
        · subst isName
          obtain ⟨rfl, written⟩ := here _ known
          exact ⟨offset, own, (Function.update_self ..).trans (written word wordOf)⟩
        · rw [same.locals_eq other isName] at wordOf
          have held := agrees.holds other place word (others other place isName known) wordOf
          cases place with
          | register kept => exact held
          | slot =>
            obtain ⟨old, isOld, kept⟩ := held
            have isNew : frame.offset? other = some old := (rest other isName).trans isOld
            -- Different names have different slots, so the word of the other one stays.
            have differ : base + old.toInt ≠ base + offset.toInt := by
              intro sameAddress
              have sameOffset : old = offset := Int64.toInt_inj.mp (by omega)
              exact isName (wellFormed.injective other name offset (sameOffset ▸ isNew) own)
            exact ⟨old, isNew, (Function.update_of_ne differ _ _).trans kept⟩ }

/-- A value is saved from its register to its slot. -/
theorem save {name register : String} {offset : Int64} {frame : Frame}
    (agrees : Agrees config source base places s env m)
    (given : env.frame.slotFor name = .ok (offset, frame))
    (others : ∀ other, other ≠ name → places' other = places other)
    (moved : ∀ place, places' name = some place →
      place = .slot ∧ places name = some (.register register)) :
    Agrees config source base places' s { env with frame }
      { m with stack := Function.update m.stack (base + offset.toInt) (m.registers register) } := by
  refine agrees.set_slot given (.refl name s) ?_ ?_
  · intro place known
    obtain ⟨place_eq, old⟩ := moved place known
    exact ⟨place_eq, fun word wordOf => agrees.holds name _ word old wordOf⟩
  · intro other place isOther known
    rw [← others other isOther]
    exact known

/-- The word of a global changes. -/
theorem set_global {name : String} (agrees : Agrees config source base places s env m)
    (word : Int32) :
    Agrees config source base places
      { s with globals := Function.update s.globals name word } env
      { m with data := Function.update m.data name (some (.word word)) } :=
  { agrees with
    data_eq := by
      intro other isGlobal
      by_cases isName : other = name
      · subst isName
        simp
      · simpa [isName] using agrees.data_eq other isGlobal }

/-- A declaration takes its value away from a local and makes its name mean it. -/
theorem declare {name : String} (agrees : Agrees config source base places s env m)
    (inPool : ∀ register, places' name = some (.register register) → register ∈ config.registers)
    (others : ∀ other place, other ≠ name → places' other = some place →
      places other = some place) :
    Agrees config source base places' (s.declare name none) (env.hide name) m :=
  { agrees with
    hidden_eq := congrArg (name :: ·) agrees.hidden_eq
    inPool := by
      intro other register known
      by_cases isName : other = name
      · exact inPool register (isName ▸ known)
      · exact agrees.inPool other register (others other _ isName known)
    holds := by
      intro other place word known wordOf
      by_cases isName : other = name
      · simp [Store.declare, isName] at wordOf
      · have old : s.locals other = some word := by
          simpa [Store.declare, isName] using wordOf
        exact agrees.holds other place word (others other place isName known) old }

end Agrees

end RiscBackend.Lower
