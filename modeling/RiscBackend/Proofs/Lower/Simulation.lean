/-
# Lowered instructions follow the interpreter

Every instruction that the interpreter runs is matched by the code emitted for it: if
the values are where the block expects them before, they are so after, and the store
of the interpreter has moved on in the same way. One thing has to be known of the
instruction: a local that it both reads and overwrites was mentioned before in the
block, because otherwise its value is not fetched.
-/

import RiscBackend.Proofs.Alloc.FirstMention
import RiscBackend.Proofs.IR.WellFormed
import RiscBackend.Proofs.Lower.Phases

namespace RiscBackend.Lower

open IR (Instruction Block Func Operand Store Progress)
open Asm (Machine)
open Alloc
open Emit

/-- A write among the occurrences is the result or the target of a store. -/
theorem write_of_mem_touches {isLocal : String → Bool} {i : Instruction} {name : String}
    (isTouch : (name, .write) ∈ touches isLocal i) :
    i.opcode ≠ .other ∧ (i.result = some name ∨
      i.opcode = .store ∧ i.args[1]? = some (.name name) ∧ isLocal name = true) := by
  rw [touches] at isTouch
  split at isTouch
  · cases isTouch
  · rename_i lowered
    refine ⟨lowered, ?_⟩
    rcases List.mem_append.mp isTouch with isResult | isOperand
    · exact .inl (by simpa using isResult)
    · obtain ⟨-, isLocal_name, index, atIndex, isWrite⟩ := mem_operandTouches.mp isOperand
      rw [accessOf] at isWrite
      split at isWrite
      · rename_i isTarget
        simp only [Bool.and_eq_true, decide_eq_true_eq] at isTarget
        exact .inr ⟨isTarget.1, isTarget.2 ▸ atIndex, isLocal_name⟩
      · cases isWrite

variable {source : IR.Module} {base : Int} {s s' : Store} {env : Env} {m : Machine}
  {site : Site} {isGlobal : String → Bool} {b : Block} {done rest : List Instruction}
  {i : Instruction}

/-- Values that an instruction does not write are where they were. -/
theorem Planned.advance {registers crossing : List String} {t : Table} {name : String}
    {place : Place} (planned : Planned registers isGlobal crossing b t)
    (body_eq : b.body = done ++ i :: rest)
    (notWritten : (name, .write) ∉ touchesAfter isGlobal done i)
    (known : placesBy t crossing (placeBefore (done.length + 1)) name = some place) :
    placesBy t crossing (placeReady done.length) name = some place := by
  rw [placesBy] at known ⊢
  cases found : t.lookup name with
  | none =>
    rw [found] at known
    exact known
  | some iv =>
    rw [found] at known
    dsimp only at known ⊢
    have inTable := Table.mem_of_lookup found
    have fetched (here : iv.start = done.length) : iv.liveIn = true := by
      obtain ⟨done', i', rest', body_eq', start_eq, isFirst⟩ := planned.opens iv inTable
      obtain ⟨rfl, same⟩ := List.append_inj (body_eq.symm.trans body_eq') (by omega)
      obtain ⟨rfl, -⟩ := List.cons.inj same
      by_contra notLive
      rw [if_neg notLive, Table.name_of_lookup found] at isFirst
      exact notWritten (List.mem_of_find?_eq_some isFirst)
    rw [placeBefore] at known
    rw [placeReady]
    grind

/-- What the simulation has to know about an instruction and the code of its block
before it. -/
structure Fit (source : IR.Module) (s : Store) (isGlobal : String → Bool)
    (done : List Instruction) (i : Instruction) : Prop where
  wellFormed : i.WellFormed
  meaning : ∀ name, isLocalAmong isGlobal (declaredBy [] done) name = !s.denotesGlobal source name
  named : i.opcode ≠ .other → .name "" ∉ i.args
  sighted : i.opcode ≠ .other → ∀ name, i.result = some name → .name name ∈ i.args →
    s.denotesGlobal source name = false → ∃ j ∈ done, name ∈ mentions j

namespace Fit

theorem isLocalAmong_after (fit : Fit source s isGlobal done i) (notAlloca : i.opcode ≠ .alloca)
    (name : String) :
    isLocalAmong isGlobal (declaredBy [] (done ++ [i])) name = !s.denotesGlobal source name := by
  have unchanged : declaredBy [] (done ++ [i]) = declaredBy [] done := by
    rw [declaredBy_append]
    change declares i ++ _ = _
    rw [declares, if_neg notAlloca, List.nil_append]
  rw [unchanged, fit.meaning]

/-- An operand that is a local occurs in its instruction. -/
theorem mem_touchesAfter {name : String} {index : Nat} (fit : Fit source s isGlobal done i)
    (notAlloca : i.opcode ≠ .alloca) (lowered : i.opcode ≠ .other)
    (atIndex : i.args[index]? = some (.name name))
    (isLocal : s.denotesGlobal source name = false) :
    (name, accessOf i index) ∈ touchesAfter isGlobal done i := by
  refine mem_touches_of_arg lowered atIndex ?_ ?_
  · rintro rfl
    exact fit.named lowered (List.mem_of_getElem? atIndex)
  · rw [fit.isLocalAmong_after notAlloca, isLocal]
    rfl

/-- A local whose interval opens where an instruction reads it is live-in. -/
theorem liveIn_of_reads {registers crossing : List String} {t : Table} {name : String}
    {iv : Interval} (fit : Fit source s isGlobal done i) (notAlloca : i.opcode ≠ .alloca)
    (lowered : i.opcode ≠ .other) (planned : Planned registers isGlobal crossing b t)
    (body_eq : b.body = done ++ i :: rest) (reads : .name name ∈ i.readOperands)
    (isArg : .name name ∈ i.args) (isLocal : s.denotesGlobal source name = false)
    (inTable : iv ∈ t.intervals) (iv_name : iv.name = name) (here : iv.start = done.length) :
    iv.liveIn = true := by
  subst iv_name
  have isLocal_name := fit.isLocalAmong_after notAlloca iv.name
  rw [isLocal] at isLocal_name
  obtain ⟨done', i', rest', body_eq', start_eq, isFirst⟩ := planned.opens iv inTable
  obtain ⟨rfl, same⟩ := List.append_inj (body_eq.symm.trans body_eq') (by omega)
  obtain ⟨rfl, -⟩ := List.cons.inj same
  have notResult : i.result ≠ some iv.name := by
    intro isResult
    obtain ⟨j, isDone, isMention⟩ := fit.sighted lowered iv.name isResult isArg isLocal
    have localBefore := fit.meaning iv.name
    rw [isLocal] at localBefore
    obtain ⟨first, k, later, access, rfl, isTouch⟩ :=
      exists_touch_of_mentions isDone isMention localBefore
    obtain ⟨jv, inTable', same, start_le, -⟩ :=
      planned.covers first k (later ++ i :: rest) (by simp [body_eq]) _ isTouch
    obtain rfl : jv = iv := List.inj_on_of_nodup_map planned.nodup inTable' inTable same
    rw [here, List.length_append, List.length_cons] at start_le
    omega
  have readsFirst : ReadsFirst i iv.name :=
    { nonempty := fun empty => fit.named lowered (empty ▸ isArg)
      reads
      not_result := notResult
      not_target := by
        intro isStore _
        cases fit.wellFormed with
        | store value target =>
          simpa [Instruction.readOperands, Instruction.store, eq_comm] using reads
        | _ => cases isStore }
  have isRead := find?_touches_eq_read.mpr ⟨lowered, isLocal_name, readsFirst⟩
  have access_eq := isFirst.symm.trans isRead
  by_contra notLive
  rw [if_neg notLive] at access_eq
  cases access_eq

/-- **Every local that an instruction reads is where the emitted code reads it.** -/
theorem readable {operand : Operand} (fit : Fit source s isGlobal done i)
    (notAlloca : i.opcode ≠ .alloca) (lowered : i.opcode ≠ .other)
    (planned : Planned site.config.registers isGlobal site.crossing b site.table)
    (body_eq : b.body = done ++ i :: rest) (position_eq : site.position = done.length)
    (reads : operand ∈ i.readOperands) (name : String) (isName : operand = .name name)
    (isLocal : s.denotesGlobal source name = false) :
    ∃ iv, site.table.lookup name = some iv ∧
      placesBy site.table site.crossing (placeReady site.position) name =
        some (site.placeOf iv) := by
  subst isName
  have isArg : Operand.name name ∈ i.args := by
    rw [Instruction.readOperands] at reads
    split at reads
    · exact List.mem_of_mem_eraseIdx reads
    · exact reads
  obtain ⟨index, atIndex⟩ := List.mem_iff_getElem?.mp isArg
  obtain ⟨iv, inTable, iv_name, start_le, le_stop⟩ := planned.covers done i rest body_eq _
    (fit.mem_touchesAfter notAlloca lowered atIndex isLocal)
  dsimp only at iv_name
  have fetched (here : iv.start = done.length) : iv.liveIn = true :=
    fit.liveIn_of_reads notAlloca lowered planned body_eq reads isArg isLocal inTable iv_name here
  subst iv_name
  refine ⟨iv, Table.lookup_name_of_mem planned.nodup inTable, ?_⟩
  rw [placesBy_name planned.nodup inTable, placeReady, Site.placeOf, position_eq]
  grind [Interval.inRegister]

end Fit

/-- A computed value takes the place of the local that an instruction writes. -/
theorem Planned.executes_storeLocal {name rs : String} {word : Int32}
    (planned : Planned site.config.registers isGlobal site.crossing b site.table)
    (usable : site.config.Usable) (body_eq : b.body = done ++ i :: rest)
    (position_eq : site.position = done.length)
    (isWrite : (name, .write) ∈ touchesAfter isGlobal done i)
    (only : ∀ other, (other, .write) ∈ touchesAfter isGlobal done i → other = name)
    (computed : m.registers rs = .word word)
    (agrees : Agrees site.config source base
      (placesBy site.table site.crossing (placeReady site.position)) s env m) :
    (site.storeLocal name rs).Executes
      (fun _ env m => Agrees site.config source base
        (placesBy site.table site.crossing (placeBefore (site.position + 1)))
        (s.setLocal name word) env m) env m := by
  obtain ⟨iv, inTable, rfl, start_le, le_stop⟩ := planned.covers done i rest body_eq _ isWrite
  refine agrees.executes_storeLocal usable (Table.lookup_name_of_mem planned.nodup inTable)
    (planned.register_mem iv inTable) computed ?_ ?_
  · intro place known
    rw [placesBy_name planned.nodup inTable, placeBefore] at known
    rw [Site.placeOf]
    grind [Interval.inRegister]
  · intro other place ne known
    rw [position_eq] at known ⊢
    refine ⟨planned.advance body_eq (fun isWrite' => ne (only other isWrite')) known, ?_⟩
    rintro resident rfl
    obtain ⟨jv, inTable', rfl, placed⟩ := exists_interval_of_placesBy known
    obtain ⟨same, resident'⟩ := placeBefore_succ_eq_register placed
    have isResident : (done.length : Int) ∈ iv.residence :=
      Interval.mem_residence.mpr ⟨start_le, le_stop, by simpa [Interval.inRegister] using resident⟩
    exact planned.register_ne inTable' inTable ne resident' isResident same

/-- What emitted code has come to when the interpreter has come to some point of the
same code: the values are in their places, or the value that was returned is in the
register for it. A return without a value leaves that register alone. -/
def Reached (config : Config) (source : IR.Module) (base : Int)
    (places : String → Option Place) (code : List Instruction) :
    Progress → Env → Machine → Prop
  | .running s, env, m => Agrees config source base places s env m
  | .returned value s, env, m =>
    Grounded config source base s env m ∧
      (m.registers config.returnRegister = .word value ∨ { opcode := .ret } ∈ code)

/-- Only the result of an instruction that is no store is written. -/
theorem eq_of_write {name other : String} (notStore : i.opcode ≠ .store)
    (isResult : i.result = some name)
    (isWrite : (other, .write) ∈ touchesAfter isGlobal done i) : other = name := by
  obtain ⟨-, isResult' | ⟨isStore, -⟩⟩ := write_of_mem_touches isWrite
  · exact Option.some.inj (isResult'.symm.trans isResult)
  · exact absurd isStore notStore

/-- Only the target of a store is written, and only if it means a local. -/
theorem eq_target_of_write {value : Operand} {target other : String}
    (isWrite : (other, .write) ∈ touchesAfter isGlobal done (.store value target)) :
    other = target ∧
      isLocalAmong isGlobal (declaredBy [] (done ++ [.store value target])) target = true := by
  obtain ⟨-, isResult | ⟨-, atTarget, isLocal⟩⟩ := write_of_mem_touches isWrite
  · cases isResult
  · obtain rfl : target = other := by simpa [Instruction.store] using atTarget
    exact ⟨rfl, isLocal⟩

/-- The situation in which the code of an instruction is executed. -/
structure AtInstruction (source : IR.Module) (base : Int) (isGlobal : String → Bool) (b : Block)
    (done : List Instruction) (i : Instruction) (rest : List Instruction) (site : Site)
    (s : Store) (env : Env) (m : Machine) : Prop where
  fit : Fit source s isGlobal done i
  usable : site.config.Usable
  planned : Planned site.config.registers isGlobal site.crossing b site.table
  body_eq : b.body = done ++ i :: rest
  position_eq : site.position = done.length
  agrees : Agrees site.config source base
    (placesBy site.table site.crossing (placeReady site.position)) s env m

namespace AtInstruction

/-- An operand that the instruction reads is brought into a register. -/
theorem executes_loadOperand {operand : Operand} {rd : String} {word : Int32} {m' : Machine}
    (here : AtInstruction source base isGlobal b done i rest site s env m)
    (agrees : Agrees site.config source base
      (placesBy site.table site.crossing (placeReady site.position)) s env m')
    (reads : operand ∈ i.readOperands) (read : s.read? source operand = some word)
    (notAlloca : i.opcode ≠ .alloca := by simp) (lowered : i.opcode ≠ .other := by simp) :
    (site.loadOperand rd operand).Executes
      (fun _ env' m'' => env' = env ∧ m'' = m'.set rd (.word word)) env m' :=
  agrees.executes_loadOperand
    (here.fit.readable notAlloca lowered here.planned here.body_eq here.position_eq reads) read

theorem set_first (here : AtInstruction source base isGlobal b done i rest site s env m)
    {m' : Machine} (agrees : Agrees site.config source base
      (placesBy site.table site.crossing (placeReady site.position)) s env m') (word : Int32) :
    Agrees site.config source base (placesBy site.table site.crossing (placeReady site.position))
      s env (m'.set site.config.scratch.1 (.word word)) :=
  agrees.set_outside here.usable.first_not_mem here.usable.stack_ne_first _

/-- The values that the instruction does not write are where the next one expects
them. -/
theorem advance {name : String} {place : Place}
    (here : AtInstruction source base isGlobal b done i rest site s env m)
    (notWritten : (name, .write) ∉ touchesAfter isGlobal done i)
    (known : placesBy site.table site.crossing (placeBefore (site.position + 1)) name =
      some place) :
    placesBy site.table site.crossing (placeReady site.position) name = some place := by
  have position_eq := here.position_eq
  rw [position_eq] at known ⊢
  exact here.planned.advance here.body_eq notWritten known

theorem executes_arith {op : IR.ArithOp} {name : String} {first second : Operand}
    {wordA wordB word : Int32}
    (here : AtInstruction source base isGlobal b done (.binary (.arith op) name first second) rest
      site s env m)
    (readFirst : s.read? source first = some wordA)
    (readSecond : s.read? source second = some wordB) (value : op.eval? wordA wordB = some word) :
    (site.select (.binary (.arith op) name first second)).Executes
      (fun _ env m => Reached site.config source base
        (placesBy site.table site.crossing (placeBefore (site.position + 1)))
        [.binary (.arith op) name first second] (.running (s.setLocal name word)) env m)
      env m := by
  have usable := here.usable
  have loaded := here.set_first here.agrees wordA
  have loaded' := loaded.set_outside usable.second_not_mem usable.stack_ne_second (.word wordB)
  have computed : ((m.set site.config.scratch.1 (.word wordA)).set site.config.scratch.2
      (.word wordB)).execute?
        (.arith op site.config.scratch.1 site.config.scratch.1 site.config.scratch.2) =
      some (((m.set site.config.scratch.1 (.word wordA)).set site.config.scratch.2
        (.word wordB)).set site.config.scratch.1 (.word word)) := by
    simp [Machine.execute?, Machine.set_registers_of_ne _ _ usable.first_ne_second, value]
  refine executes_bind (executes_pure (executes_bind ?_))
  refine (here.executes_loadOperand here.agrees
    (by simp [Instruction.readOperands, Instruction.binary]) readFirst).mono ?_
  rintro _ _ _ ⟨rfl, rfl⟩
  refine executes_bind (executes_pure (executes_bind ?_))
  refine (here.executes_loadOperand loaded
    (by simp [Instruction.readOperands, Instruction.binary]) readSecond).mono ?_
  rintro _ _ _ ⟨rfl, rfl⟩
  refine executes_bind (executes_instr computed (executes_bind (executes_pure ?_)))
  exact here.planned.executes_storeLocal usable here.body_eq here.position_eq
    (mem_touches_of_result (by simp) rfl) (fun other => eq_of_write (by simp) rfl) (by simp)
    (here.set_first loaded' word)

theorem executes_alloca {name : String}
    (here : AtInstruction source base isGlobal b done (.alloca name) rest site s env m) :
    (site.select (.alloca name)).Executes
      (fun _ env m => Reached site.config source base
        (placesBy site.table site.crossing (placeBefore (site.position + 1)))
        [.alloca name] (.running (s.declare name none)) env m) env m := by
  refine executes_bind (executes_pure (executes_modifyEnv (here.agrees.declare ?_ ?_)))
  · intro register known
    obtain ⟨iv, inTable, -, placed⟩ := exists_interval_of_placesBy known
    rw [← (placeBefore_succ_eq_register placed).1]
    exact here.planned.register_mem iv inTable
  · intro other place ne known
    exact here.advance (fun isWrite => ne (eq_of_write (by simp) rfl isWrite)) known

theorem executes_load {name place : String} {word : Int32}
    (here : AtInstruction source base isGlobal b done (.load name place) rest site s env m)
    (read : s.read? source (.name place) = some word) :
    (site.select (.load name place)).Executes
      (fun _ env m => Reached site.config source base
        (placesBy site.table site.crossing (placeBefore (site.position + 1)))
        [.load name place] (.running (s.setLocal name word)) env m) env m := by
  have stores : (site.resultOf (.load name place) >>=
      fun result => site.storeLocal result site.config.scratch.1).Executes
      (fun _ env m => Agrees site.config source base
        (placesBy site.table site.crossing (placeBefore (site.position + 1)))
        (s.setLocal name word) env m) env (m.set site.config.scratch.1 (.word word)) :=
    executes_bind (executes_pure (here.planned.executes_storeLocal here.usable here.body_eq
      here.position_eq (mem_touches_of_result (by simp) rfl)
      (fun other => eq_of_write (by simp) rfl) (by simp) (here.set_first here.agrees word)))
  refine executes_bind (executes_pure (executes_bind (executes_getEnv ?_)))
  change (if env.isGlobal place = true then _ else _ : Emit Unit).Executes _ env m
  split
  · rename_i isGlobal
    rw [here.agrees.isGlobal_eq] at isGlobal
    have word_eq : s.globals place = word := by
      simpa [Store.read?, isGlobal] using read
    have isDefined : (source.findGlobal? place).isSome := by
      rw [Store.denotesGlobal, Bool.and_eq_true] at isGlobal
      exact isGlobal.1
    refine executes_bind ((here.agrees.executes_loadGlobal isDefined).mono ?_)
    rintro _ _ _ ⟨rfl, rfl⟩
    rw [word_eq]
    exact stores
  · refine executes_bind ((here.executes_loadOperand here.agrees
      (by simp [Instruction.readOperands, Instruction.load]) read).mono ?_)
    rintro _ _ _ ⟨rfl, rfl⟩
    exact stores

theorem executes_store {value : Operand} {target : String} {word : Int32}
    (here : AtInstruction source base isGlobal b done (.store value target) rest site s env m)
    (read : s.read? source value = some word) :
    (site.select (.store value target)).Executes
      (fun _ env m => Reached site.config source base
        (placesBy site.table site.crossing (placeBefore (site.position + 1)))
        [.store value target] (.running (s.write source target word)) env m) env m := by
  have usable := here.usable
  have loaded := here.set_first here.agrees word
  refine executes_bind (executes_pure (executes_bind (executes_pure (executes_bind ?_))))
  refine (here.executes_loadOperand here.agrees
    (by simp [Instruction.readOperands, Instruction.store]) read).mono ?_
  rintro _ env _ ⟨rfl, rfl⟩
  refine executes_bind (executes_getEnv ?_)
  change (if env.isGlobal target = true then _ else _ : Emit Unit).Executes _ env _
  rw [here.agrees.isGlobal_eq, Store.write]
  split
  · rename_i isGlobal
    have isDefined : (source.findGlobal? target).isSome := by
      rw [Store.denotesGlobal, Bool.and_eq_true] at isGlobal
      exact isGlobal.1
    have pointed := loaded.set_outside usable.second_not_mem usable.stack_ne_second
      (.symbol target)
    have hasWord := loaded.data_eq target isDefined
    have address : (m.set site.config.scratch.1 (.word word)).execute?
        (.la site.config.scratch.2 target) = some ((m.set site.config.scratch.1 (.word word)).set
          site.config.scratch.2 (.symbol target)) := by
      simp only [Machine.execute?, hasWord, Option.isSome_some, if_true]
    have written : ((m.set site.config.scratch.1 (.word word)).set site.config.scratch.2
        (.symbol target)).execute? (.sw site.config.scratch.1 0 site.config.scratch.2) =
        some { (m.set site.config.scratch.1 (.word word)).set site.config.scratch.2
          (.symbol target) with data := Function.update m.data target (some (.word word)) } := by
      rw [Machine.set_data] at hasWord
      simp [Machine.execute?, Machine.store?, hasWord,
        Machine.set_registers_of_ne _ _ usable.first_ne_second]
    refine executes_bind (executes_instr address (executes_instr written
      ((pointed.set_global word).weaken fun name place known => here.advance ?_ known)))
    intro isWrite
    have isLocal := (eq_target_of_write isWrite).2
    rw [here.fit.isLocalAmong_after (by simp), isGlobal] at isLocal
    cases isLocal
  · rename_i notGlobal
    have isLocal : s.denotesGlobal source target = false := by simpa using notGlobal
    have isWrite : (target, .write) ∈ touchesAfter isGlobal done (.store value target) :=
      here.fit.mem_touchesAfter (by simp) (by simp)
        (show [value, .name target][1]? = _ from rfl) isLocal
    exact here.planned.executes_storeLocal usable here.body_eq here.position_eq isWrite
      (fun other isWrite' => (eq_target_of_write isWrite').1) (by simp) loaded

/-- **One instruction.** Its code takes the values from where the instruction reads
them to where the next one expects them. -/
theorem executes_select {progress : Progress}
    (here : AtInstruction source base isGlobal b done i rest site s env m)
    (stepped : source.step? none s i = some progress) :
    (site.select i).Executes
      (fun _ env m => Reached site.config source base
        (placesBy site.table site.crossing (placeBefore (site.position + 1))) [i] progress env m)
      env m := by
  cases source.steps_of_step? here.fit.wellFormed stepped with
  | ret => exact executes_pure ⟨here.agrees.toGrounded, .inr (by simp)⟩
  | retValue read =>
    refine (here.executes_loadOperand here.agrees
      (by simp [Instruction.readOperands]) read).mono ?_
    rintro _ _ _ ⟨rfl, rfl⟩
    exact ⟨here.agrees.toGrounded.set here.usable.stack_ne_return _, .inl (by simp)⟩
  | arith readFirst readSecond computed =>
    exact here.executes_arith readFirst readSecond computed
  | alloca => exact here.executes_alloca
  | load read => exact here.executes_load read
  | store read => exact here.executes_store read
  | other =>
    refine executes_pure (here.agrees.weaken fun name place known => here.advance ?_ known)
    exact fun isWrite => (write_of_mem_touches isWrite).1 rfl

end AtInstruction

end RiscBackend.Lower
