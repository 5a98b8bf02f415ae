/-
# Loads, stores and moves

The lemmas of this module say what the machine does for the small pieces of code that
lowering is made of: an operand is brought into a register, a computed value is moved
to the place of a local, and values are spilled, reloaded and written back. Each is
stated for any two placements, before and after, so that the choice of the placements
is left to the argument about a block.
-/

import RiscBackend.Proofs.Lower.Placement

namespace RiscBackend.Lower

open IR (Store Operand)
open Asm (Machine Value Instr Line)
open Alloc (Interval)
open Emit

variable {source : IR.Module} {base : Int} {places places' : String → Option Place}
  {s s' : Store} {env : Env} {m : Machine} {site : Site}

namespace Site

theorem executes_unresolved {fault : PlacementFault} {done : Unit → Env → Machine → Prop}
    (kept : done () env m) : (site.unresolved fault).Executes done env m := by
  rw [unresolved]
  split
  · exact executes_diagnose kept
  · split
    · exact executes_diagnose kept
    · exact executes_pure kept

theorem executes_slotFor {name : String} {promise : Int64 → Env → Machine → Prop}
    (kept : ∀ offset frame, env.frame.slotFor name = .ok (offset, frame) →
      promise offset { env with frame } m) : (site.slotFor name).Executes promise env m := by
  refine executes_bind (executes_getEnv ?_)
  split
  · rename_i offset env' given
    obtain ⟨frame, fromFrame, rfl⟩ := Env.slotFor_eq_ok given
    exact executes_bind (executes_modifyEnv (executes_pure (kept offset frame fromFrame)))
  · exact executes_fail

/-- The place from which the code at a site reads a local and to which it writes
one. -/
def placeOf (site : Site) (iv : Interval) : Place :=
  if iv.inRegister site.position then .register iv.register else .slot

/-- Whether the value of an interval is fetched at a site. -/
def Fetches (site : Site) (iv : Interval) : Prop :=
  iv.liveIn = true ∧ iv.start = site.position ∧ iv.inRegister site.position = true

/-- A value that is fetched goes from its slot to its register. A name without a slot
gets nothing, and nothing else changes. -/
theorem executes_reload {iv : Interval}
    (stack_eq : m.registers site.config.stackRegister = .stack base) :
    (site.reload iv).Executes
      (fun _ env' m' => env' = env ∧
        (m' = m ∧ (site.Fetches iv → env.frame.offset? iv.name = none) ∨
          site.Fetches iv ∧ ∃ offset, env.frame.offset? iv.name = some offset ∧
            m' = m.set iv.register (m.stack (base + offset.toInt)))) env m := by
  rw [reload]
  by_cases fetched : site.Fetches iv
  · obtain ⟨liveIn, here, resident⟩ := fetched
    rw [if_neg (by simp [liveIn, here, resident])]
    refine executes_bind (executes_getEnv ?_)
    rw [Frame.resolve]
    cases hasSlot : env.frame.offset? iv.name with
    | some offset =>
      have loaded : m.execute? (.lw iv.register offset site.config.stackRegister) =
          some (m.set iv.register (m.stack (base + offset.toInt))) := by
        simp [Machine.execute?, Machine.load?, stack_eq]
      exact executes_line rfl loaded ⟨rfl, .inr ⟨⟨liveIn, here, resident⟩, offset, rfl, rfl⟩⟩
    | none => exact executes_unresolved ⟨rfl, .inl ⟨rfl, fun _ => rfl⟩⟩
  · have skipped : (!iv.liveIn || iv.start != site.position ||
        !iv.inRegister site.position) = true := by
      rw [Fetches] at fetched
      grind
    rw [if_pos skipped]
    exact executes_pure ⟨rfl, .inl ⟨rfl, fun fetches => absurd fetches fetched⟩⟩

end Site

namespace Grounded

variable {config : Config}

theorem execute_sw (grounded : Grounded config source base s env m) (rs : String)
    (offset : Int64) : m.execute? (.sw rs offset config.stackRegister) =
      some { m with stack := Function.update m.stack (base + offset.toInt) (m.registers rs) } := by
  simp [Machine.execute?, Machine.store?, grounded.stack_eq]

theorem execute_lw (grounded : Grounded config source base s env m) (rd : String)
    (offset : Int64) : m.execute? (.lw rd offset config.stackRegister) =
      some (m.set rd (m.stack (base + offset.toInt))) := by
  simp [Machine.execute?, Machine.load?, grounded.stack_eq]

theorem executes_loadGlobal {name rd : String} (grounded : Grounded config source base s env m)
    (isGlobal : (source.findGlobal? name).isSome) :
    (Site.loadGlobal rd name).Executes
      (fun _ env' m' => env' = env ∧ m' = m.set rd (.word (s.globals name))) env m := by
  have word := grounded.data_eq name isGlobal
  have address : m.execute? (.la rd name) = some (m.set rd (.symbol name)) := by
    simp [Machine.execute?, word]
  have content : (m.set rd (.symbol name)).execute? (.lw rd 0 rd) =
      some (m.set rd (.word (s.globals name))) := by
    simp [Machine.execute?, Machine.load?, word]
  exact executes_bind (executes_instr address (executes_instr content ⟨rfl, rfl⟩))

end Grounded

namespace Agrees

/-- A local is loaded from its place. -/
theorem executes_loadLocal {name rd : String} {iv : Interval} {word : Int32}
    (agrees : Agrees site.config source base places s env m)
    (found : site.table.lookup name = some iv) (placed : places name = some (site.placeOf iv))
    (wordOf : s.locals name = some word) :
    (site.loadLocal rd name).Executes
      (fun _ env' m' => env' = env ∧ m' = m.set rd (.word word)) env m := by
  have held := agrees.holds name _ word placed wordOf
  rw [Site.loadLocal, found]
  dsimp only
  by_cases resident : iv.inRegister site.position = true
  · rw [Site.placeOf, if_pos resident] at held
    rw [if_pos resident]
    exact executes_instr (congrArg (fun value => some (m.set rd value)) held) ⟨rfl, rfl⟩
  · rw [Site.placeOf, if_neg resident] at held
    obtain ⟨offset, hasSlot, kept⟩ := held
    rw [if_neg resident]
    refine executes_bind (executes_getEnv ?_)
    simp only [Frame.resolve, hasSlot]
    refine executes_instr (agrees.execute_lw rd offset) ⟨rfl, ?_⟩
    rw [kept]

/-- An operand is brought into a register, if the locals among the operands are
where the site looks for them. -/
theorem executes_loadOperand {operand : Operand} {rd : String} {word : Int32}
    (agrees : Agrees site.config source base places s env m)
    (readable : ∀ name, operand = .name name → s.denotesGlobal source name = false →
      ∃ iv, site.table.lookup name = some iv ∧ places name = some (site.placeOf iv))
    (read : s.read? source operand = some word) :
    (site.loadOperand rd operand).Executes
      (fun _ env' m' => env' = env ∧ m' = m.set rd (.word word)) env m := by
  cases operand with
  | const value =>
    cases read
    exact executes_instr rfl ⟨rfl, rfl⟩
  | name name =>
    refine executes_bind (executes_getEnv ?_)
    rw [agrees.isGlobal_eq]
    rw [Store.read?] at read
    cases meaning : s.denotesGlobal source name with
    | true =>
      rw [meaning] at read
      cases read
      rw [Store.denotesGlobal, Bool.and_eq_true] at meaning
      exact agrees.executes_loadGlobal meaning.1
    | false =>
      rw [meaning] at read
      obtain ⟨iv, found, placed⟩ := readable name rfl meaning
      exact agrees.executes_loadLocal found placed read
  | hole => cases read

/-- A computed value is moved to the place of a local. -/
theorem executes_storeLocal {name rs : String} {iv : Interval} {word : Int32}
    (agrees : Agrees site.config source base places s env m) (usable : site.config.Usable)
    (found : site.table.lookup name = some iv) (inPool : iv.register ∈ site.config.registers)
    (computed : m.registers rs = .word word)
    (here : ∀ place, places' name = some place → place = site.placeOf iv)
    (others : ∀ other place, other ≠ name → places' other = some place →
      places other = some place ∧
        (iv.inRegister site.position = true → place ≠ .register iv.register)) :
    (site.storeLocal name rs).Executes
      (fun _ env' m' => Agrees site.config source base places' (s.setLocal name word) env' m')
      env m := by
  have written (value : Int32) (isNew : (s.setLocal name word).locals name = some value) :
      m.registers rs = .word value := by
    have value_eq : word = value := by simpa [Store.setLocal] using isNew
    rw [computed, value_eq]
  have same := sameBut_setLocal name s word
  rw [Site.storeLocal, found]
  dsimp only
  by_cases resident : iv.inRegister site.position = true
  · rw [if_pos resident]
    have ne : site.config.stackRegister ≠ iv.register := fun h =>
      usable.stack_not_mem (h ▸ inPool)
    refine executes_instr rfl (agrees.set_register inPool ne same ?_ ?_)
    · intro place known
      have place_eq := here place known
      rw [Site.placeOf, if_pos resident] at place_eq
      exact ⟨place_eq, written⟩
    · intro other place isOther known
      obtain ⟨old, free⟩ := others other place isOther known
      exact ⟨old, free resident⟩
  · rw [if_neg resident]
    refine executes_bind (Site.executes_slotFor fun offset frame given => ?_)
    refine executes_instr (agrees.execute_sw rs offset) (agrees.set_slot given same ?_ ?_)
    · intro place known
      have place_eq := here place known
      rw [Site.placeOf, if_neg resident] at place_eq
      exact ⟨place_eq, written⟩
    · intro other place isOther known
      exact (others other place isOther known).1

/-- A value that is evicted is saved, unless it has none yet. -/
theorem executes_spill {iv : Interval} (agrees : Agrees site.config source base places s env m)
    (others : ∀ other, other ≠ iv.name → places' other = places other)
    (still : iv.start = site.position → places' iv.name = places iv.name)
    (moved : iv.start ≠ site.position → ∀ place, places' iv.name = some place →
      place = .slot ∧ places iv.name = some (.register iv.register)) :
    (site.spill iv).Executes (fun _ env' m' => Agrees site.config source base places' s env' m')
      env m := by
  rw [Site.spill]
  by_cases here : iv.start = site.position
  · rw [if_pos here]
    exact executes_pure (agrees.weaken_at others fun place known => still here ▸ known)
  · rw [if_neg here]
    refine executes_bind (Site.executes_slotFor fun offset frame given => ?_)
    have saved := agrees.save given others (moved here)
    refine executes_bind (executes_line rfl (agrees.execute_sw iv.register offset) ?_)
    split
    · exact executes_diagnose saved
    · exact executes_pure saved

/-- A value that arrives from an earlier block is fetched at its first use. -/
theorem executes_reload {iv : Interval} (agrees : Agrees site.config source base places s env m)
    (usable : site.config.Usable) (inPool : iv.register ∈ site.config.registers)
    (others : ∀ other, other ≠ iv.name → places' other = places other)
    (still : ¬ site.Fetches iv →
      ∀ place, places' iv.name = some place → places iv.name = some place)
    (moved : site.Fetches iv →
      (∀ place, places' iv.name = some place →
        place = .register iv.register ∧ places iv.name = some .slot) ∧
      ∀ other, other ≠ iv.name → places other ≠ some (.register iv.register)) :
    (site.reload iv).Executes (fun _ env' m' => Agrees site.config source base places' s env' m')
      env m := by
  have fetch (fetched : site.Fetches iv) (value : Value)
      (isWord : ∀ word, Holds base env m iv.name word .slot → value = .word word) :
      Agrees site.config source base places' s env (m.set iv.register value) := by
    obtain ⟨toRegister, alone⟩ := moved fetched
    have ne : site.config.stackRegister ≠ iv.register := fun h =>
      usable.stack_not_mem (h ▸ inPool)
    refine agrees.set_register inPool ne (.refl iv.name s) ?_ ?_
    · intro place known
      obtain ⟨place_eq, old⟩ := toRegister place known
      exact ⟨place_eq, fun word wordOf => isWord word (agrees.holds iv.name .slot word old wordOf)⟩
    · intro other place isOther known
      rw [others other isOther] at known
      exact ⟨known, fun h => alone other isOther (h ▸ known)⟩
  refine (Site.executes_reload agrees.stack_eq).mono ?_
  rintro _ env m' ⟨rfl, ⟨rfl, noSlot⟩ | ⟨fetched, offset, hasSlot, rfl⟩⟩
  · by_cases fetched : site.Fetches iv
    · -- A name without a slot has no value here, so nothing is promised about it.
      have unchanged : m'.set iv.register (m'.registers iv.register) = m' := by
        simp [Machine.set]
      rw [← unchanged]
      refine fetch fetched _ ?_
      rintro word ⟨offset, isOwn, -⟩
      rw [noSlot fetched] at isOwn
      cases isOwn
    · exact agrees.weaken_at others (still fetched)
  · refine fetch fetched _ ?_
    rintro word ⟨own, isOwn, kept⟩
    obtain rfl : own = offset := Option.some.inj (isOwn.symm.trans hasSlot)
    exact kept

/-- A value that another block mentions is written back at the end of the block. -/
theorem executes_writeBack {iv : Interval} (agrees : Agrees site.config source base places s env m)
    (others : ∀ other, other ≠ iv.name → places' other = places other)
    (still : ¬ (iv.name ∈ site.crossing ∧ iv.inRegister site.position = true) →
      ∀ place, places' iv.name = some place → places iv.name = some place)
    (moved : iv.name ∈ site.crossing → iv.inRegister site.position = true →
      ∀ place, places' iv.name = some place →
        place = .slot ∧ places iv.name = some (.register iv.register)) :
    (site.writeBack iv).Executes
      (fun _ env' m' => Agrees site.config source base places' s env' m') env m := by
  rw [Site.writeBack]
  by_cases written : iv.name ∈ site.crossing ∧ iv.inRegister site.position = true
  · obtain ⟨crosses, resident⟩ := written
    rw [if_neg (by simp [crosses, resident])]
    refine executes_bind (Site.executes_slotFor fun offset frame given => ?_)
    exact executes_line rfl (agrees.execute_sw iv.register offset)
      (agrees.save given others (moved crosses resident))
  · have skipped : (!site.crossing.contains iv.name || !iv.inRegister site.position) = true := by
      grind
    rw [if_pos skipped]
    exact executes_pure (agrees.weaken_at others (still written))

end Agrees

end RiscBackend.Lower
