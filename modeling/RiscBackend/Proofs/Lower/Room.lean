/-
# One word for each name is enough

Slots of a frame are asked for when a value is evicted, when a result goes to a name that
was evicted, and when a value is written back at the end of a block. All of them are asked
for in the name of an interval, which is a name that the function mentions, and a name that
has a slot is given the same one again. So a frame with one word for each name never runs
out of room, whatever the blocks, the registers and the evictions are, and for checked
instructions in lenient mode there is nothing else that can fail.
-/

import Mathlib.Data.List.Dedup
import RiscBackend.Proofs.Alloc.Decisions
import RiscBackend.Proofs.Lower.Frame
import RiscBackend.Proofs.Lower.Independence
import RiscBackend.Proofs.Lower.Plan

namespace RiscBackend.Lower

open IR (Operand Instruction Block Func Global Module)
open Alloc (Interval mentions)
open Asm (Line Instr)
open Emit

namespace Frame

/-- A frame that was given out by names, with a word for each of them. -/
structure Roomy (names : List String) (f : Frame) : Prop where
  nodup : (f.slots.map Prod.fst).Nodup
  subset : f.slots.map Prod.fst ⊆ names
  next_eq : f.next.toInt = f.size.toInt - 4 * f.slots.length
  room : 4 * (names.dedup.length : Int) ≤ f.size.toInt

theorem roomy_ofSize {names : List String} {size : Int64}
    (room : 4 * (names.dedup.length : Int) ≤ size.toInt) : (ofSize size).Roomy names where
  nodup := List.nodup_nil
  subset := List.nil_subset _
  next_eq := by simp [ofSize]
  room := room

variable {names : List String} {f : Frame} {name : String}

/-- While a name is without a slot, there are fewer slots than names. -/
theorem Roomy.length_slots_lt (roomy : f.Roomy names) (isName : name ∈ names)
    (isNew : name ∉ f.slots.map Prod.fst) : f.slots.length < names.dedup.length := by
  have distinct : (name :: f.slots.map Prod.fst).Nodup := List.nodup_cons.mpr ⟨isNew, roomy.nodup⟩
  have known : name :: f.slots.map Prod.fst ⊆ names.dedup := by
    intro other isMember
    rw [List.mem_dedup]
    rcases List.mem_cons.mp isMember with rfl | hasSlot
    · exact isName
    · exact roomy.subset hasSlot
  have count := (distinct.subperm known).length_le
  simpa using count

/-- A name gets its slot, and there is still a word for each name. -/
theorem Roomy.slotFor (roomy : f.Roomy names) (isName : name ∈ names) :
    ∃ offset f', f.slotFor name = .ok (offset, f') ∧ f'.Roomy names := by
  rw [Frame.slotFor]
  cases known : f.offset? name with
  | some offset => exact ⟨offset, f, rfl, roomy⟩
  | none =>
    have isNew := (f.offset?_eq_none_iff name).mp known
    have fewer := roomy.length_slots_lt isName isNew
    have next_eq := roomy.next_eq
    have room := roomy.room
    have offset_eq : (f.next - slotSize).toInt = f.next.toInt - 4 :=
      toInt_sub_slotSize_of_nonneg (by omega)
    have fits : ¬ f.next - slotSize < 0 := by
      rw [Int64.lt_iff_toInt_lt, offset_eq, Int64.toInt_zero]
      omega
    have keys := keys_setOffset name (f.next - slotSize) f.slots
    rw [if_neg isNew] at keys
    have length_eq := congrArg List.length keys
    simp only [List.length_map, List.length_append, List.length_singleton] at length_eq
    refine ⟨f.next - slotSize, _, if_neg fits, ?_, ?_, ?_, room⟩
    · rw [keys, ← List.concat_eq_append]
      exact roomy.nodup.concat isNew
    · rw [keys]
      exact List.append_subset.mpr ⟨roomy.subset, by simpa using isName⟩
    · rw [offset_eq, length_eq, next_eq]
      push_cast
      omega

end Frame

namespace Emit

variable {α β : Type} {kept : Env → Prop} {step : Emit α}

/-- A step that does not fail from environments of a kind, and leads to such again. -/
def Succeeds (kept : Env → Prop) (step : Emit α) : Prop :=
  ∀ env, kept env → (∃ a, (step.run env).outcome = .ok a) ∧ kept (step.run env).env

theorem succeeds_pure (a : α) : Succeeds kept (pure a) :=
  fun _ isKept => ⟨⟨a, rfl⟩, isKept⟩

theorem succeeds_line (l : Line) : Succeeds kept (line l) :=
  fun _ isKept => ⟨⟨(), rfl⟩, isKept⟩

theorem succeeds_instr (i : Instr) : Succeeds kept (instr i) :=
  succeeds_line _

theorem succeeds_diagnose (d : Diagnostic) : Succeeds kept (diagnose d) :=
  fun _ isKept => ⟨⟨(), rfl⟩, isKept⟩

theorem succeeds_modifyEnv {update : Env → Env} (keeps : ∀ env, kept env → kept (update env)) :
    Succeeds kept (modifyEnv update) :=
  fun env isKept => ⟨⟨(), rfl⟩, keeps env isKept⟩

theorem Succeeds.bind {next : α → Emit β} (first : Succeeds kept step)
    (second : ∀ a, Succeeds kept (next a)) : Succeeds kept (step >>= next) := by
  intro env isKept
  obtain ⟨⟨a, outcome⟩, isKept'⟩ := first env isKept
  rw [run_bind_of_ok outcome]
  exact second a _ isKept'

theorem succeeds_getEnv_bind {next : Env → Emit β} (goesOn : ∀ env, Succeeds kept (next env)) :
    Succeeds kept (getEnv >>= next) :=
  fun env => goesOn env env

theorem Succeeds.ite {c : Prop} [Decidable c] {other : Emit α} (first : Succeeds kept step)
    (second : Succeeds kept other) : Succeeds kept (if c then step else other) := by
  split
  · exact first
  · exact second

theorem succeeds_forEach {body : α → Emit Unit} {members : List α}
    (each : ∀ a ∈ members, Succeeds kept (body a)) : Succeeds kept (forEach body members) :=
  forEach_of_forall_mem (succeeds_pure ()) (fun first second => first.bind fun _ => second) each

/-- A step goes well that opens such an environment and succeeds from there. -/
theorem outcome_modifyEnv_bind {update : Env → Env} {next : Unit → Emit Unit} {env : Env}
    (opened : kept (update env)) (goesOn : Succeeds kept (next ())) :
    ((modifyEnv update >>= next).run env).outcome = .ok () :=
  (goesOn _ opened).1.elim fun _ outcome => outcome

end Emit

/-- The frame of an environment has a word for each name. -/
def Env.Roomy (names : List String) (env : Env) : Prop :=
  env.frame.Roomy names

namespace Site

variable {site : Site} {names : List String}

theorem succeeds_slotFor {name : String} (isName : name ∈ names) :
    Succeeds (Env.Roomy names) (site.slotFor name) := by
  intro env roomy
  obtain ⟨offset, frame, given, roomy'⟩ := Frame.Roomy.slotFor roomy isName
  have given' : env.slotFor name = .ok (offset, { env with frame }) := by
    rw [Env.slotFor, given]
    rfl
  rw [run_slotFor_of_ok given']
  exact ⟨⟨offset, rfl⟩, roomy'⟩

theorem succeeds_unresolved {kept : Env → Prop} (fault : PlacementFault) :
    Succeeds kept (site.unresolved fault) := by
  intro env isKept
  rw [run_unresolved_eq]
  exact ⟨⟨(), rfl⟩, isKept⟩

theorem succeeds_spill {iv : Interval} (isName : iv.name ∈ names) :
    Succeeds (Env.Roomy names) (site.spill iv) := by
  apply Succeeds.ite (succeeds_pure ())
  apply (succeeds_slotFor isName).bind fun offset => (succeeds_line _).bind fun _ => ?_
  exact .ite (succeeds_diagnose _) (succeeds_pure ())

theorem succeeds_reload {kept : Env → Prop} (iv : Interval) : Succeeds kept (site.reload iv) := by
  apply Succeeds.ite (succeeds_pure ())
  apply succeeds_getEnv_bind
  intro env
  split
  · exact succeeds_unresolved _
  · exact succeeds_line _

theorem succeeds_writeBack {iv : Interval} (isName : iv.name ∈ names) :
    Succeeds (Env.Roomy names) (site.writeBack iv) :=
  .ite (succeeds_pure ()) ((succeeds_slotFor isName).bind fun _ => succeeds_line _)

theorem succeeds_loadLocal {kept : Env → Prop} (rd name : String) :
    Succeeds kept (site.loadLocal rd name) := by
  rw [loadLocal]
  split
  · exact (succeeds_unresolved _).bind fun _ => succeeds_instr _
  · apply Succeeds.ite (succeeds_instr _)
    apply succeeds_getEnv_bind
    intro env
    split
    · exact succeeds_instr _
    · exact (succeeds_unresolved _).bind fun _ => succeeds_instr _

theorem succeeds_loadOperand {kept : Env → Prop} (rd : String) (operand : Operand) :
    Succeeds kept (site.loadOperand rd operand) := by
  cases operand with
  | const value => exact succeeds_instr _
  | hole => exact succeeds_pure ()
  | name name =>
    apply succeeds_getEnv_bind
    intro env
    apply Succeeds.ite _ (succeeds_loadLocal rd name)
    exact (succeeds_instr _).bind fun _ => succeeds_instr _

/-- A result that goes to a slot goes to that of an interval. -/
theorem succeeds_storeLocal (areNames : ∀ iv ∈ site.table.intervals, iv.name ∈ names)
    (name rs : String) : Succeeds (Env.Roomy names) (site.storeLocal name rs) := by
  rw [storeLocal]
  split
  · exact succeeds_unresolved _
  · rename_i iv found
    have isName : name ∈ names := by
      rw [← Alloc.Table.name_of_lookup found]
      exact areNames iv (Alloc.Table.mem_of_lookup found)
    exact .ite (succeeds_instr _) ((succeeds_slotFor isName).bind fun _ => succeeds_instr _)

end Site

/-- The intervals that the tasks of a block save are those of the block. -/
theorem Site.mem_intervals_of_saves {site : Site} {b : Block} {t : Task}
    (isTask : t ∈ site.blockTasks b) :
    t.site.table = site.table ∧
      ∀ iv, t.action = .spill iv ∨ t.action = .writeBack iv → iv ∈ site.table.intervals := by
  rcases Site.mem_blockTasks isTask with
    ⟨done, i, rest, -, site_eq, isAction⟩ | ⟨site_eq, iv, inTable, writes⟩
  · rw [site_eq] at isAction
    refine ⟨by rw [site_eq], fun iv saves => ?_⟩
    rcases Site.mem_actions isAction with ⟨moved, inTable, moves⟩ | isOwn
    · rcases saves with saves | saves <;> rw [saves] at moves <;> grind
    · obtain ⟨-, selects⟩ := Site.selects_of_mem_selection isOwn
      rcases saves with saves | saves <;> rw [saves] at selects <;> cases selects
  · refine ⟨by rw [site_eq], fun other saves => ?_⟩
    rw [writes] at saves
    grind

/-- A task succeeds when the names of the intervals have room, and it saves one of them. -/
theorem Task.succeeds {t : Task} {names : List String}
    (areNames : ∀ iv ∈ t.site.table.intervals, iv.name ∈ names)
    (inTable : ∀ iv, t.action = .spill iv ∨ t.action = .writeBack iv →
      iv ∈ t.site.table.intervals) :
    Succeeds (Env.Roomy names) t.emit := by
  obtain ⟨site, action⟩ := t
  cases action with
  | spill iv => exact site.succeeds_spill (areNames iv (inTable iv (.inl rfl)))
  | reload iv => exact site.succeeds_reload iv
  | writeBack iv => exact site.succeeds_writeBack (areNames iv (inTable iv (.inr rfl)))
  | read rd operand => exact site.succeeds_loadOperand rd operand
  | compute op => exact succeeds_instr _
  | write name => exact site.succeeds_storeLocal areNames name _
  | assign name =>
    apply succeeds_getEnv_bind
    intro env
    apply Succeeds.ite _ (site.succeeds_storeLocal areNames name _)
    exact (succeeds_instr _).bind fun _ => succeeds_instr _
  | declare name => exact succeeds_modifyEnv fun env roomy => roomy

/-- The intervals of a block are those of names that it mentions. -/
theorem mem_mentions_of_mem_blockTable {crossing : List String} {env : Env} {b : Block}
    {iv : Interval} (isMember : iv ∈ (blockTable crossing env b).intervals) :
    iv.name ∈ b.body.flatMap mentions := by
  obtain ⟨-, -, done, i, rest, body_eq, -, opens⟩ := blockTable_opens isMember
  obtain ⟨lowered, occurs⟩ :=
    Alloc.exists_mem_touchesAfter.mp ⟨_, List.mem_of_find?_eq_some opens⟩
  rw [List.mem_flatMap]
  refine ⟨i, by simp [body_eq], Alloc.mem_mentions.mpr ⟨lowered, ?_⟩⟩
  exact occurs.imp_right fun isArg => ⟨isArg.1, isArg.2.1⟩

variable {config : Config}

/-- A block can be entered when there are registers, and its intervals are of names that it
mentions. -/
theorem exists_ofBlock_mentions (nonempty : config.registers ≠ []) (function : String)
    (crossing : List String) (env : Env) (b : Block) :
    ∃ site, Site.ofBlock config function crossing env b = .ok site ∧
      ∀ iv ∈ site.table.intervals, iv.name ∈ b.body.flatMap mentions := by
  have names_ne : Alloc.Pool.names (.ofNames config.registers) ≠ [] := by
    rwa [Alloc.Pool.names_ofNames]
  obtain ⟨a, assigned, -⟩ :=
    Alloc.exists_assign_arranges names_ne (blockTable crossing env b).intervals
  obtain ⟨registers, allocated⟩ := Alloc.allocate_of_assign assigned
  have placed_eq := (Alloc.names_and_counterparts (Alloc.sameUse_of_allocate allocated)).1
  rw [Site.ofBlock, allocated]
  refine ⟨_, rfl, fun iv isPlaced => ?_⟩
  have isName : iv.name ∈ a.intervals.map Interval.name := List.mem_map_of_mem isPlaced
  rw [placed_eq] at isName
  obtain ⟨found, isMember, name_eq⟩ := List.mem_map.mp isName
  rw [← name_eq]
  exact mem_mentions_of_mem_blockTable isMember

/-- A block of checked instructions succeeds when the names that it mentions have room. -/
theorem succeeds_lowerBlock (nonempty : config.registers ≠ []) (function : String)
    (crossing : List String) {b : Block} (wellFormed : ∀ i ∈ b.body, i.WellFormed)
    {names : List String} (areNames : b.body.flatMap mentions ⊆ names) :
    Succeeds (Env.Roomy names) (lowerBlock config function crossing b) := by
  rw [lowerBlock_eq wellFormed]
  apply (succeeds_line _).bind fun _ => succeeds_getEnv_bind fun env => ?_
  obtain ⟨site, entered, inBlock⟩ := exists_ofBlock_mentions nonempty function crossing env b
  rw [entered]
  apply succeeds_forEach
  intro t isTask
  obtain ⟨table_eq, saved⟩ := Site.mem_intervals_of_saves isTask
  rw [← table_eq] at inBlock saved
  exact Task.succeeds (fun iv inTable => areNames (inBlock iv inTable)) saved

/-- The names that the instructions of a function mention, those of ignored ones apart. -/
def namesOf (f : Func) : List String :=
  f.code.flatMap mentions

/-- A function of checked instructions succeeds when its frame has a word for each of its
names, whatever slots were given out before it. -/
theorem outcome_lowerFunc (nonempty : config.registers ≠ []) {f : Func}
    (wellFormed : ∀ b ∈ f.blocks, ∀ i ∈ b.body, i.WellFormed) {env : Env}
    (room : 4 * ((namesOf f).dedup.length : Int) ≤ env.frameSize.toInt) :
    ((lowerFunc config f).run env).outcome = .ok () := by
  have opened : env.beginFunction.Roomy (namesOf f) := Frame.roomy_ofSize room
  have blocks : Succeeds (Env.Roomy (namesOf f))
      (forEach (lowerBlock config f.name (Alloc.crossing f)) f.blocks) := by
    apply succeeds_forEach
    intro b inFunc
    apply succeeds_lowerBlock nonempty _ _ (wellFormed b inFunc)
    rw [namesOf, Func.code, List.flatMap_assoc]
    exact fun name isName => List.mem_flatMap.mpr ⟨b, inFunc, isName⟩
  have warning : Succeeds (Env.Roomy (namesOf f)) (frameWarning config f.name) :=
    succeeds_getEnv_bind fun env => .ite (succeeds_diagnose _) (succeeds_pure ())
  apply outcome_modifyEnv_bind opened
  apply (succeeds_line _).bind fun _ => (succeeds_instr _).bind fun _ => blocks.bind fun _ => ?_
  exact (succeeds_instr _).bind fun _ => (succeeds_instr _).bind fun _ =>
    (succeeds_instr _).bind fun _ => warning

variable {m : Module}

/-- **One word for each name is enough.** When no function mentions more distinct names than
its frame has words, a valid module is lowered in lenient mode, with any registers. -/
theorem lowerModule_succeeds_of_room (validated : m.validate = .ok ())
    (nonempty : config.registers ≠ []) (lenient : config.feature .strict = false)
    (room : ∀ f ∈ m.funcs, 4 * ((namesOf f).dedup.length : Int) ≤ config.frameSize.toInt) :
    ∃ p, (lowerModule config m).1 = .ok p := by
  have valid := IR.Module.valid_of_validate validated
  have succeeds : (moduleCode config m).outcome = .ok () := by
    rw [outcome_moduleCode_eq_ok]
    intro f inModule
    apply outcome_lowerFunc nonempty (valid.wellFormed_body inModule)
    rw [startEnv, foldl_define_ofFrameSize valid.nodup_globals]
    exact room f inModule
  rw [lowerModule_lenient validated nonempty lenient, succeeds]
  exact ⟨_, rfl⟩

/-- Three values for one register, all of which are needed in the second block. -/
def tight : Module where
  funcs :=
    [{ name := "main"
       blocks :=
        [{ label := "entry"
           body :=
            [.binary (.arith .add) "x" (.const 1) (.const 2),
              .binary (.arith .mul) "y" (.name "x") (.name "x"),
              .binary (.arith .sub) "z" (.name "y") (.name "x")] },
          { label := "next"
            body :=
              [.binary (.arith .add) "x" (.name "y") (.name "x"),
                .binary (.arith .add) "z" (.name "z") (.name "x"), .ret (.name "z")] }] }]

/-- The three names of it get by with three words, and not with two. -/
theorem lowerModule_succeeds_of_room_tight :
    tight.validate = .ok () ∧
    (∀ f ∈ tight.funcs, 4 * ((namesOf f).dedup.length : Int) ≤ (12 : Int64).toInt) ∧
    (∃ p, (lowerModule { registers := ["s1"], frameSize := 12 } tight).1 = .ok p) ∧
    (lowerModule { registers := ["s1"], frameSize := 8, warning := fun _ => false }
      tight).1.toOption = none := by
  have validated : tight.validate = .ok () := by decide
  have room : ∀ f ∈ tight.funcs,
      4 * ((namesOf f).dedup.length : Int) ≤ (12 : Int64).toInt := by decide
  refine ⟨validated, room, lowerModule_succeeds_of_room validated (by decide) rfl room, ?_⟩
  simp only [lowerModule, Lowering.addModule, tight, Emit.forEach, lowerFunc, lowerBlock,
    Alloc.allocate, Alloc.assign, scanOrder_blockTable]
  decide +kernel

end RiscBackend.Lower
