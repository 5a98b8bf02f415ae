/-
# Fetching live-in values

A name that comes from an earlier block has its value in its slot. If the first
instruction of a block that mentions the name reads it first, the code before that
instruction fetches the value into the register of the name; a name that was given no
register is read from its slot, and a name without a slot is reported. If the
instruction has the name as its result, nothing is fetched even when it reads the name
too, and the register holds what it held before.
-/

import RiscBackend.Proofs.Config.Chosen
import RiscBackend.Proofs.Lower.Moves
import RiscBackend.Proofs.Lower.Plan

namespace RiscBackend.Lower

open IR (Instruction Block)
open Asm (Machine Value)
open Alloc
open Emit

variable {site : Site} {iv : Interval} {env : Env} {m : Machine} {base : Int}

/-- What the fetches at a site leave in the register of an interval. -/
def Site.fetched (site : Site) (iv : Interval) (env : Env) (m : Machine) (base : Int) : Value :=
  if iv.liveIn = true ∧ iv.start = site.position then
    ((env.frame.offset? iv.name).map fun offset => m.stack (base + offset.toInt)).getD
      (m.registers iv.register)
  else m.registers iv.register

/-- Fetching other values does not disturb the register of an interval that is in use,
because no other interval is in that register. -/
theorem executes_reloads_register {members : List Interval}
    (stack_eq : m.registers site.config.stackRegister = .stack base)
    (resident : iv.inRegister site.position = true)
    (stackFree : ∀ jv ∈ members, site.config.stackRegister ≠ jv.register)
    (apart : ∀ jv ∈ members, jv ≠ iv → site.Fetches jv → jv.register ≠ iv.register)
    (nodup : members.Nodup) (isMember : iv ∈ members) :
    (forEach site.reload members).Executes
      (fun _ env' m' => env' = env ∧ m'.registers iv.register = site.fetched iv env m base)
      env m := by
  let kept (rest : List Interval) (env' : Env) (m' : Machine) : Prop :=
    rest.Sublist members ∧ env' = env ∧ m'.stack = m.stack ∧
      m'.registers site.config.stackRegister = .stack base ∧
      m'.registers iv.register = if iv ∈ rest then m.registers iv.register
        else site.fetched iv env m base
  have walk := @executes_forEach _ site.reload kept ?_ members env m
    ⟨List.Sublist.refl _, rfl, rfl, stack_eq, by rw [if_pos isMember]⟩
  · refine walk.mono ?_
    rintro _ env' m' ⟨-, rfl, -, -, content⟩
    exact ⟨rfl, by simpa using content⟩
  · rintro jv rest env' m' ⟨sublist, rfl, sameStack, stack_eq, content⟩
    have inMembers : jv ∈ members := sublist.subset List.mem_cons_self
    have notLater : jv ∉ rest := (List.nodup_cons.mp (nodup.sublist sublist)).1
    have shorter : rest.Sublist members := (List.sublist_cons_self jv rest).trans sublist
    refine (Site.executes_reload stack_eq).mono ?_
    rintro _ _ m'' ⟨rfl, ⟨rfl, noSlot⟩ | ⟨fetched, offset, hasSlot, rfl⟩⟩
    · refine ⟨shorter, rfl, sameStack, stack_eq, ?_⟩
      by_cases isSame : jv = iv
      · subst isSame
        rw [content, if_pos List.mem_cons_self, if_neg notLater, Site.fetched]
        split
        · rename_i opens
          rw [noSlot ⟨opens.1, opens.2, resident⟩]
          rfl
        · rfl
      · simpa [Ne.symm isSame] using content
    · have stackFree' := stackFree jv inMembers
      refine ⟨shorter, rfl, sameStack, ?_, ?_⟩
      · rw [Machine.set_registers_of_ne _ _ stackFree', stack_eq]
      · by_cases isSame : jv = iv
        · subst isSame
          rw [Machine.set_registers_self, if_neg notLater, Site.fetched,
            if_pos ⟨fetched.1, fetched.2.1⟩, hasSlot, sameStack]
          rfl
        · rw [Machine.set_registers_of_ne _ _ (apart jv inMembers isSame fetched).symm]
          simpa [Ne.symm isSame] using content

/-- A report emits nothing. With the warning on it holds the fault. -/
theorem run_unresolved (site : Site) (fault : PlacementFault) (env : Env) :
    ∃ diagnostics, (site.unresolved fault).run env =
        { lines := [], diagnostics, env, outcome := .ok () } ∧
      (site.config.warning .unresolved = true → ∃ d ∈ diagnostics, d.message = fault.message) := by
  rw [Site.unresolved]
  split
  · exact ⟨_, rfl, fun _ => ⟨_, List.mem_singleton_self _, rfl⟩⟩
  · split
    · exact ⟨_, rfl, fun _ => ⟨_, List.mem_singleton_self _, rfl⟩⟩
    · rename_i silent
      exact ⟨_, rfl, fun warns => absurd warns silent⟩

/-- A fetch never fails, and a name without a slot is reported. -/
theorem run_reload (site : Site) (iv : Interval) (env : Env) :
    ((site.reload iv).run env).outcome = .ok () ∧ ((site.reload iv).run env).env = env ∧
      (site.Fetches iv → env.frame.offset? iv.name = none →
        site.config.warning .unresolved = true →
        ∃ d ∈ ((site.reload iv).run env).diagnostics,
          d.message = (PlacementFault.noSlot iv.name).message) := by
  rw [Site.reload]
  split
  · rename_i skipped
    refine ⟨rfl, rfl, fun fetched => ?_⟩
    simp [fetched.1, fetched.2.1, fetched.2.2] at skipped
  · rw [run_getEnv_bind, Frame.resolve]
    cases hasSlot : env.frame.offset? iv.name with
    | some offset => exact ⟨rfl, rfl, by simp⟩
    | none =>
      obtain ⟨diagnostics, run_eq, reported⟩ := run_unresolved site (.noSlot iv.name) env
      dsimp only
      rw [run_eq]
      exact ⟨rfl, rfl, fun _ _ => reported⟩

/-- The fetches of a list never fail, and every name without a slot is reported. -/
theorem run_reloads (site : Site) (env : Env) (members : List Interval) :
    ((forEach site.reload members).run env).outcome = .ok () ∧
      ∀ iv ∈ members, site.Fetches iv → env.frame.offset? iv.name = none →
        site.config.warning .unresolved = true →
        ∃ d ∈ ((forEach site.reload members).run env).diagnostics,
          d.message = (PlacementFault.noSlot iv.name).message := by
  induction members with
  | nil => exact ⟨rfl, by simp⟩
  | cons jv rest ih =>
    obtain ⟨succeeds, env_eq, reported⟩ := run_reload site jv env
    rw [forEach, run_bind_of_ok succeeds, env_eq]
    refine ⟨ih.1, fun iv isMember fetched noSlot warns => ?_⟩
    rcases List.mem_cons.mp isMember with rfl | isLater
    · obtain ⟨d, isReport, message_eq⟩ := reported fetched noSlot warns
      exact ⟨d, List.mem_append_left _ isReport, message_eq⟩
    · obtain ⟨d, isReport, message_eq⟩ := ih.2 iv isLater fetched noSlot warns
      exact ⟨d, List.mem_append_right _ isReport, message_eq⟩

/-- A name that has left its register is loaded from its slot, and reported if it has
none. -/
theorem run_loadLocal_of_evicted {name : String} (found : site.table.lookup name = some iv)
    (evicted : iv.inRegister site.position = false) (rd : String) (env : Env) :
    ((site.loadLocal rd name).run env).outcome = .ok () ∧
      (∀ offset, env.frame.offset? name = some offset →
        ((site.loadLocal rd name).run env).lines =
          [.ofInstr (.lw rd offset site.config.stackRegister)]) ∧
      (env.frame.offset? name = none → site.config.warning .unresolved = true →
        ∃ d ∈ ((site.loadLocal rd name).run env).diagnostics,
          d.message = (PlacementFault.noSlot name).message) := by
  rw [Site.loadLocal, found]
  dsimp only
  rw [if_neg (by simp [evicted]), run_getEnv_bind, Frame.resolve]
  cases hasSlot : env.frame.offset? name with
  | some offset =>
    refine ⟨rfl, fun offset' same => ?_, by simp⟩
    cases same
    rfl
  | none =>
    obtain ⟨diagnostics, run_eq, reported⟩ := run_unresolved site (.noSlot name) env
    dsimp only
    rw [run_bind_of_ok (by rw [run_eq]), run_eq]
    refine ⟨rfl, by simp, fun _ warns => ?_⟩
    obtain ⟨d, isReport, message_eq⟩ := reported warns
    exact ⟨d, List.mem_append_left _ isReport, message_eq⟩

/-- The interval of a name keeps its start and its flag on the way to its register. -/
theorem exists_placed_of_analyze {registers crossing : List String} {start : Env} {block : Block}
    {t : Table} {found : Interval} {name : String}
    (sound : Allocated registers (blockTable crossing start block).intervals t.intervals)
    (isFound : (analyze block start.isGlobal).lookup name = some found) :
    ∃ iv, t.lookup name = some iv ∧ iv ∈ t.intervals ∧ iv.start = found.start ∧
      iv.liveIn = found.liveIn := by
  have nodup : (t.intervals.map Interval.name).Nodup := by
    rw [sound.map_name]
    exact nodup_names_blockTable crossing start block
  obtain ⟨stop, -, isGiven⟩ := exists_mem_blockTable (Table.mem_of_lookup isFound)
  obtain ⟨iv, isPlaced, name_eq, start_eq, -, liveIn_eq⟩ := sound.exists_placed isGiven
  refine ⟨iv, ?_, isPlaced, start_eq, liveIn_eq⟩
  rw [← Table.name_of_lookup isFound]
  exact name_eq ▸ Table.lookup_name_of_mem nodup isPlaced

/-- Intervals that start at one position and are in registers there are in different
ones. -/
theorem register_ne_of_start_eq {registers crossing : List String} {start : Env} {block : Block}
    {t : Table} {iv jv : Interval} {position : Int}
    (sound : Allocated registers (blockTable crossing start block).intervals t.intervals)
    (inTable : iv ∈ t.intervals) (inTable' : jv ∈ t.intervals) (ne : jv ≠ iv)
    (start_eq : iv.start = position) (start_eq' : jv.start = position)
    (resident : iv.inRegister position = true) (resident' : jv.inRegister position = true) :
    jv.register ≠ iv.register := by
  have nodup : (t.intervals.map Interval.name).Nodup := by
    rw [sound.map_name]
    exact nodup_names_blockTable crossing start block
  have isResident {kv : Interval} (inTable : kv ∈ t.intervals) (start_eq : kv.start = position)
      (resident : kv.inRegister position = true) : position ∈ kv.residence := by
    obtain ⟨given, isGiven, ⟨-, sameStart, sameStop, -⟩, -⟩ := sound.origin_of_mem inTable
    have ordered := start_le_stop_of_mem_blockTable isGiven
    refine Interval.mem_residence.mpr ⟨by omega, by omega, ?_⟩
    simpa [Interval.inRegister] using resident
  intro same
  have differ : jv.name ≠ iv.name := fun sameName =>
    ne (List.inj_on_of_nodup_map nodup inTable' inTable sameName)
  exact Set.disjoint_left.mp (sound.disjoint_of_name_ne inTable' inTable differ same)
    (isResident inTable' start_eq' resident') (isResident inTable start_eq resident)

/-- **A name is live-in when its first mention reads it first.** The law holds for every
block and every choice of globals. So at that instruction, whatever registers and frame
size were chosen and whatever the machine holds, the code before the instruction
fetches the name into its register from its slot, or the name is read from its slot,
or it is reported. In all other cases nothing is fetched: the register keeps what it
held, also when the instruction reads the name that it overwrites. -/
theorem liveIn_iff_readsFirst {isGlobal : String → Bool} {block : Block}
    {done rest : List Instruction} {i : Instruction} {name : String}
    (here : FirstMention isGlobal block done i rest name) :
    (∃ iv, (analyze block isGlobal).lookup name = some iv ∧ iv.start = done.length ∧
      (iv.liveIn = true ↔ ReadsFirst i name)) ∧
    ∀ (site : Site) (crossing : List String) (start env : Env) (pool : Pool) (m : Machine)
      (base : Int), site.config.Chosen → start.isGlobal = isGlobal →
      allocate (.ofNames site.config.registers) (blockTable crossing start block).intervals =
        .ok (site.table.intervals, pool) →
      site.position = done.length → m.registers site.config.stackRegister = .stack base →
      ∃ iv, site.table.lookup name = some iv ∧
        (iv.inRegister site.position = true →
          (∃ m', m.executeAll? ((forEach site.reload site.table.intervals).run env).lines =
              some m' ∧
            (ReadsFirst i name → ∀ offset, env.frame.offset? name = some offset →
              m'.registers iv.register = m.stack (base + offset.toInt)) ∧
            (¬ ReadsFirst i name → m'.registers iv.register = m.registers iv.register)) ∧
          (ReadsFirst i name → env.frame.offset? name = none →
            ∃ d ∈ ((forEach site.reload site.table.intervals).run env).diagnostics,
              d.message = (PlacementFault.noSlot name).message)) ∧
        (iv.inRegister site.position = false → ∀ rd,
          (∀ offset, env.frame.offset? name = some offset →
            ((site.loadLocal rd name).run env).lines =
              [.ofInstr (.lw rd offset site.config.stackRegister)]) ∧
          (env.frame.offset? name = none →
            ∃ d ∈ ((site.loadLocal rd name).run env).diagnostics,
              d.message = (PlacementFault.noSlot name).message)) := by
  obtain ⟨found, isFound, start_eq, liveIn_iff⟩ := here.opens
  refine ⟨⟨found, isFound, start_eq, liveIn_iff⟩, ?_⟩
  intro site crossing start env pool m base chosen isGlobal_eq allocated position_eq stack_eq
  subst isGlobal_eq
  have usable := chosen.usable
  have warns : site.config.warning .unresolved = true := by
    obtain ⟨registers, frameSize, config_eq, -⟩ := chosen.settings
    rw [config_eq]
    rfl
  have sound := allocated_of_allocate usable.nonempty usable.nodup allocated
  obtain ⟨iv, isPlaced, inTable, iv_start, iv_liveIn⟩ := exists_placed_of_analyze sound isFound
  have atPosition : iv.start = site.position := by rw [iv_start, start_eq, position_eq]
  have readsFirst_iff : ReadsFirst i name ↔ iv.liveIn = true := by rw [iv_liveIn, liveIn_iff]
  have name_eq := Table.name_of_lookup isPlaced
  refine ⟨iv, isPlaced, fun resident => ⟨?_, ?_⟩, fun evicted rd => ?_⟩
  · have executes := @executes_reloads_register site iv env m base site.table.intervals stack_eq
      resident ?_ ?_ ?_ inTable
    · obtain ⟨m', executed, -, content⟩ := executes () (run_reloads site env _).1
      refine ⟨m', executed, fun readsFirst offset hasSlot => ?_, fun notFirst => ?_⟩
      · rw [content, Site.fetched, if_pos ⟨readsFirst_iff.mp readsFirst, atPosition⟩, name_eq,
          hasSlot]
        rfl
      · rw [content, Site.fetched, if_neg fun opens => notFirst (readsFirst_iff.mpr opens.1)]
    · intro jv inTable' same
      obtain ⟨-, -, -, inPool, -⟩ := sound.origin_of_mem inTable'
      exact usable.stack_not_mem (same ▸ inPool)
    · intro jv inTable' ne fetched
      exact register_ne_of_start_eq sound inTable inTable' ne atPosition fetched.2.1 resident
        fetched.2.2
    · refine List.Nodup.of_map Interval.name ?_
      rw [sound.map_name]
      exact nodup_names_blockTable crossing start block
  · intro readsFirst noSlot
    rw [← name_eq] at noSlot ⊢
    exact (run_reloads site env _).2 iv inTable
      ⟨readsFirst_iff.mp readsFirst, atPosition, resident⟩ noSlot warns
  · obtain ⟨-, loads, reports⟩ := run_loadLocal_of_evicted isPlaced evicted rd env
    exact ⟨loads, fun noSlot => reports noSlot warns⟩

/-- A block that computes one value and then subtracts it from a value of an earlier
block. -/
def carried : Block where
  label := "next"
  body :=
    [.binary (.arith .add) "y" (.const 1) (.const 2),
      .binary (.arith .sub) "z" (.name "x") (.name "y")]

/-- The subtraction of that block, with two registers for three values. -/
def carriedSite : Site where
  config := { registers := ["s1", "s2"] }
  function := "main"
  block := "next"
  table :=
    { intervals :=
        [{ name := "y", start := 0, stop := 1, spillAt := 1, register := "s1" },
          { name := "z", start := 1, stop := 1, register := "s2" },
          { name := "x", start := 1, stop := 2, register := "s1", liveIn := true }] }
  crossing := ["x"]
  position := 1

/-- An environment in which the carried value has a slot. -/
def carriedEnv : Env :=
  { Env.ofFrameSize 64 with frame := { size := 64, next := 60, slots := [("x", 60)] } }

/-- A machine with a nine in every slot and nothing of use in its registers. -/
def ninesMachine : Machine where
  registers := fun register => if register = "sp" then .stack 0 else .symbol register
  stack := fun _ => .word 9
  data := fun _ => none

/-- The subtrahend is moved out of the register that the carried value gets, and the
fetch puts the nine of its slot there. -/
theorem liveIn_iff_readsFirst_carried :
    FirstMention (fun _ => false) carried
      [.binary (.arith .add) "y" (.const 1) (.const 2)]
      (.binary (.arith .sub) "z" (.name "x") (.name "y")) [] "x" ∧
    ReadsFirst (.binary (.arith .sub) "z" (.name "x") (.name "y")) "x" ∧
    (∃ iv, (analyze carried fun _ => false).lookup "x" = some iv ∧ iv.start = 1 ∧
      iv.liveIn = true) ∧
    ∃ m', ninesMachine.executeAll?
        ((forEach carriedSite.reload carriedSite.table.intervals).run carriedEnv).lines =
        some m' ∧
      m'.registers "s1" = .word 9 := by
  have here : FirstMention (fun _ => false) carried
      [.binary (.arith .add) "y" (.const 1) (.const 2)]
      (.binary (.arith .sub) "z" (.name "x") (.name "y")) [] "x" := by
    refine ⟨rfl, ⟨by decide, .inr ⟨by decide, by decide, .inl rfl⟩⟩, ?_⟩
    intro before j after done_eq
    have isEarlier : j ∈ before ++ j :: after := List.mem_append_right _ List.mem_cons_self
    rw [← done_eq, List.mem_singleton] at isEarlier
    subst isEarlier
    rintro ⟨-, isResult | ⟨isArg, -⟩⟩
    · exact absurd isResult (by decide)
    · exact absurd isArg (by decide)
  have reads : ReadsFirst (.binary (.arith .sub) "z" (.name "x") (.name "y")) "x" :=
    ⟨by decide, by decide, by decide, by decide⟩
  obtain ⟨⟨iv, found, start_eq, liveIn_iff⟩, fetches⟩ := liveIn_iff_readsFirst here
  have chosen : carriedSite.config.Chosen :=
    .registers .default (show Config.setRegisters {} ["s1", "s2"] = _ from rfl)
  have allocates : (allocate (.ofNames carriedSite.config.registers)
      (blockTable ["x"] (.ofFrameSize 64) carried).intervals).toOption.map Prod.fst =
      some carriedSite.table.intervals := by
    rw [allocate, assign, scanOrder_blockTable]
    decide +kernel
  cases allocated : allocate (.ofNames carriedSite.config.registers)
      (blockTable ["x"] (.ofFrameSize 64) carried).intervals with
  | error fault => simp [allocated, Except.toOption] at allocates
  | ok result =>
    obtain ⟨intervals, pool⟩ := result
    obtain rfl : intervals = carriedSite.table.intervals := by
      simpa [allocated, Except.toOption] using allocates
    obtain ⟨jv, isPlaced, resident, -⟩ := fetches carriedSite ["x"] (.ofFrameSize 64)
      carriedEnv pool ninesMachine 0 chosen rfl allocated rfl rfl
    cases isPlaced
    obtain ⟨⟨m', executed, fetched, -⟩, -⟩ := resident (by decide)
    exact ⟨here, reads, ⟨iv, found, start_eq, liveIn_iff.mpr reads⟩, m', executed,
      fetched reads 60 rfl⟩

/-- An increment of a carried value reads it, and yet its interval is not live-in. -/
theorem increment_is_not_liveIn :
    let increment : Instruction := .binary (.arith .add) "x" (.name "x") (.const 1)
    FirstMention (fun _ => false) { label := "next", body := [increment] } [] increment [] "x" ∧
    .name "x" ∈ increment.readOperands ∧
    ((analyze { label := "next", body := [increment] } fun _ => false).lookup "x").map
      Interval.liveIn = some false := by
  refine ⟨⟨rfl, ⟨by decide, .inl rfl⟩, ?_⟩, by decide, by decide⟩
  intro before j after done_eq
  simp at done_eq

end RiscBackend.Lower
