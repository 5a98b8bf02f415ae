/-
# Where a block keeps its values

Within a block the place of a local follows from its interval and the position. A
value waits in its slot before its interval starts, is in its register from there to
its eviction, and is in its slot after that. The code before an instruction brings the
values from the places they have after the instruction before it to those from which
the instruction reads them: first the evicted ones are saved, then the arriving ones
are fetched. At the end of the block the crossing ones are written back.
-/

import RiscBackend.Proofs.Lower.Moves
import RiscBackend.Proofs.Lower.Plan

namespace RiscBackend.Lower

open IR (Instruction Block Store)
open Asm (Machine)
open Alloc
open Emit

/-- The placement of a block, given the place for each interval. A crossing name that
the block does not use is in its slot. -/
def placesBy (t : Table) (crossing : List String) (placeFor : Interval → Option Place)
    (name : String) : Option Place :=
  match t.lookup name with
  | some iv => placeFor iv
  | none => if name ∈ crossing then some .slot else none

/-- The place of a value before a position, as long as it is needed from there on. -/
def placeBefore (position : Int) (iv : Interval) : Option Place :=
  if iv.stop < position then none
  else if iv.start < position ∧ position ≤ iv.spillAt then some (.register iv.register)
  else some .slot

/-- The place of a value after the evictions at a position. -/
def placeSpilled (position : Int) (iv : Interval) : Option Place :=
  if iv.stop < position then none
  else if iv.start < position ∧ position < iv.spillAt then some (.register iv.register)
  else some .slot

/-- The place of a value when the instruction at a position is reached. A value that
is written there for the first time has none yet. -/
def placeReady (position : Int) (iv : Interval) : Option Place :=
  if iv.stop < position then none
  else if position < iv.start ∨ iv.spillAt ≤ position then some .slot
  else if iv.start = position ∧ iv.liveIn = false then none
  else some (.register iv.register)

/-- The place of a value after its block. -/
def placeAfter (crossing : List String) (iv : Interval) : Option Place :=
  if iv.name ∈ crossing then some .slot else none

theorem placesBy_name {t : Table} {crossing : List String} {placeFor : Interval → Option Place}
    {iv : Interval} (nodup : (t.intervals.map Interval.name).Nodup)
    (isMember : iv ∈ t.intervals) : placesBy t crossing placeFor iv.name = placeFor iv := by
  rw [placesBy, Table.lookup_name_of_mem nodup isMember]

/-- Places of intervals that agree on a table give the same placement. -/
theorem placesBy_congr {t : Table} {crossing : List String}
    {placeFor placeFor' : Interval → Option Place} {name : String}
    (same : ∀ iv ∈ t.intervals, iv.name = name → placeFor iv = placeFor' iv) :
    placesBy t crossing placeFor name = placesBy t crossing placeFor' name := by
  rw [placesBy, placesBy]
  cases found : t.lookup name with
  | none => rfl
  | some iv => exact same iv (Table.mem_of_lookup found) (Table.name_of_lookup found)

/-- A name that is placed in a register has an interval that says so. -/
theorem exists_interval_of_placesBy {t : Table} {crossing : List String}
    {placeFor : Interval → Option Place} {name register : String}
    (placed : placesBy t crossing placeFor name = some (.register register)) :
    ∃ iv ∈ t.intervals, iv.name = name ∧ placeFor iv = some (.register register) := by
  rw [placesBy] at placed
  cases found : t.lookup name with
  | none =>
    rw [found] at placed
    dsimp only at placed
    split at placed <;> cases placed
  | some iv =>
    rw [found] at placed
    exact ⟨iv, Table.mem_of_lookup found, Table.name_of_lookup found, placed⟩

variable {config : Config} {source : IR.Module} {base : Int} {s : Store} {env : Env}
  {m : Machine}

/-- **Moving interval by interval.** If the code for each interval of a list takes its
value from one place to another and leaves the other values where they are, the code
for the list does so for all of them. -/
theorem executes_moves {t : Table} {crossing : List String}
    {first second : Interval → Option Place} {step : Interval → Emit Unit}
    {members : List Interval} (nodup : (t.intervals.map Interval.name).Nodup)
    (isSublist : members.Sublist t.intervals)
    (same : ∀ iv ∈ t.intervals, iv ∉ members → first iv = second iv)
    (each : ∀ iv ∈ members, ∀ (places places' : String → Option Place) (env : Env) (m : Machine),
      places iv.name = first iv → places' iv.name = second iv →
      (∀ other, other ≠ iv.name → places' other = places other) →
      (∀ other register, places other = some (.register register) →
        ∃ jv ∈ t.intervals, jv.name = other ∧
          (first jv = some (.register register) ∨ second jv = some (.register register))) →
      Agrees config source base places s env m →
      (step iv).Executes (fun _ env m => Agrees config source base places' s env m) env m)
    (agrees : Agrees config source base (placesBy t crossing first) s env m) :
    (forEach step members).Executes
      (fun _ env m => Agrees config source base (placesBy t crossing second) s env m) env m := by
  -- While the list is walked, the intervals that are left are still in the first place.
  let mixed (rest : List Interval) (iv : Interval) := if iv ∈ rest then first iv else second iv
  let kept (rest : List Interval) (env : Env) (m : Machine) : Prop :=
    rest.Sublist members ∧ Agrees config source base (placesBy t crossing (mixed rest)) s env m
  have start : kept members env m := by
    refine ⟨List.Sublist.refl _, agrees.weaken fun name place known => ?_⟩
    rw [← known]
    refine placesBy_congr fun iv inTable _ => ?_
    by_cases isMember : iv ∈ members
    · simp [mixed, isMember]
    · simp [mixed, isMember, same iv inTable isMember]
  have walk := @executes_forEach _ step kept ?_ members env m start
  · refine walk.mono fun _ env m holds => holds.2.weaken fun name place known => ?_
    rw [← known]
    exact placesBy_congr fun iv _ _ => by simp [mixed]
  · rintro iv rest env m ⟨sublist, agrees⟩
    have isMember : iv ∈ members := sublist.subset List.mem_cons_self
    have inTable : iv ∈ t.intervals := isSublist.subset isMember
    have notLater : iv ∉ rest := by
      have nodupAll : (iv :: rest).Nodup :=
        (List.Nodup.of_map _ nodup).sublist (sublist.trans isSublist)
      exact (List.nodup_cons.mp nodupAll).1
    have executes := each iv isMember (placesBy t crossing (mixed (iv :: rest)))
      (placesBy t crossing (mixed rest)) env m ?_ ?_ ?_ ?_ agrees
    · exact executes.mono fun _ env m agrees => ⟨(List.sublist_cons_self iv rest).trans sublist,
        agrees⟩
    · rw [placesBy_name nodup inTable]
      simp [mixed]
    · rw [placesBy_name nodup inTable]
      simp [mixed, notLater]
    · intro other ne
      refine placesBy_congr fun jv _ same => ?_
      have differ : jv ≠ iv := fun h => ne (same.symm.trans (congrArg Interval.name h))
      simp [mixed, differ]
    · intro other register placed
      obtain ⟨jv, inTable', name_eq, isPlaced⟩ := exists_interval_of_placesBy placed
      refine ⟨jv, inTable', name_eq, ?_⟩
      by_cases isLeft : jv ∈ iv :: rest
      · exact .inl (by simpa [mixed, isLeft] using isPlaced)
      · exact .inr (by simpa [mixed, isLeft] using isPlaced)

variable {site : Site} {isGlobal : String → Bool} {b : Block}

/-- Two values that are in registers at one position are in different ones. -/
theorem Planned.register_ne {registers crossing : List String} {t : Table} {position : Int}
    {iv jv : Interval} (planned : Planned registers isGlobal crossing b t)
    (inTable : iv ∈ t.intervals) (inTable' : jv ∈ t.intervals) (ne : iv.name ≠ jv.name)
    (resident : position ∈ iv.residence) (resident' : position ∈ jv.residence) :
    iv.register ≠ jv.register := fun same =>
  Set.disjoint_left.mp (planned.apart iv inTable jv inTable' ne same) resident resident'

theorem placeSpilled_eq_register {position : Int} {iv : Interval} {register : String}
    (placed : placeSpilled position iv = some (.register register)) :
    iv.register = register ∧ position ∈ iv.residence := by
  rw [placeSpilled] at placed
  rw [Interval.mem_residence]
  grind

theorem placeReady_eq_register {position : Int} {iv : Interval} {register : String}
    (placed : placeReady position iv = some (.register register)) :
    iv.register = register ∧ position ∈ iv.residence := by
  rw [placeReady] at placed
  rw [Interval.mem_residence]
  grind

theorem placeBefore_succ_eq_register {position : Int} {iv : Interval} {register : String}
    (placed : placeBefore (position + 1) iv = some (.register register)) :
    iv.register = register ∧ position ∈ iv.residence := by
  rw [placeBefore] at placed
  rw [Interval.mem_residence]
  grind

/-- The evictions before an instruction. -/
theorem executes_spills
    (planned : Planned site.config.registers isGlobal site.crossing b site.table)
    (agrees : Agrees site.config source base
      (placesBy site.table site.crossing (placeBefore site.position)) s env m) :
    (forEach site.spill (site.table.spillsAt site.position)).Executes
      (fun _ env m => Agrees site.config source base
        (placesBy site.table site.crossing (placeSpilled site.position)) s env m) env m := by
  refine executes_moves planned.nodup List.filter_sublist ?_ ?_ agrees
  · intro iv inTable notEvicted
    have differ : iv.spillAt ≠ site.position := fun evicted =>
      notEvicted (List.mem_filter.mpr ⟨inTable, by simpa using evicted⟩)
    grind [placeBefore, placeSpilled]
  · intro iv isEvicted places places' env m before after others _ agrees
    obtain ⟨inTable, evicted⟩ := List.mem_filter.mp isEvicted
    rw [decide_eq_true_eq] at evicted
    have bound := planned.start_le_spillAt iv inTable
    refine agrees.executes_spill others ?_ ?_
    · intro here
      grind [placeBefore, placeSpilled]
    · intro earlier place known
      rw [after, placeSpilled] at known
      rw [before, placeBefore]
      grind

/-- The fetches before an instruction. -/
theorem executes_reloads (usable : site.config.Usable)
    (planned : Planned site.config.registers isGlobal site.crossing b site.table)
    (agrees : Agrees site.config source base
      (placesBy site.table site.crossing (placeSpilled site.position)) s env m) :
    (forEach site.reload site.table.intervals).Executes
      (fun _ env m => Agrees site.config source base
        (placesBy site.table site.crossing (placeReady site.position)) s env m) env m := by
  refine executes_moves planned.nodup (List.Sublist.refl _) ?_ ?_ agrees
  · exact fun iv inTable absent => absurd inTable absent
  · intro iv inTable places places' env m before after others placed agrees
    refine agrees.executes_reload usable (planned.register_mem iv inTable) others ?_ ?_
    · intro notFetched place known
      rw [Site.Fetches] at notFetched
      rw [after, placeReady] at known
      rw [before, placeSpilled]
      grind [Interval.inRegister]
    · rintro ⟨liveIn, here, resident⟩
      refine ⟨?_, ?_⟩
      · intro place known
        rw [after, placeReady] at known
        rw [before, placeSpilled]
        grind [Interval.inRegister]
      · intro other ne isPlaced
        obtain ⟨jv, inTable', rfl, inRegister⟩ := placed other _ isPlaced
        obtain ⟨same, resident'⟩ :=
          inRegister.elim placeSpilled_eq_register placeReady_eq_register
        have bound := planned.start_le_stop iv inTable
        have isResident : (site.position : Int) ∈ iv.residence :=
          Interval.mem_residence.mpr
            ⟨by omega, by omega, by simpa [Interval.inRegister] using resident⟩
        exact planned.register_ne inTable' inTable ne resident' isResident same

/-- The write-backs at the end of a block. -/
theorem executes_writeBacks (short : (b.body.length : Int) < never)
    (atEnd : site.position = b.body.length) (falls : fallsThrough b = true)
    (planned : Planned site.config.registers isGlobal site.crossing b site.table)
    (agrees : Agrees site.config source base
      (placesBy site.table site.crossing (placeBefore site.position)) s env m) :
    (forEach site.writeBack site.table.intervals).Executes
      (fun _ env m => Agrees site.config source base
        (placesBy site.table site.crossing (placeAfter site.crossing)) s env m) env m := by
  refine executes_moves planned.nodup (List.Sublist.refl _) ?_ ?_ agrees
  · exact fun iv inTable absent => absurd inTable absent
  · intro iv inTable places places' env m before after others _ agrees
    have bound := planned.spillAt_lt iv inTable
    have start_lt : iv.start < b.body.length := by
      obtain ⟨done, i, rest, body_eq, start_eq, -⟩ := planned.opens iv inTable
      rw [start_eq, body_eq, List.length_append, List.length_cons]
      omega
    have held := planned.held falls iv inTable
    rw [← atEnd] at short bound start_lt held
    refine agrees.executes_writeBack others ?_ ?_
    · intro notWritten place known
      rw [after, placeAfter] at known
      rw [before, placeBefore]
      grind [Interval.inRegister]
    · intro crosses resident place known
      rw [after, placeAfter] at known
      rw [before, placeBefore]
      grind [Interval.inRegister]

end RiscBackend.Lower
