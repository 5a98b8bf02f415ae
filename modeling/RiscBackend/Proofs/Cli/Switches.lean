/-
# Switches on a command line

A flag set has at most one flag for a name that it finds. Defining flags adds new names and keeps
the old ones, and a switch that is read is turned on while every other flag stays as it is. So after
a line of switches, exactly those are on that were on before or stand in the line.
-/

import RiscBackend.Cli.FlagSet
import RiscBackend.Proofs.Text.Cut

namespace RiscBackend.Cli.FlagSet

section Find

variable {fs : FlagSet} {flag new : Flag} {name : String}

theorem name_of_find? (found : fs.find? name = some flag) : flag.name = name := by
  simpa using List.find?_some found

/-- An update does not change under which name a flag is found. -/
theorem find?_update (fs : FlagSet) (new : Flag) (name : String) :
    (fs.update new).find? name =
      (fs.find? name).map fun flag => if flag.name = new.name then new else flag := by
  have names_eq : ((fun flag : Flag => decide (flag.name = name)) ∘
      fun flag => if flag.name = new.name then new else flag) =
        fun flag : Flag => decide (flag.name = name) := by
    funext flag
    by_cases isNew : flag.name = new.name <;> simp [isNew]
  rw [find?, update, List.find?_map, names_eq]
  rfl

theorem find?_update_self (found : fs.find? name = some flag) (same : new.name = name) :
    (fs.update new).find? name = some new := by
  rw [find?_update, found, Option.map_some, if_pos ((name_of_find? found).trans same.symm)]

theorem find?_update_of_ne (ne : new.name ≠ name) :
    (fs.update new).find? name = fs.find? name := by
  rw [find?_update]
  cases found : fs.find? name with
  | none => rfl
  | some flag =>
    rw [Option.map_some, if_neg]
    rw [name_of_find? found]
    exact ne.symm

end Find

/-- A name belongs to a switch with a given state. -/
def Holds (fs : FlagSet) (name : String) (v : Bool) : Prop :=
  ∃ flag, fs.find? name = some flag ∧ flag.value = .switch v

theorem Holds.isOn_eq {fs : FlagSet} {name : String} {v : Bool} (holds : fs.Holds name v) :
    fs.isOn name = v := by
  obtain ⟨flag, found, value_eq⟩ := holds
  cases v <;> simp [isOn, found, value_eq]

section Define

variable {fs fs' : FlagSet} {flag : Flag} {flags : List Flag}

/-- A flag set grows to another one if it keeps what it finds. -/
def Grows (fs fs' : FlagSet) : Prop :=
  ∀ name flag, fs.find? name = some flag → fs'.find? name = some flag

theorem Grows.trans {fs'' : FlagSet} (first : fs.Grows fs') (second : fs'.Grows fs'') :
    fs.Grows fs'' :=
  fun name flag found => second name flag (first name flag found)

theorem define_eq_none (defined : fs.define flag = (fs', none)) :
    fs.Grows fs' ∧ fs'.find? flag.name = some flag := by
  rw [define] at defined
  split at defined
  · cases defined
  · next new =>
    have absent : fs.find? flag.name = none := by simp_all
    have flags_eq : fs'.flags = fs.flags ++ [flag] := by
      dsimp only at defined
      split at defined
      · cases defined
        rfl
      · split at defined
        · cases defined
        · cases defined
          rfl
    refine ⟨fun name known found => ?_, ?_⟩
    · rw [find?, flags_eq, List.find?_append]
      rw [find?] at found
      rw [found, Option.some_or]
    · rw [find?] at absent
      rw [find?, flags_eq, List.find?_append, absent]
      simp

theorem defineAll_eq_none (defined : fs.defineAll flags = (fs', none)) :
    fs.Grows fs' ∧ ∀ flag ∈ flags, fs'.find? flag.name = some flag := by
  induction flags generalizing fs with
  | nil =>
    cases defined
    exact ⟨fun _ _ found => found, by simp⟩
  | cons flag rest ih =>
    rw [defineAll] at defined
    split at defined
    · next fs₁ first =>
      obtain ⟨grows, found⟩ := define_eq_none first
      obtain ⟨growsLater, foundLater⟩ := ih defined
      exact ⟨grows.trans growsLater,
        List.forall_mem_cons.mpr ⟨growsLater _ _ found, foundLater⟩⟩
    · next failed =>
      exact absurd defined (failed fs')

/-- The switches of a group are found once the group has been added. -/
theorem addGroup_eq_none {group : Group} (added : fs.addGroup group = (fs', none)) :
    fs.Grows fs' ∧
      ∀ e ∈ group.entries, ∀ flag ∈ entryFlags e, fs'.find? flag.name = some flag := by
  rw [addGroup] at added
  split at added
  · next fs₁ defined =>
    cases added
    obtain ⟨grows, found⟩ := defineAll_eq_none defined
    refine ⟨grows, fun e isEntry flag isFlag => ?_⟩
    exact found flag (List.mem_flatMap.mpr ⟨e, isEntry, isFlag⟩)
  · next failed => exact absurd added (failed fs')

end Define

section Read

variable {fs : FlagSet} {name : String} {v : Bool}

/-- A name that is recognized after a dash: it is not empty, starts with something else than a
dash, and has no equals sign in it. -/
structure IsLong (name : String) : Prop where
  nonempty : name.toList ≠ []
  undashed : name.toList.head? ≠ some '-'
  unvalued : '=' ∉ name.toList

/-- A dash and the name of a switch name the switch and give it no value. -/
theorem match?_switch (long : IsLong name) {flag : Flag} (found : fs.find? name = some flag) :
    fs.match? ("-" ++ name) = some (flag, none) := by
  have chars : ("-" ++ name).toList.dropWhile (· = '-') = name.toList := by
    obtain ⟨c, rest, name_eq⟩ := List.exists_cons_of_ne_nil long.nonempty
    have notDash : c ≠ '-' := fun isDash => long.undashed (by rw [name_eq, isDash, List.head?_cons])
    simp [name_eq, notDash]
  have matched : fs.longMatch? ("-" ++ name) = some (flag, none) := by
    rw [longMatch?, chars, String.ofList_toList, Text.cut_of_not_mem long.unvalued]
    simp [found]
  rw [match?, matched, Option.some_or]

theorem parseFrom_of_match? {arg : String} {c : Char} {chars : List Char} {flag new : Flag}
    (spelled : arg.toList = '-' :: c :: chars) (notDash : c ≠ '-')
    (matched : fs.match? arg = some (flag, none)) (isSwitch : flag.value.isSwitch = true)
    (set_eq : flag.set "" = .ok new) (rest : List String) :
    fs.parseFrom (arg :: rest) = (fs.update new).parseFrom rest := by
  have notEnd : arg ≠ "--" := by
    rintro rfl
    have chars_eq : ['-', '-'] = '-' :: c :: chars := spelled
    cases chars_eq
    exact notDash rfl
  have notPositional : isPositional arg = false := by
    simp [isPositional, spelled]
  rw [parseFrom, if_neg notEnd, notPositional]
  simp [matched, isSwitch, set_eq]

/-- A dash and the name of a switch turn the switch on and leave the others as they are. -/
theorem parseFrom_switch (long : IsLong name) (holds : fs.Holds name v) :
    ∃ fs₁ : FlagSet, (∀ rest, fs.parseFrom (("-" ++ name) :: rest) = fs₁.parseFrom rest) ∧
      fs₁.args = fs.args ∧
      ∀ other u, fs.Holds other u → fs₁.Holds other (u || decide (other = name)) := by
  obtain ⟨flag, found, isSwitch⟩ := holds
  obtain ⟨c, chars, name_eq⟩ := List.exists_cons_of_ne_nil long.nonempty
  have notDash : c ≠ '-' := fun isDash => long.undashed (by rw [name_eq, isDash, List.head?_cons])
  have isNamed : flag.name = name := name_of_find? found
  have spelled : ("-" ++ name).toList = '-' :: c :: chars := by simp [name_eq]
  refine ⟨fs.update { flag with value := .switch true }, fun rest => ?_, rfl, ?_⟩
  · refine parseFrom_of_match? spelled notDash (match?_switch long found) ?_ ?_ rest
    · rw [isSwitch, FlagValue.isSwitch]
    · simp [Flag.set, isSwitch]
  · rintro other u ⟨otherFlag, foundOther, value_eq⟩
    by_cases same : other = name
    · refine ⟨_, find?_update_self foundOther (isNamed.trans same.symm), ?_⟩
      simp [same]
    · refine ⟨otherFlag, ?_, by simpa [same] using value_eq⟩
      rw [find?_update_of_ne (by rw [isNamed]; exact Ne.symm same), foundOther]

/-- **After a line of switches, those are on that were on or that stand in the line.** -/
theorem parseFrom_switches {names : List String} (long : ∀ name ∈ names, IsLong name)
    (known : ∀ name ∈ names, ∃ v, fs.Holds name v) :
    ∃ fs', fs.parseFrom (names.map ("-" ++ ·)) = (fs', none) ∧ fs'.args = fs.args ∧
      ∀ name v, fs.Holds name v → fs'.Holds name (v || decide (name ∈ names)) := by
  induction names generalizing fs with
  | nil =>
    refine ⟨fs, rfl, rfl, fun name v holds => ?_⟩
    simpa using holds
  | cons first rest ih =>
    obtain ⟨longFirst, longRest⟩ := List.forall_mem_cons.mp long
    obtain ⟨⟨u, holds⟩, knownRest⟩ := List.forall_mem_cons.mp known
    obtain ⟨fs₁, parsed₁, args₁, step⟩ := parseFrom_switch longFirst holds
    have known₁ : ∀ name ∈ rest, ∃ v, fs₁.Holds name v := by
      intro name isName
      obtain ⟨v, holdsName⟩ := knownRest name isName
      exact ⟨_, step name v holdsName⟩
    obtain ⟨fs', parsed, args_eq, later⟩ := ih longRest known₁
    refine ⟨fs', by rw [List.map_cons, parsed₁, parsed], args_eq.trans args₁, ?_⟩
    intro name v holdsName
    have both := later name _ (step name v holdsName)
    rw [Bool.or_assoc, ← Bool.decide_or] at both
    simpa using both

end Read

end RiscBackend.Cli.FlagSet
