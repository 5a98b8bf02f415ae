/-
# The switches as tables

A configuration has a state for every feature and every warning. A program keeps them in
tables: numbers lead to switches, which have a name, a state and a description, and names lead to
numbers. Such tables can gain and lose keys, and a switch can be missing where a name leads to its
number. Here the requests are carried out on the tables. They find what the configuration finds
and leave the tables of the configuration that they ask for, so all keys are kept.
-/

import Mathlib.Data.List.Nodup
import RiscBackend.Config.Groups
import RiscBackend.Proofs.Config.Precedence

namespace RiscBackend

open Cli (FlagSet GroupEntry)

/-- A switch of a table. -/
structure Switch where
  name : String
  enabled : Bool
  description : String

/-- The setting of a switch on the command line. -/
def Switch.entry (letter : String) (s : Switch) : GroupEntry :=
  { name := s.name, letter, usage := s.description, on? := some s.enabled, off? := some false }

/-- The switches of a group by their numbers, and the numbers by name. -/
@[ext]
structure SwitchTable where
  switch? : Int → Option Switch
  number? : String → Option Int

namespace SwitchTable

/-- Set the state of the switch with a number, if there is one. -/
def set (t : SwitchTable) (number : Int) (enabled : Bool) : SwitchTable :=
  match t.switch? number with
  | some switch =>
    { t with switch? := Function.update t.switch? number (some { switch with enabled }) }
  | none => t

/-- Set the state of the switch with a name, and tell whether there is one. -/
def setNamed (t : SwitchTable) (name : String) (enabled : Bool) : SwitchTable × Bool :=
  match t.number? name with
  | some number => (t.set number enabled, true)
  | none => (t, false)

/-- Set the states of switches, number by number. -/
def setEach (t : SwitchTable) (number : Int) : List (Option Bool) → SwitchTable
  | [] => t
  | state :: rest => setEach (state.elim t (t.set number)) (number + 1) rest

/-- The settings on the command line for the first switches. -/
def entries (t : SwitchTable) (letter : String) (count : Nat) : List GroupEntry :=
  (List.range count).map fun (number : Nat) =>
    ((t.switch? number).getD ⟨"", false, ""⟩).entry letter

end SwitchTable

/-- A setting with what its switches say after a command line was read. -/
def Cli.GroupEntry.read (fs : FlagSet) (e : GroupEntry) : GroupEntry :=
  { e with
    on? := e.on?.map fun _ => fs.isOn e.onName
    off? := e.off?.map fun _ => fs.isOn e.offName }

/-- The state that a setting asks for. -/
def Cli.GroupEntry.state? (e : GroupEntry) : Option Bool :=
  if e.off? = some true then some false else e.on?

/-- The tables of all switches. -/
structure Panel where
  features : SwitchTable
  warnings : SwitchTable

namespace Panel

/-- Apply a flag, and tell whether its name is known. -/
def applyFlag (p : Panel) (flag : String) : Panel × Bool :=
  let request := FlagRequest.ofFlag flag
  if request.isWarning then
    if request.name = "all" then
      let states := List.replicate Warning.all.length (some request.enable)
      ({ p with warnings := p.warnings.setEach 0 states }, true)
    else
      let (warnings, known) := p.warnings.setNamed request.name request.enable
      ({ p with warnings }, known)
  else
    let (features, known) := p.features.setNamed request.name request.enable
    ({ p with features }, known)

/-- Apply flags; the unknown ones are given back in order. -/
def applyFlags (p : Panel) : List String → Panel × List String
  | [] => (p, [])
  | flag :: rest =>
    let (p, known) := p.applyFlag flag
    let (p, unknown) := applyFlags p rest
    (p, if known then unknown else flag :: unknown)

/-- Apply flags, those for all warnings first; the unknown ones are given back in
order. -/
def processFlags (p : Panel) (flags : List String) : Panel × List String :=
  (p.applyFlags (flags.filter Config.isAllFlag)).1.applyFlags
    (flags.filter fun flag => !Config.isAllFlag flag)

/-- Take the states of all switches from the command line, warnings first. -/
def applyGroups (p : Panel) (fs : FlagSet) : Panel :=
  let warnings := (p.warnings.entries "W" Warning.all.length).map (GroupEntry.read fs)
  let features := (p.features.entries "F" Feature.all.length).map (GroupEntry.read fs)
  { features := p.features.setEach 0 (features.map GroupEntry.state?)
    warnings := p.warnings.setEach 0 (warnings.map GroupEntry.state?) }

end Panel

/-! ### Tables of known members -/

/-- The table with a switch for each of the members, which are numbered from zero on. -/
def SwitchTable.ofMembers {α : Type} (members : List α) (name describe : α → String)
    (state : α → Bool) : SwitchTable where
  switch? number := (numbered? members number).map fun a => ⟨name a, state a, describe a⟩
  number? text := (members.findIdx? fun a => name a = text).map Int.ofNat

/-- The tables of a configuration. -/
def Config.panel (c : Config) : Panel where
  features := .ofMembers Feature.all Feature.name Feature.describe c.feature
  warnings := .ofMembers Warning.all Warning.name Warning.describe c.warning

theorem numbered?_natCast {α : Type} (members : List α) (i : Nat) :
    numbered? members i = members[i]? := by
  rw [numbered?, if_neg (by omega), Int.toNat_natCast]

/-- A number that a member has is a place in the list. -/
theorem exists_of_numbered?_eq_some {α : Type} {members : List α} {number : Int} {a : α}
    (found : numbered? members number = some a) : ∃ i : Nat, number = i ∧ members[i]? = some a := by
  rw [numbered?] at found
  split at found
  · cases found
  · exact ⟨number.toNat, by omega, found⟩

namespace SwitchTable

section Members

variable {α : Type} {members : List α} {name describe : α → String} {state : α → Bool}
  {number : Int} {a : α}

theorem switch?_ofMembers (members : List α) (name describe : α → String) (state : α → Bool)
    (number : Int) :
    (ofMembers members name describe state).switch? number =
      (numbered? members number).map fun a => ⟨name a, state a, describe a⟩ :=
  (rfl)

/-- A table tells the states of its members only. -/
theorem ofMembers_congr {state' : α → Bool} (same : ∀ a ∈ members, state a = state' a) :
    ofMembers members name describe state = ofMembers members name describe state' := by
  apply SwitchTable.ext
  · funext number
    rw [switch?_ofMembers, switch?_ofMembers]
    cases found : numbered? members number with
    | none => rfl
    | some a =>
      obtain ⟨i, -, atIndex⟩ := exists_of_numbered?_eq_some found
      rw [Option.map_some, Option.map_some, same a (List.mem_of_getElem? atIndex)]
  · rfl

theorem set_ofMembers_of_none (missing : numbered? members number = none) (enabled : Bool) :
    (ofMembers members name describe state).set number enabled =
      ofMembers members name describe state := by
  simp [set, ofMembers, missing]

variable [DecidableEq α]

/-- Setting a switch is setting the state of the member that has its number. -/
theorem set_ofMembers (nodup : members.Nodup) (found : numbered? members number = some a)
    (enabled : Bool) :
    (ofMembers members name describe state).set number enabled =
      ofMembers members name describe fun b => if b = a then enabled else state b := by
  have known : (ofMembers members name describe state).switch? number =
      some ⟨name a, state a, describe a⟩ := by
    rw [switch?_ofMembers, found, Option.map_some]
  apply SwitchTable.ext
  · funext other
    rw [set, known]
    dsimp only
    rw [Function.update_apply]
    split
    · rename_i same
      rw [same, switch?_ofMembers, found, Option.map_some, if_pos rfl]
    · rename_i differ
      rw [switch?_ofMembers, switch?_ofMembers]
      cases found' : numbered? members other with
      | none => rfl
      | some b =>
        have different : b ≠ a := by
          rintro rfl
          obtain ⟨i, rfl, first⟩ := exists_of_numbered?_eq_some found
          obtain ⟨j, rfl, second⟩ := exists_of_numbered?_eq_some found'
          have bound := (List.getElem?_eq_some_iff.mp first).1
          have same := (List.getElem?_inj bound nodup).mp (first.trans second.symm)
          exact differ (congrArg Nat.cast same.symm)
        rw [Option.map_some, Option.map_some, if_neg different]
  · rw [set, known]
    rfl

/-- A name leads to the member that the list has for it. -/
theorem setNamed_ofMembers (nodup : members.Nodup) (name describe : α → String)
    (state : α → Bool) (text : String) (enabled : Bool) :
    (ofMembers members name describe state).setNamed text enabled =
      match members.find? fun a => name a = text with
      | some a =>
        (ofMembers members name describe fun b => if b = a then enabled else state b, true)
      | none => (ofMembers members name describe state, false) := by
  have leads : (ofMembers members name describe state).number? text =
    (members.findIdx? fun a => name a = text).map Int.ofNat := rfl
  rw [setNamed, leads]
  cases found : members.findIdx? fun a => name a = text with
  | none =>
    have missing : members.find? (fun a => name a = text) = none := by
      simpa using found
    rw [missing]
    rfl
  | some i =>
    obtain ⟨bound, isNamed, first⟩ := List.findIdx?_eq_some_iff_getElem.mp found
    have isMember : members.find? (fun a => name a = text) = some members[i] :=
      List.find?_eq_some_iff_getElem.mpr ⟨isNamed, i, bound, rfl, fun j before => by
        simpa using first j before⟩
    have atIndex : numbered? members (i : Int) = some members[i] := by
      rw [numbered?_natCast, List.getElem?_eq_getElem bound]
    rw [isMember]
    exact congrArg (·, true) (set_ofMembers nodup atIndex enabled)

/-- Setting the switches number by number goes through the members. -/
theorem setEach_ofMembers_from {value : α → Bool} {before rest : List α}
    (nodup : members.Nodup) (split : members = before ++ rest)
    (done : ∀ a ∈ before, state a = value a) :
    (ofMembers members name describe state).setEach before.length
        (rest.map fun a => some (value a)) =
      ofMembers members name describe value := by
  induction rest generalizing before state with
  | nil =>
    rw [List.append_nil] at split
    exact ofMembers_congr (split ▸ done)
  | cons a rest ih =>
    have atIndex : numbered? members (before.length : Int) = some a := by
      rw [numbered?_natCast, split, List.getElem?_append_right (Nat.le_refl _), Nat.sub_self]
      rfl
    have split' : members = (before ++ [a]) ++ rest := by
      rw [split, List.append_assoc, List.singleton_append]
    have done' : ∀ b ∈ before ++ [a], (if b = a then value a else state b) = value b := by
      intro b isDone
      by_cases same : b = a
      · rw [if_pos same, same]
      · rw [if_neg same]
        exact done b ((List.mem_append.mp isDone).resolve_right (by simpa using same))
    have later := ih split' done'
    rw [List.length_append, List.length_singleton, Int.natCast_add, Int.natCast_one] at later
    rw [List.map_cons, setEach, Option.elim_some, set_ofMembers nodup atIndex]
    exact later

theorem setEach_ofMembers {value : α → Bool} (nodup : members.Nodup) :
    (ofMembers members name describe state).setEach 0 (members.map fun a => some (value a)) =
      ofMembers members name describe value :=
  setEach_ofMembers_from nodup (List.nil_append members).symm (by simp)

end Members

/-- The settings for a table are the settings for its members. -/
theorem entries_ofMembers {α : Type} (members : List α) (name describe : α → String)
    (state : α → Bool) (letter : String) :
    (ofMembers members name describe state).entries letter members.length =
      members.map fun a => Switch.entry letter ⟨name a, state a, describe a⟩ := by
  apply List.ext_getElem
  · simp [entries]
  · intro i bound bound'
    have inMembers : i < members.length := by simpa using bound'
    have atIndex : numbered? members (i : Int) = some members[i] := by
      rw [numbered?_natCast, List.getElem?_eq_getElem inMembers]
    simp [entries, switch?_ofMembers, atIndex]

/-- Whether two tables have the same numbers and names, with the same texts. -/
structure SameKeys (t t' : SwitchTable) : Prop where
  switches : ∀ number, (t'.switch? number).isSome = (t.switch? number).isSome
  texts : ∀ number, (t'.switch? number).map (fun switch => (switch.name, switch.description)) =
    (t.switch? number).map fun switch => (switch.name, switch.description)
  numbers : ∀ name, t'.number? name = t.number? name

theorem sameKeys_ofMembers {α : Type} (members : List α) (name describe : α → String)
    (state state' : α → Bool) :
    (ofMembers members name describe state).SameKeys (ofMembers members name describe state') where
  switches number := by
    rw [switch?_ofMembers, switch?_ofMembers, Option.isSome_map, Option.isSome_map]
  texts number := by
    rw [switch?_ofMembers, switch?_ofMembers, Option.map_map, Option.map_map]
    rfl
  numbers _ := rfl

end SwitchTable

/-- Whether two panels have the same numbers and names, with the same texts. -/
structure Panel.SameKeys (p p' : Panel) : Prop where
  features : p.features.SameKeys p'.features
  warnings : p.warnings.SameKeys p'.warnings

/-! ### In step with the configuration -/

namespace Config

theorem sameKeys_panel (c c' : Config) : c.panel.SameKeys c'.panel where
  features := SwitchTable.sameKeys_ofMembers _ _ _ _ _
  warnings := SwitchTable.sameKeys_ofMembers _ _ _ _ _

theorem panel_setFeatureNumber (c : Config) (number : Int) (enabled : Bool) :
    { c.panel with features := c.panel.features.set number enabled } =
      (c.setFeatureNumber number enabled).panel := by
  rw [setFeatureNumber, Feature.ofNumber?]
  cases found : numbered? Feature.all number with
  | none => exact congrArg (Panel.mk · _) (SwitchTable.set_ofMembers_of_none found enabled)
  | some f => exact congrArg (Panel.mk · _) (SwitchTable.set_ofMembers (by decide) found enabled)

theorem panel_setWarningNumber (c : Config) (number : Int) (enabled : Bool) :
    { c.panel with warnings := c.panel.warnings.set number enabled } =
      (c.setWarningNumber number enabled).panel := by
  rw [setWarningNumber, Warning.ofNumber?]
  cases found : numbered? Warning.all number with
  | none => exact congrArg (Panel.mk _) (SwitchTable.set_ofMembers_of_none found enabled)
  | some w => exact congrArg (Panel.mk _) (SwitchTable.set_ofMembers (by decide) found enabled)

/-- A flag is known to the tables if it is known to the configuration. -/
theorem panel_applyFlag (c : Config) (flag : String) :
    c.panel.applyFlag flag = (((c.applyFlag? flag).getD c).panel, (c.applyFlag? flag).isSome) := by
  unfold Panel.applyFlag applyFlag?
  dsimp only
  generalize FlagRequest.ofFlag flag = request
  split
  · split
    · have states : List.replicate Warning.all.length (some request.enable) =
          Warning.all.map fun _ => some request.enable := List.map_const'.symm
      have all : c.panel.warnings.setEach 0 (Warning.all.map fun _ => some request.enable) =
          (c.setAllWarnings request.enable).panel.warnings := by
        rw [panel, panel, funext (warning_setAllWarnings c request.enable)]
        exact SwitchTable.setEach_ofMembers (by decide)
      rw [states, all]
      rfl
    · have nodup : Warning.all.Nodup := by decide
      rw [panel, SwitchTable.setNamed_ofMembers nodup, Warning.ofName?]
      cases Warning.all.find? fun w => w.name = request.name <;> rfl
  · have nodup : Feature.all.Nodup := by decide
    rw [panel, SwitchTable.setNamed_ofMembers nodup, Feature.ofName?]
    cases Feature.all.find? fun f => f.name = request.name <;> rfl

theorem panel_applyFlags (c : Config) (flags : List String) :
    c.panel.applyFlags flags = ((c.applyFlags flags).1.panel, (c.applyFlags flags).2) := by
  induction flags generalizing c with
  | nil => rfl
  | cons flag rest ih =>
    unfold Panel.applyFlags applyFlags
    rw [panel_applyFlag]
    cases c.applyFlag? flag with
    | none => simp [ih]
    | some c' => simp [ih]

theorem panel_processFlags (c : Config) (flags : List String) :
    c.panel.processFlags flags = ((c.processFlags flags).1.panel, (c.processFlags flags).2) := by
  rw [Panel.processFlags, panel_applyFlags, panel_applyFlags]
  rfl

theorem warning_applyGroups (c : Config) (fs : FlagSet) :
    (c.applyGroups fs).warning = fun w => switched fs (c.warningEntry w) := by
  funext w
  cases w <;> rfl

theorem feature_applyGroups (c : Config) (fs : FlagSet) :
    (c.applyGroups fs).feature = fun f => switched fs (c.featureEntry f) := by
  funext f
  cases f <;> rfl

theorem state?_read (fs : FlagSet) (e : GroupEntry) (hasOn : e.on?.isSome)
    (hasOff : e.off?.isSome) : (e.read fs).state? = some (switched fs e) := by
  obtain ⟨on, isOn⟩ := Option.isSome_iff_exists.mp hasOn
  obtain ⟨off, isOff⟩ := Option.isSome_iff_exists.mp hasOff
  rw [GroupEntry.state?, GroupEntry.read, switched, isOn, isOff]
  cases fs.isOn e.offName <;> simp

/-- The states from the command line are those of the settings of the members. -/
theorem setEach_entries {α : Type} [DecidableEq α] {members : List α} (nodup : members.Nodup)
    (name describe : α → String) (state : α → Bool) (letter : String) (fs : FlagSet) :
    let t := SwitchTable.ofMembers members name describe state
    t.setEach 0 (((t.entries letter members.length).map (GroupEntry.read fs)).map
        GroupEntry.state?) =
      SwitchTable.ofMembers members name describe fun a =>
        switched fs (Switch.entry letter ⟨name a, state a, describe a⟩) := by
  intro t
  rw [SwitchTable.entries_ofMembers, List.map_map, List.map_map]
  have states : members.map ((GroupEntry.state? ∘ GroupEntry.read fs) ∘ fun a =>
        Switch.entry letter ⟨name a, state a, describe a⟩) =
      members.map fun a => some (switched fs (Switch.entry letter ⟨name a, state a, describe a⟩)) :=
    List.map_congr_left fun a _ => state?_read fs _ rfl rfl
  rw [states]
  exact SwitchTable.setEach_ofMembers nodup

theorem panel_applyGroups (c : Config) (fs : FlagSet) :
    c.panel.applyGroups fs = (c.applyGroups fs).panel := by
  rw [panel, panel, feature_applyGroups, warning_applyGroups, Panel.applyGroups]
  exact congrArg₂ Panel.mk (setEach_entries (by decide) ..) (setEach_entries (by decide) ..)

end Config

end RiscBackend
