/-
# Flags in a list and switches on a command line

A list of flags is applied from left to right, so the last flag for a setting decides. The switches
of a command line are only recorded: one for on and one for off, and in the end off wins. The two
ways agree on a list of flags unless a setting is switched on after it was switched off.
-/

import Mathlib.Data.List.Basic
import RiscBackend.Config.Groups
import RiscBackend.Proofs.Cli.Switches
import RiscBackend.Proofs.Config.Precedence
import RiscBackend.Tool.Compile

namespace RiscBackend

open Cli (FlagSet GroupEntry)

/-- A flag that switches a setting on or off. -/
structure SwitchFlag where
  setting : Setting
  enable : Bool
  deriving DecidableEq, Repr

namespace SwitchFlag

/-- The flag without its dash. -/
def name (flag : SwitchFlag) : String :=
  ((Subject.setting flag.setting).request flag.enable).text

/-- The flag as it is written. -/
def text (flag : SwitchFlag) : String :=
  "-" ++ flag.name

/-- What the last flag for a setting asks of it. -/
def last? (s : Setting) (flags : List SwitchFlag) : Option Bool :=
  ((flags.filter fun flag => flag.setting = s).getLast?).map enable

section Written

variable (flag : SwitchFlag)

theorem ofFlag_name :
    FlagRequest.ofFlag flag.name = (Subject.setting flag.setting).request flag.enable :=
  ofFlag_of_text (.inl rfl) fun _ => Subject.hasStart_name _

theorem ofFlag_text :
    FlagRequest.ofFlag flag.text = (Subject.setting flag.setting).request flag.enable :=
  ofFlag_of_text (.inr rfl) fun _ => Subject.hasStart_name _

theorem grouped_text : Grouped flag.text :=
  ⟨_, _, .inr rfl⟩

theorem name_injective : Function.Injective name := by
  intro flag other same
  have read := ofFlag_name flag
  rw [same, ofFlag_name other] at read
  obtain ⟨setting_eq, enable_eq⟩ := Subject.request_inj read
  cases flag
  cases other
  simp_all

theorem isLong_name : FlagSet.IsLong flag.name := by
  obtain ⟨s, b⟩ := flag
  rcases s with w | f
  · cases w <;> cases b <;> exact ⟨by decide, by decide, by decide⟩
  · cases f <;> cases b <;> exact ⟨by decide, by decide, by decide⟩

theorem asked?_text (s : Setting) :
    Subject.asked? (.setting s) flag.text =
      if flag.setting = s then some flag.enable else none := by
  split
  · next same =>
    subst same
    exact flag.grouped_text.asked?_eq flag.ofFlag_text
  · next other =>
    refine Subject.asked?_eq_none_of_ne flag.ofFlag_text ?_
    rintro ⟨⟩
    exact other rfl

theorem asked?_allWarnings_text : Subject.allWarnings.asked? flag.text = none :=
  Subject.asked?_eq_none_of_ne flag.ofFlag_text nofun

end Written

section Lists

variable (flags : List SwitchFlag) (s : Setting)

theorem lastAsked?_texts : Subject.lastAsked? (.setting s) (flags.map text) = last? s flags := by
  have read : (Subject.asked? (.setting s)) ∘ text =
      fun flag => if flag.setting = s then some flag.enable else none := by
    funext flag
    exact flag.asked?_text s
  rw [Subject.lastAsked?, List.filterMap_map, read, last?, ← List.getLast?_map,
    ← List.filterMap_eq_map, List.filterMap_filter]
  simp

theorem decided?_texts : s.decided? (flags.map text) = last? s flags := by
  have silent : Subject.lastAsked? .allWarnings (flags.map text) = none := by
    simp [Subject.lastAsked?, asked?_allWarnings_text]
  cases s with
  | warning w => rw [Setting.decided?, lastAsked?_texts, silent, Option.or_none]
  | feature f => rw [Setting.decided?, lastAsked?_texts]

theorem isUnknownFlag_text (flag : SwitchFlag) : isUnknownFlag flag.text = false := by
  rw [Bool.eq_false_iff, Ne, isUnknownFlag_iff]
  intro unknown
  have silent := unknown (.setting flag.setting)
  rw [asked?_text, if_pos rfl] at silent
  cases silent

/-- The last flag for a setting is one of its flags. -/
theorem mem_of_last? {flags : List SwitchFlag} {s : Setting} {b : Bool}
    (isLast : last? s flags = some b) : ⟨s, b⟩ ∈ flags := by
  obtain ⟨flag, found, rfl⟩ := Option.map_eq_some_iff.mp isLast
  obtain ⟨isFlag, same⟩ := List.mem_filter.mp (List.mem_of_getLast? found)
  obtain rfl : flag.setting = s := by simpa using same
  exact isFlag

theorem not_mem_of_last?_eq_none {flags : List SwitchFlag} {s : Setting}
    (noLast : last? s flags = none) (b : Bool) : ⟨s, b⟩ ∉ flags := by
  intro isFlag
  rw [last?, Option.map_eq_none_iff, List.getLast?_eq_none_iff, List.filter_eq_nil_iff] at noLast
  exact noLast _ isFlag (by simp)

end Lists

end SwitchFlag

namespace Config

/-- The setting of the command line for a warning or a feature. -/
def entry (c : Config) : Setting → GroupEntry
  | .warning w => c.warningEntry w
  | .feature f => c.featureEntry f

theorem onName_entry (c : Config) (s : Setting) :
    (c.entry s).onName = SwitchFlag.name ⟨s, true⟩ := by
  cases s with
  | warning w => exact congrArg ("W" ++ ·) String.empty_append.symm
  | feature f => exact congrArg ("F" ++ ·) String.empty_append.symm

theorem offName_entry (c : Config) (s : Setting) :
    (c.entry s).offName = SwitchFlag.name ⟨s, false⟩ := by
  cases s with
  | warning w => exact String.append_assoc
  | feature f => exact String.append_assoc

section Groups

variable {c : Config} {fs₀ fs : FlagSet}

/-- The switches of every setting are found once the groups have been added. -/
theorem find?_of_addGroups (added : c.addGroups fs₀ = (fs, none)) (s : Setting) :
    ∀ flag ∈ FlagSet.entryFlags (c.entry s), fs.find? flag.name = some flag := by
  rw [addGroups] at added
  split at added
  · next fs₁ first =>
    obtain ⟨-, warnings⟩ := FlagSet.addGroup_eq_none first
    obtain ⟨grows, features⟩ := FlagSet.addGroup_eq_none added
    intro flag isFlag
    cases s with
    | warning w =>
      refine grows _ _ (warnings (c.warningEntry w) ?_ flag isFlag)
      exact List.mem_map_of_mem (by cases w <;> decide)
    | feature f =>
      refine features (c.featureEntry f) ?_ flag isFlag
      exact List.mem_map_of_mem (by cases f <;> decide)
  · next failed => exact absurd added (failed fs)

/-- At first the switches for on are as the configuration says, and those for off are not set. -/
theorem holds_of_addGroups (added : c.addGroups fs₀ = (fs, none)) (flag : SwitchFlag) :
    fs.Holds flag.name (flag.enable && flag.setting.state c) := by
  obtain ⟨s, b⟩ := flag
  have found := find?_of_addGroups added s
  cases b with
  | true =>
    have isFlag : Cli.Flag.ofDefault (c.entry s).onName "" (c.entry s).usage ""
        (.switch (s.state c)) ∈ FlagSet.entryFlags (c.entry s) := by
      cases s <;> simp [FlagSet.entryFlags, entry, warningEntry, featureEntry, Setting.state]
    have foundOn := found _ isFlag
    rw [show Cli.Flag.name _ = _ from onName_entry c s] at foundOn
    exact ⟨_, foundOn, rfl⟩
  | false =>
    have isFlag : Cli.Flag.ofDefault (c.entry s).offName "" "" "" (.switch false) ∈
        FlagSet.entryFlags (c.entry s) := by
      cases s <;> simp [FlagSet.entryFlags, entry, warningEntry, featureEntry]
    have foundOff := found _ isFlag
    rw [show Cli.Flag.name _ = _ from offName_entry c s] at foundOff
    exact ⟨_, foundOff, rfl⟩

/-- A setting is taken from its two switches. -/
theorem state_applyGroups (c : Config) (fs : FlagSet) (s : Setting) :
    s.state (c.applyGroups fs) =
      (!fs.isOn (SwitchFlag.name ⟨s, false⟩) && fs.isOn (SwitchFlag.name ⟨s, true⟩)) := by
  rw [← onName_entry c, ← offName_entry c]
  cases s with
  | warning w => cases w <;> rfl
  | feature f => cases f <;> rfl

/-- **Off wins on a command line.** A setting is off after any flag for off, on after flags for on
only, and without a flag it is as before. -/
theorem parse_switches (added : c.addGroups fs₀ = (fs, none)) (flags : List SwitchFlag) :
    ∃ fs', fs.parse (flags.map SwitchFlag.text) = (fs', none) ∧ fs'.args = [] ∧
      ∀ s : Setting, s.state (c.applyGroups fs') =
        (decide (⟨s, false⟩ ∉ flags) && (s.state c || decide (⟨s, true⟩ ∈ flags))) := by
  have long : ∀ name ∈ flags.map SwitchFlag.name, FlagSet.IsLong name := by
    intro name isName
    obtain ⟨flag, -, rfl⟩ := List.mem_map.mp isName
    exact flag.isLong_name
  have known : ∀ name ∈ flags.map SwitchFlag.name,
      ∃ v, ({ fs with args := [] } : FlagSet).Holds name v := by
    intro name isName
    obtain ⟨flag, -, rfl⟩ := List.mem_map.mp isName
    exact ⟨_, holds_of_addGroups added flag⟩
  obtain ⟨fs', parsed, args_eq, holds⟩ := FlagSet.parseFrom_switches long known
  rw [List.map_map] at parsed
  refine ⟨fs', parsed, args_eq, fun s => ?_⟩
  have on := (holds _ _ (holds_of_addGroups added ⟨s, true⟩)).isOn_eq
  have off := (holds _ _ (holds_of_addGroups added ⟨s, false⟩)).isOn_eq
  rw [state_applyGroups, on, off]
  simp [List.mem_map_of_injective SwitchFlag.name_injective]

end Groups

theorem grouped_texts (flags : List SwitchFlag) :
    ∀ flag ∈ flags.map SwitchFlag.text, Grouped flag := by
  intro text isText
  obtain ⟨flag, -, rfl⟩ := List.mem_map.mp isText
  exact flag.grouped_text

/-- Off wins and the last flag wins are the same for a setting exactly if a flag for off comes
last whenever there is one. -/
theorem off_wins_eq_last_wins_iff (c : Config) (flags : List SwitchFlag) (s : Setting) :
    (decide (⟨s, false⟩ ∉ flags) && (s.state c || decide (⟨s, true⟩ ∈ flags))) =
        (SwitchFlag.last? s flags).getD (s.state c) ↔
      (⟨s, false⟩ ∈ flags → SwitchFlag.last? s flags = some false) := by
  cases isLast : SwitchFlag.last? s flags with
  | none =>
    have absent := SwitchFlag.not_mem_of_last?_eq_none isLast
    simp [absent]
  | some b =>
    have present := SwitchFlag.mem_of_last? isLast
    cases b <;> simp [present]

/-- **Flags in a list and switches on a command line agree unless a setting is switched on after it
was switched off.** Both ways accept every such line. On the command line a setting is off after
any flag for off; in the list its last flag decides. -/
theorem drivers_agree_iff (c : Config) (fs₀ fs : FlagSet) (added : c.addGroups fs₀ = (fs, none))
    (flags : List SwitchFlag) :
    (fs.parse (flags.map SwitchFlag.text)).2 = none ∧
      (c.processFlags (flags.map SwitchFlag.text)).2 = [] ∧
      (∀ s : Setting, s.state (c.applyGroups (fs.parse (flags.map SwitchFlag.text)).1) =
        (decide (⟨s, false⟩ ∉ flags) && (s.state c || decide (⟨s, true⟩ ∈ flags)))) ∧
      (∀ s : Setting, s.state (c.processFlags (flags.map SwitchFlag.text)).1 =
        (SwitchFlag.last? s flags).getD (s.state c)) ∧
      ((∀ s : Setting, s.state (c.applyGroups (fs.parse (flags.map SwitchFlag.text)).1) =
          s.state (c.processFlags (flags.map SwitchFlag.text)).1) ↔
        ∀ s, ⟨s, false⟩ ∈ flags → SwitchFlag.last? s flags = some false) := by
  obtain ⟨fs', parsed, -, grouped⟩ := parse_switches added flags
  have listed (s : Setting) : s.state (c.processFlags (flags.map SwitchFlag.text)).1 =
      (SwitchFlag.last? s flags).getD (s.state c) := by
    rw [state_processFlags (grouped_texts flags), SwitchFlag.decided?_texts]
  have known : (c.processFlags (flags.map SwitchFlag.text)).2 = [] := by
    rw [processFlags_snd (grouped_texts flags), List.filter_map]
    simp [Function.comp_def, SwitchFlag.isUnknownFlag_text]
  rw [parsed]
  refine ⟨rfl, known, grouped, listed, ?_⟩
  refine forall_congr' fun s => ?_
  rw [grouped, listed]
  exact off_wins_eq_last_wins_iff c flags s

/-- Flags of which the compiler command and a list make the same: a warning is switched on and off
again, and the settings of two other flags are named once. -/
def settledFlags : List SwitchFlag :=
  [⟨.warning .spill, true⟩, ⟨.feature .strict, true⟩, ⟨.warning .spill, false⟩,
    ⟨.warning .frame, false⟩]

theorem drivers_agree_iff_settled :
    addGroups {} (FlagSet.defineAll {} Tool.Compile.flags).1 = (Tool.Compile.app.flagSet, none) ∧
      settledFlags.map SwitchFlag.text = ["-Wspill", "-Fstrict", "-Wno-spill", "-Wno-frame"] ∧
      ∀ s : Setting,
        s.state (applyGroups {} (Tool.Compile.app.flagSet.parse
            (settledFlags.map SwitchFlag.text)).1) =
          s.state (processFlags {} (settledFlags.map SwitchFlag.text)).1 := by
  have added : addGroups {} (FlagSet.defineAll {} Tool.Compile.flags).1 =
      (Tool.Compile.app.flagSet, none) := Prod.ext rfl (by decide)
  obtain ⟨-, -, -, -, agree⟩ := drivers_agree_iff {} _ _ added settledFlags
  refine ⟨added, by decide, agree.mpr fun s off => ?_⟩
  have named : s = .warning .spill ∨ s = .warning .frame := by simpa [settledFlags] using off
  rcases named with rfl | rfl <;> decide

/-- A warning that is switched off and then on is off for the compiler command and on in a list. -/
theorem switched_on_again_only_in_list :
    Setting.state (applyGroups {} (Tool.Compile.app.flagSet.parse ["-Wno-spill", "-Wspill"]).1)
        (.warning .spill) = false ∧
      Setting.state (processFlags {} ["-Wno-spill", "-Wspill"]).1 (.warning .spill) = true := by
  decide

end Config

end RiscBackend
