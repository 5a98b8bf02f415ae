/-
# Which flag decides

A flag names a subject: one warning, one feature, or all warnings at once. A list of flags is gone
through twice, first for the flags about all warnings and then for the others. So the last flag
that names a setting decides its state, wherever the flags about all warnings stand, and the last
of these decides about the warnings that no flag names.
-/

import Mathlib.Data.List.Basic
import RiscBackend.Config.Flags
import RiscBackend.Proofs.Text.Cut

namespace RiscBackend

/-- What can be switched: a warning or a feature. -/
inductive Setting where
  | warning (w : Warning)
  | feature (f : Feature)
  deriving DecidableEq, Repr

namespace Setting

/-- The name used in flags. -/
def name : Setting → String
  | warning w => w.name
  | feature f => f.name

/-- The state of a setting in a configuration. -/
def state (c : Config) : Setting → Bool
  | warning w => c.warning w
  | feature f => c.feature f

end Setting

/-- What a flag can name: a setting, or all warnings. -/
inductive Subject where
  | setting (s : Setting)
  | allWarnings
  deriving DecidableEq, Repr

namespace FlagRequest

/-- The letter of a group of flags. -/
def letter (isWarning : Bool) : String :=
  if isWarning then "W" else "F"

/-- A request as it is written, without a dash. -/
def text (r : FlagRequest) : String :=
  letter r.isWarning ++ ((if r.enable then "" else "no-") ++ r.name)

/-- A flag is a request as it is written, perhaps with a dash in front. -/
def WrittenAs (r : FlagRequest) (flag : String) : Prop :=
  flag = r.text ∨ flag = "-" ++ r.text

instance (r : FlagRequest) (flag : String) : Decidable (r.WrittenAs flag) :=
  inferInstanceAs (Decidable (_ ∨ _))

end FlagRequest

namespace Subject

/-- All subjects. -/
def all : List Subject :=
  allWarnings :: Warning.all.map (fun w => setting (.warning w)) ++
    Feature.all.map fun f => setting (.feature f)

/-- Whether the flags about a subject are those for warnings. -/
def isWarning : Subject → Bool
  | setting (.feature _) => false
  | _ => true

/-- The name used in flags. -/
def name : Subject → String
  | setting s => s.name
  | allWarnings => "all"

/-- The request to switch a subject. -/
def request (subject : Subject) (enable : Bool) : FlagRequest :=
  { isWarning := subject.isWarning, name := subject.name, enable }

/-- What a flag asks of a subject: on, off, or nothing. -/
def asked? (subject : Subject) (flag : String) : Option Bool :=
  if (subject.request true).WrittenAs flag then some true
  else if (subject.request false).WrittenAs flag then some false
  else none

/-- What the last flag that names a subject asks of it. -/
def lastAsked? (subject : Subject) (flags : List String) : Option Bool :=
  (flags.filterMap subject.asked?).getLast?

end Subject

/-- A flag that starts with the letter of a group, after at most one dash. -/
def Grouped (flag : String) : Prop :=
  ∃ isWarning rest, flag = FlagRequest.letter isWarning ++ rest ∨
    flag = "-" ++ (FlagRequest.letter isWarning ++ rest)

section Requests

variable {flag rest : String} {isWarning : Bool} {r : FlagRequest} {subject other : Subject}
  {b b' : Bool}

theorem head?_letter_append (isWarning : Bool) (rest : String) :
    (FlagRequest.letter isWarning ++ rest).toList.head? = some (if isWarning then 'W' else 'F') := by
  cases isWarning <;> simp [FlagRequest.letter]

/-- What is left of a flag without its dash. -/
theorem dropStart_dash (written : flag = FlagRequest.letter isWarning ++ rest ∨
    flag = "-" ++ (FlagRequest.letter isWarning ++ rest)) :
    Text.dropStart "-" flag = FlagRequest.letter isWarning ++ rest := by
  rcases written with rfl | rfl
  · apply Text.dropStart_of_not_hasStart
    refine Text.hasStart_of_head_ne rfl (head?_letter_append isWarning rest) ?_
    cases isWarning <;> decide
  · exact Text.dropStart_append _ _

/-- A flag with a letter is read from what follows the letter. -/
theorem ofFlag_eq (written : flag = FlagRequest.letter isWarning ++ rest ∨
    flag = "-" ++ (FlagRequest.letter isWarning ++ rest)) :
    FlagRequest.ofFlag flag =
      { isWarning, name := Text.dropStart "no-" rest, enable := !Text.hasStart "no-" rest } := by
  have name_eq : (if Text.hasStart "no-" rest = true then Text.dropStart "no-" rest else rest) =
      Text.dropStart "no-" rest := by
    split
    · rfl
    · next other => rw [Text.dropStart_of_not_hasStart (by simpa using other)]
  rw [FlagRequest.ofFlag, dropStart_dash written]
  cases isWarning with
  | true =>
    have negative : Text.hasStart "Wno-" ("W" ++ rest) = Text.hasStart "no-" rest :=
      Text.hasStart_append_append "W" "no-" rest
    have noFeature : Text.hasStart "Fno-" ("W" ++ rest) = false :=
      Text.hasStart_of_head_ne rfl (head?_letter_append true rest) (by decide)
    have noLetter : Text.hasStart "F" ("W" ++ rest) = false :=
      Text.hasStart_of_head_ne rfl (head?_letter_append true rest) (by decide)
    simp [FlagRequest.letter, negative, noFeature, noLetter, Text.dropStart_append, name_eq]
  | false =>
    have negative : Text.hasStart "Fno-" ("F" ++ rest) = Text.hasStart "no-" rest :=
      Text.hasStart_append_append "F" "no-" rest
    have noWarning : Text.hasStart "Wno-" ("F" ++ rest) = false :=
      Text.hasStart_of_head_ne rfl (head?_letter_append false rest) (by decide)
    simp [FlagRequest.letter, negative, noWarning, Text.hasStart_append, Text.dropStart_append,
      name_eq]

/-- A flag with a letter is the request that is read from it, perhaps after a dash. -/
theorem Grouped.eq_text (grouped : Grouped flag) :
    flag = (FlagRequest.ofFlag flag).text ∨ flag = "-" ++ (FlagRequest.ofFlag flag).text := by
  obtain ⟨isWarning, rest, written⟩ := grouped
  have text_eq : (FlagRequest.ofFlag flag).text = FlagRequest.letter isWarning ++ rest := by
    rw [ofFlag_eq written, FlagRequest.text]
    congr 1
    cases negative : Text.hasStart "no-" rest with
    | true => exact Text.append_dropStart negative
    | false => simp [Text.dropStart_of_not_hasStart negative]
  rw [text_eq]
  exact written

/-- A request is read back from how it is written, unless its name looks like a negation. -/
theorem ofFlag_of_text (written : flag = r.text ∨ flag = "-" ++ r.text)
    (plain : r.enable = true → Text.hasStart "no-" r.name = false) :
    FlagRequest.ofFlag flag = r := by
  rw [ofFlag_eq written]
  obtain ⟨isWarning, name, enable⟩ := r
  cases enable with
  | true => simp [plain rfl, Text.dropStart_of_not_hasStart (plain rfl)]
  | false => simp [Text.hasStart_append, Text.dropStart_append]

/-- No subject has a name that looks like a negation. -/
theorem Subject.hasStart_name (subject : Subject) : Text.hasStart "no-" subject.name = false := by
  rcases subject with (w | f) | _
  · cases w <;> decide
  · cases f <;> decide
  · decide

theorem Subject.mem_all (subject : Subject) : subject ∈ all := by
  rcases subject with (w | f) | _
  · cases w <;> decide
  · cases f <;> decide
  · decide

/-- Different subjects have different names. -/
theorem Subject.name_inj (same : subject.name = other.name) : subject = other :=
  have distinct : ∀ a ∈ all, ∀ b ∈ all, a.name = b.name → a = b := by decide
  distinct _ subject.mem_all _ other.mem_all same

/-- Different requests are about different subjects, or in different ways. -/
theorem Subject.request_inj (same : subject.request b = other.request b') :
    subject = other ∧ b = b' :=
  ⟨name_inj (congrArg FlagRequest.name same), congrArg FlagRequest.enable same⟩

/-- What a flag asks of a subject is read from the flag. -/
theorem Subject.request_of_asked? (asked : subject.asked? flag = some b) :
    FlagRequest.ofFlag flag = subject.request b := by
  unfold asked? at asked
  split at asked
  · next written =>
    cases asked
    exact ofFlag_of_text written fun _ => subject.hasStart_name
  · split at asked
    · next written =>
      cases asked
      exact ofFlag_of_text written fun _ => subject.hasStart_name
    · cases asked

/-- What is read from a flag with a letter is what it asks. -/
theorem Grouped.asked?_eq (grouped : Grouped flag)
    (read : FlagRequest.ofFlag flag = subject.request b) : subject.asked? flag = some b := by
  have written := grouped.eq_text
  rw [read] at written
  cases b with
  | true => exact if_pos written
  | false =>
    have notOn : ¬ (subject.request true).WrittenAs flag := by
      intro isOn
      have readOn := ofFlag_of_text isOn fun _ => subject.hasStart_name
      cases (Subject.request_inj (read.symm.trans readOn)).2
    rw [Subject.asked?, if_neg notOn]
    exact if_pos written

end Requests

theorem Subject.asked?_eq_none_of_ne {flag : String} {subject other : Subject} {b : Bool}
    (read : FlagRequest.ofFlag flag = subject.request b) (ne : other ≠ subject) :
    other.asked? flag = none := by
  rw [Option.eq_none_iff_forall_ne_some]
  intro b' asked
  exact ne (request_inj ((request_of_asked? asked).symm.trans read)).1

theorem Warning.ofName?_name (w : Warning) : ofName? w.name = some w := by
  cases w <;> decide

theorem Warning.name_ne_all (w : Warning) : w.name ≠ "all" := by
  cases w <;> decide

theorem Feature.ofName?_name (f : Feature) : ofName? f.name = some f := by
  cases f <;> decide

namespace Config

/-- Switch a subject. -/
def switch (c : Config) (subject : Subject) (enable : Bool) : Config :=
  match subject with
  | .setting (.warning w) => c.setWarning w enable
  | .setting (.feature f) => c.setFeature f enable
  | .allWarnings => c.setAllWarnings enable

section Switch

variable (c : Config) (s : Setting) (b : Bool)

theorem state_switch_self : s.state (c.switch (.setting s) b) = b := by
  cases s with
  | warning w => exact if_pos rfl
  | feature f => exact if_pos rfl

theorem state_switch_of_ne {s t : Setting} (ne : s ≠ t) :
    s.state (c.switch (.setting t) b) = s.state c := by
  cases s with
  | warning w =>
    cases t with
    | warning v => exact if_neg fun same => ne (congrArg Setting.warning same)
    | feature f => rfl
  | feature f =>
    cases t with
    | warning w => rfl
    | feature g => exact if_neg fun same => ne (congrArg Setting.feature same)

theorem warning_setAllWarnings (w : Warning) : (c.setAllWarnings b).warning w = b := by
  cases w <;> rfl

end Switch

/-- Two configurations differ at most in their switches. -/
def Reswitched (c c' : Config) : Prop :=
  c' = { c with feature := c'.feature, warning := c'.warning }

theorem Reswitched.trans {c c' c'' : Config} (first : Reswitched c c')
    (second : Reswitched c' c'') : Reswitched c c'' := by
  rw [Reswitched] at first second ⊢
  rw [second, first]

theorem reswitched_switch (c : Config) (subject : Subject) (b : Bool) :
    Reswitched c (c.switch subject b) := by
  rcases subject with (w | f) | _ <;> rfl

section OneFlag

variable {c : Config} {flag : String} {subject : Subject} {b : Bool}

/-- A flag that asks for a subject switches it. -/
theorem applyFlag?_of_request (read : FlagRequest.ofFlag flag = subject.request b) :
    c.applyFlag? flag = some (c.switch subject b) := by
  rw [applyFlag?, read]
  rcases subject with (w | f) | _
  · show (if w.name = "all" then _ else _) = _
    rw [if_neg w.name_ne_all]
    show (Warning.ofName? w.name).map _ = _
    rw [w.ofName?_name]
    rfl
  · show (Feature.ofName? f.name).map _ = _
    rw [f.ofName?_name]
    rfl
  · rfl

/-- A flag that asks for nothing known is refused. -/
theorem applyFlag?_eq_none
    (unknown : ∀ (subject : Subject) b, FlagRequest.ofFlag flag ≠ subject.request b) :
    c.applyFlag? flag = none := by
  unfold applyFlag?
  generalize FlagRequest.ofFlag flag = r at unknown ⊢
  obtain ⟨isWarning, name, enable⟩ := r
  cases isWarning with
  | true =>
    have notAll : name ≠ "all" := by
      rintro rfl
      exact unknown .allWarnings enable rfl
    show (if name = "all" then _ else _) = _
    rw [if_neg notAll, Option.map_eq_none_iff, Option.eq_none_iff_forall_ne_some]
    intro w found
    obtain rfl : w.name = name := by simpa using List.find?_some found
    exact unknown (.setting (.warning w)) enable rfl
  | false =>
    show (Feature.ofName? name).map _ = none
    rw [Option.map_eq_none_iff, Option.eq_none_iff_forall_ne_some]
    intro f found
    obtain rfl : f.name = name := by simpa using List.find?_some found
    exact unknown (.setting (.feature f)) enable rfl

/-- What a flag can do: switch the one subject it asks for, or nothing at all. -/
theorem applyFlag?_cases (grouped : Grouped flag) :
    (∃ subject b, subject.asked? flag = some b ∧ (∀ other ≠ subject, other.asked? flag = none) ∧
        ∀ c : Config, c.applyFlag? flag = some (c.switch subject b)) ∨
      (∀ subject : Subject, subject.asked? flag = none) ∧
        ∀ c : Config, c.applyFlag? flag = none := by
  by_cases known : ∃ (subject : Subject) (b : Bool), FlagRequest.ofFlag flag = subject.request b
  · obtain ⟨subject, b, read⟩ := known
    refine .inl ⟨subject, b, grouped.asked?_eq read, fun other ne => ?_, fun c => ?_⟩
    · exact Subject.asked?_eq_none_of_ne read ne
    · exact applyFlag?_of_request read
  · push Not at known
    refine .inr ⟨fun subject => ?_, fun c => applyFlag?_eq_none known⟩
    rw [Option.eq_none_iff_forall_ne_some]
    intro b asked
    exact known subject b (Subject.request_of_asked? asked)

end OneFlag

end Config

/-- What a flag does to a setting: what it asks of the setting itself, or of all warnings. -/
def Setting.effect? (s : Setting) (flag : String) : Option Bool :=
  match s with
  | warning w => (Subject.asked? (.setting (.warning w)) flag).or (Subject.allWarnings.asked? flag)
  | feature f => Subject.asked? (.setting (.feature f)) flag

/-- What a list of flags asks of a setting: what the last flag asks that names it, or else, for a
warning, the last flag about all warnings. -/
def Setting.decided? (s : Setting) (flags : List String) : Option Bool :=
  match s with
  | warning w =>
    (Subject.lastAsked? (.setting (.warning w)) flags).or (Subject.lastAsked? .allWarnings flags)
  | feature f => Subject.lastAsked? (.setting (.feature f)) flags

/-- Whether a flag names no subject. -/
def isUnknownFlag (flag : String) : Bool :=
  Subject.all.all fun subject => (subject.asked? flag).isNone

theorem isUnknownFlag_iff {flag : String} :
    isUnknownFlag flag = true ↔ ∀ subject : Subject, subject.asked? flag = none := by
  simp [isUnknownFlag, Subject.mem_all]

namespace Config

section ManyFlags

variable {flag : String} {flags : List String}

/-- One flag gives a setting the state it asks for. -/
theorem state_applyFlag (grouped : Grouped flag) (c : Config) (s : Setting) :
    s.state ((c.applyFlag? flag).getD c) = (s.effect? flag).getD (s.state c) := by
  rcases applyFlag?_cases grouped with ⟨subject, b, asked, others, applied⟩ | ⟨unknown, refused⟩
  · rw [applied, Option.getD_some]
    cases subject with
    | setting t =>
      by_cases same : s = t
      · subst same
        rw [state_switch_self]
        cases s <;> simp [Setting.effect?, asked]
      · have silent : Subject.asked? (.setting s) flag = none :=
          others _ fun isSame => same (Subject.setting.inj isSame)
        have notAll : Subject.allWarnings.asked? flag = none := others _ nofun
        rw [state_switch_of_ne c b same]
        cases s <;> simp [Setting.effect?, silent, notAll]
    | allWarnings =>
      have silent : Subject.asked? (.setting s) flag = none := others _ nofun
      cases s with
      | warning w =>
        simp only [Setting.effect?, silent, asked, Option.none_or, Option.getD_some]
        exact warning_setAllWarnings c b w
      | feature f =>
        simp only [Setting.effect?, silent, Option.getD_none]
        rfl
  · rw [refused, Option.getD_none]
    cases s <;> simp [Setting.effect?, unknown]

-- In parentheses, so that the equation is not tried as a definitional one, which is slow.
theorem applyFlags_cons (c : Config) (flag : String) (rest : List String) :
    c.applyFlags (flag :: rest) =
      match c.applyFlag? flag with
      | some c => c.applyFlags rest
      | none => ((c.applyFlags rest).1, flag :: (c.applyFlags rest).2) :=
  (rfl)

theorem applyFlags_cons_of_some {c c' : Config} (applied : c.applyFlag? flag = some c')
    (rest : List String) : c.applyFlags (flag :: rest) = c'.applyFlags rest := by
  rw [applyFlags_cons, applied]

theorem applyFlags_cons_of_none {c : Config} (refused : c.applyFlag? flag = none)
    (rest : List String) :
    c.applyFlags (flag :: rest) = ((c.applyFlags rest).1, flag :: (c.applyFlags rest).2) := by
  rw [applyFlags_cons, refused]

theorem applyFlags_cons_fst (c : Config) (flag : String) (rest : List String) :
    (c.applyFlags (flag :: rest)).1 = (((c.applyFlag? flag).getD c).applyFlags rest).1 := by
  cases applied : c.applyFlag? flag with
  | none => rw [applyFlags_cons_of_none applied, Option.getD_none]
  | some c' => rw [applyFlags_cons_of_some applied, Option.getD_some]

/-- Of several flags, the last one that is about a setting decides. -/
theorem state_applyFlags (grouped : ∀ flag ∈ flags, Grouped flag) (c : Config) (s : Setting) :
    s.state (c.applyFlags flags).1 = (flags.filterMap s.effect?).getLast?.getD (s.state c) := by
  induction flags generalizing c with
  | nil => rfl
  | cons flag rest ih =>
    obtain ⟨first, later⟩ := List.forall_mem_cons.mp grouped
    rw [applyFlags_cons_fst, ih later, state_applyFlag first, List.filterMap_cons]
    cases s.effect? flag with
    | none => rfl
    | some b => rw [List.getLast?_cons, Option.getD_some, Option.getD_some]

/-- The flags that name no subject are given back in order. -/
theorem applyFlags_snd (grouped : ∀ flag ∈ flags, Grouped flag) (c : Config) :
    (c.applyFlags flags).2 = flags.filter isUnknownFlag := by
  induction flags generalizing c with
  | nil => rfl
  | cons flag rest ih =>
    obtain ⟨first, later⟩ := List.forall_mem_cons.mp grouped
    rcases applyFlag?_cases first with ⟨subject, b, asked, -, applied⟩ | ⟨unknown, refused⟩
    · have known : ¬ isUnknownFlag flag = true := by
        rw [isUnknownFlag_iff]
        intro unknown
        cases (unknown subject).symm.trans asked
      rw [applyFlags_cons_of_some (applied c), List.filter_cons_of_neg known, ih later]
    · rw [applyFlags_cons_of_none (refused c),
        List.filter_cons_of_pos (isUnknownFlag_iff.mpr unknown), ih later]

theorem reswitched_applyFlags (grouped : ∀ flag ∈ flags, Grouped flag) (c : Config) :
    Reswitched c (c.applyFlags flags).1 := by
  induction flags generalizing c with
  | nil => rfl
  | cons flag rest ih =>
    obtain ⟨first, later⟩ := List.forall_mem_cons.mp grouped
    rw [applyFlags_cons_fst]
    rcases applyFlag?_cases first with ⟨subject, b, -, -, applied⟩ | ⟨-, refused⟩
    · rw [applied]
      exact (reswitched_switch c subject b).trans (ih later _)
    · rw [refused]
      exact ih later c

end ManyFlags

section TwoPasses

variable {flag : String} {flags : List String}

/-- A flag is written as a request if the request is what is left of it without its dash. -/
theorem writtenAs_iff {r : FlagRequest} :
    r.WrittenAs flag ↔ Text.dropStart "-" flag = r.text := by
  refine ⟨dropStart_dash, fun body => ?_⟩
  cases dashed : Text.hasStart "-" flag with
  | true => exact .inr (by rw [← body, Text.append_dropStart dashed])
  | false => exact .inl (by rw [← body, Text.dropStart_of_not_hasStart dashed])

/-- The flags of the first pass are those that name all warnings. -/
theorem isAllFlag_eq (flag : String) :
    isAllFlag flag = (Subject.allWarnings.asked? flag).isSome := by
  have on_iff := @writtenAs_iff flag (Subject.allWarnings.request true)
  have off_iff := @writtenAs_iff flag (Subject.allWarnings.request false)
  have on_eq : (Subject.allWarnings.request true).text = "Wall" := by decide
  have off_eq : (Subject.allWarnings.request false).text = "Wno-all" := by decide
  rw [on_eq] at on_iff
  rw [off_eq] at off_iff
  rw [isAllFlag, Subject.asked?]
  by_cases isOn : Text.dropStart "-" flag = "Wall"
  · simp [isOn, on_iff.mpr isOn]
  · by_cases isOff : Text.dropStart "-" flag = "Wno-all"
    · simp [isOff, off_iff.mpr isOff, mt on_iff.mp isOn]
    · simp [isOn, isOff, mt on_iff.mp isOn, mt off_iff.mp isOff]

/-- A flag about all warnings is about no setting in particular. -/
theorem asked?_setting_of_isAllFlag (isAll : isAllFlag flag = true) (s : Setting) :
    Subject.asked? (.setting s) flag = none := by
  rw [isAllFlag_eq, Option.isSome_iff_exists] at isAll
  obtain ⟨b, asked⟩ := isAll
  exact Subject.asked?_eq_none_of_ne (Subject.request_of_asked? asked) nofun

theorem asked?_allWarnings_of_not (notAll : ¬ isAllFlag flag = true) :
    Subject.allWarnings.asked? flag = none := by
  simpa [isAllFlag_eq] using notAll

/-- In the first pass all warnings are treated alike. -/
theorem filterMap_effect?_warning (w : Warning) :
    (flags.filter isAllFlag).filterMap (Setting.warning w).effect? =
      flags.filterMap Subject.allWarnings.asked? := by
  rw [List.filterMap_filter]
  apply List.filterMap_congr
  intro flag _
  split
  · next isAll => simp [Setting.effect?, asked?_setting_of_isAllFlag isAll]
  · next notAll => exact (asked?_allWarnings_of_not notAll).symm

/-- In the first pass the features are left alone. -/
theorem filterMap_effect?_feature (f : Feature) :
    (flags.filter isAllFlag).filterMap (Setting.feature f).effect? = [] := by
  rw [List.filterMap_eq_nil_iff]
  intro flag isFirst
  exact asked?_setting_of_isAllFlag (List.mem_filter.mp isFirst).2 _

/-- In the second pass a flag is about its setting only. -/
theorem filterMap_effect?_secondPass (s : Setting) :
    (flags.filter fun flag => !isAllFlag flag).filterMap s.effect? =
      flags.filterMap (Subject.asked? (.setting s)) := by
  rw [List.filterMap_filter]
  apply List.filterMap_congr
  intro flag _
  split
  · next specific =>
    have notAll : ¬ isAllFlag flag = true := by simpa using specific
    cases s <;> simp [Setting.effect?, asked?_allWarnings_of_not notAll]
  · next isAll => exact (asked?_setting_of_isAllFlag (by simpa using isAll) s).symm

/-- **The last flag that names a setting decides its state.** For a warning that no flag names, it
is the last flag about all warnings. -/
theorem state_processFlags (grouped : ∀ flag ∈ flags, Grouped flag) (c : Config) (s : Setting) :
    s.state (c.processFlags flags).1 = (s.decided? flags).getD (s.state c) := by
  have groupedFirst : ∀ flag ∈ flags.filter isAllFlag, Grouped flag :=
    fun flag isFirst => grouped flag (List.mem_filter.mp isFirst).1
  have groupedSecond : ∀ flag ∈ flags.filter (fun flag => !isAllFlag flag), Grouped flag :=
    fun flag isSecond => grouped flag (List.mem_filter.mp isSecond).1
  rw [processFlags, state_applyFlags groupedSecond, state_applyFlags groupedFirst,
    filterMap_effect?_secondPass]
  cases s with
  | warning w =>
    rw [filterMap_effect?_warning]
    exact Option.getD_or.symm
  | feature f =>
    rw [filterMap_effect?_feature]
    rfl

/-- The flags that name no subject are given back, in the order of the list. -/
theorem processFlags_snd (grouped : ∀ flag ∈ flags, Grouped flag) (c : Config) :
    (c.processFlags flags).2 = flags.filter isUnknownFlag := by
  have groupedSecond : ∀ flag ∈ flags.filter (fun flag => !isAllFlag flag), Grouped flag :=
    fun flag isSecond => grouped flag (List.mem_filter.mp isSecond).1
  rw [processFlags, applyFlags_snd groupedSecond, List.filter_filter]
  apply List.filter_congr
  intro flag _
  cases unknown : isUnknownFlag flag with
  | false => rfl
  | true => simp [isAllFlag_eq, isUnknownFlag_iff.mp unknown]

theorem reswitched_processFlags (grouped : ∀ flag ∈ flags, Grouped flag) (c : Config) :
    Reswitched c (c.processFlags flags).1 :=
  (reswitched_applyFlags (fun flag isFirst => grouped flag (List.mem_filter.mp isFirst).1) c).trans
    (reswitched_applyFlags (fun flag isSecond => grouped flag (List.mem_filter.mp isSecond).1) _)

end TwoPasses

/-- **Flags take effect by name, whatever their order.** A warning has the state that the last flag
asks which names it, or else the last flag about all warnings, or else it is as before; a feature
has the state that the last flag asks which names it, or else it is as before. The flags that name
nothing known are given back in order, and nothing but the switches changes. -/
theorem processFlags_follows_last_flag (c : Config) (flags : List String)
    (grouped : ∀ flag ∈ flags, Grouped flag) :
    (∀ w, (c.processFlags flags).1.warning w =
        ((Subject.lastAsked? (.setting (.warning w)) flags).or
          (Subject.lastAsked? .allWarnings flags)).getD (c.warning w)) ∧
      (∀ f, (c.processFlags flags).1.feature f =
        (Subject.lastAsked? (.setting (.feature f)) flags).getD (c.feature f)) ∧
      (c.processFlags flags).2 = flags.filter isUnknownFlag ∧
      Reswitched c (c.processFlags flags).1 := by
  refine ⟨fun w => ?_, fun f => ?_, ?_, ?_⟩
  · exact state_processFlags grouped c (.warning w)
  · exact state_processFlags grouped c (.feature f)
  · exact processFlags_snd grouped c
  · exact reswitched_processFlags grouped c

/-- Flags in a bad order: one warning is named before all warnings are switched off, another one
twice, and two flags name nothing. -/
def scatteredFlags : List String :=
  ["-Wspill", "Wno-unresolved", "-Wno-all", "-Wbogus", "-Wunresolved", "Fall", "-Fno-validate"]

theorem processFlags_follows_last_flag_scattered :
    (∀ flag ∈ scatteredFlags, Grouped flag) ∧
      (∀ w, (processFlags {} scatteredFlags).1.warning w = decide (w = .spill ∨ w = .unresolved)) ∧
      (∀ f, (processFlags {} scatteredFlags).1.feature f = false) ∧
      (processFlags {} scatteredFlags).2 = ["-Wbogus", "Fall"] := by
  have grouped : ∀ flag ∈ scatteredFlags, Grouped flag := by
    simp only [scatteredFlags, List.forall_mem_cons]
    exact ⟨⟨true, "spill", .inr rfl⟩, ⟨true, "no-unresolved", .inl rfl⟩,
      ⟨true, "no-all", .inr rfl⟩, ⟨true, "bogus", .inr rfl⟩, ⟨true, "unresolved", .inr rfl⟩,
      ⟨false, "all", .inl rfl⟩, ⟨false, "no-validate", .inr rfl⟩, by simp⟩
  obtain ⟨warnings, features, unknown, -⟩ := processFlags_follows_last_flag {} scatteredFlags grouped
  refine ⟨grouped, fun w => ?_, fun f => ?_, ?_⟩
  · refine (warnings w).trans ?_
    cases w <;> decide
  · refine (features f).trans ?_
    cases f <;> decide
  · refine unknown.trans ?_
    decide

end Config

end RiscBackend
