/-
# Short and long spellings

A flag can be spelled in two ways: two dashes, its name, an equals sign and a value, or one dash, its
shorthand and the value directly behind it. For a text, a number and a list the two spellings do the
same. A shorthand never gives a switch a value: it turns the switch on and drops what stands behind
it, so the spellings of a switch agree exactly for the values that turn it on.
-/

import RiscBackend.Proofs.Cli.Pieces

namespace RiscBackend.Cli.FlagSet

/-- The flag sets of a program: flags and groups of flags are defined, and command lines are read. -/
inductive Built : FlagSet → Prop
  | empty : Built {}
  | define {fs fs' : FlagSet} {flag : Flag} (built : Built fs)
      (defined : fs.define flag = (fs', none)) : Built fs'
  | addGroup {fs fs' : FlagSet} {group : Group} (built : Built fs)
      (added : fs.addGroup group = (fs', none)) : Built fs'
  | parse {fs : FlagSet} (built : Built fs) (arguments : List String) :
      Built (fs.parse arguments).1

/-- No flag is without a name, and a shorthand stands for the flag that has it. -/
structure Orderly (fs : FlagSet) : Prop where
  nameless : fs.find? "" = none
  short : ∀ name flag, fs.find? name = some flag → flag.shorthand ≠ "" →
    fs.shorthands.lookup flag.shorthand = some name

section Definition

variable {fs fs' : FlagSet} {flag : Flag}

/-- What defining a flag comes to if it succeeds. -/
theorem define_cases (defined : fs.define flag = (fs', none)) :
    flag.name ≠ "" ∧ fs'.flags = fs.flags ++ [flag] ∧
      (flag.shorthand = "" ∧ fs'.shorthands = fs.shorthands ∨
        fs.shorthands.lookup flag.shorthand = none ∧
          fs'.shorthands = (flag.shorthand, flag.name) :: fs.shorthands) := by
  rw [define] at defined
  split at defined
  · cases defined
  · next new =>
    have named : flag.name ≠ "" := by
      intro isEmpty
      simp [isEmpty] at new
    dsimp only at defined
    split at defined
    · next unshort =>
      cases defined
      exact ⟨named, rfl, .inl ⟨unshort, rfl⟩⟩
    · split at defined
      · cases defined
      · next untaken =>
        cases defined
        exact ⟨named, rfl, .inr ⟨Option.not_isSome_iff_eq_none.mp untaken, rfl⟩⟩

theorem orderly_define (orderly : fs.Orderly) (defined : fs.define flag = (fs', none)) :
    fs'.Orderly := by
  obtain ⟨named, flags_eq, shorthands_eq⟩ := define_cases defined
  have find?_eq (name : String) :
      fs'.find? name = (fs.find? name).or (if flag.name = name then some flag else none) := by
    rw [find?, flags_eq, List.find?_append, find?]
    by_cases isName : flag.name = name <;> simp [isName]
  constructor
  · rw [find?_eq, orderly.nameless, if_neg named]
    rfl
  · intro name found isFound short
    rw [find?_eq] at isFound
    rcases Option.or_eq_some_iff.mp isFound with old | ⟨-, new⟩
    · have known := orderly.short name found old short
      rcases shorthands_eq with ⟨-, same⟩ | ⟨untaken, extended⟩
      · rw [same, known]
      · have ne : found.shorthand ≠ flag.shorthand := by
          intro same
          rw [same, untaken] at known
          cases known
        rw [extended, List.lookup_cons, beq_false_of_ne ne]
        exact known
    · split at new
      · next isName =>
        cases new
        rcases shorthands_eq with ⟨unshort, -⟩ | ⟨-, extended⟩
        · exact absurd unshort short
        · rw [extended, List.lookup_cons_self, isName]
      · cases new

/-- What every definition keeps, definitions in a row keep. -/
theorem kept_of_defineAll {kept : FlagSet → Prop} {flags : List Flag}
    (keeps : ∀ {fs fs' flag}, kept fs → fs.define flag = (fs', none) → kept fs') (start : kept fs)
    (defined : fs.defineAll flags = (fs', none)) : kept fs' := by
  induction flags generalizing fs with
  | nil =>
    cases defined
    exact start
  | cons flag rest ih =>
    rw [defineAll] at defined
    split at defined
    · next first => exact ih (keeps start first) defined
    · next failed => exact absurd defined (failed fs')

theorem orderly_defineAll {flags : List Flag} (orderly : fs.Orderly)
    (defined : fs.defineAll flags = (fs', none)) : fs'.Orderly :=
  kept_of_defineAll orderly_define orderly defined

theorem Built.defineAll {flags : List Flag} (built : fs.Built)
    (defined : fs.defineAll flags = (fs', none)) : fs'.Built :=
  kept_of_defineAll .define built defined

theorem Orderly.of_alike (orderly : fs.Orderly) (alike : fs.Alike fs') : fs'.Orderly where
  nameless := by
    have same := alike.found ""
    rwa [orderly.nameless, Option.map_none, Option.map_eq_none_iff] at same
  short name flag found short := by
    have same := alike.found name
    rw [found, Option.map_some] at same
    obtain ⟨before, foundBefore, signature_eq⟩ := Option.map_eq_some_iff.mp same.symm
    have shorthand_eq : before.shorthand = flag.shorthand :=
      congrArg (fun signature => signature.2.1) signature_eq
    rw [alike.shorthands, ← shorthand_eq]
    exact orderly.short name before foundBefore (by rwa [shorthand_eq])

/-- Reading a command line, accepted or not, changes the values of flags only. -/
theorem alike_parseFrom (fs : FlagSet) (arguments : List String) :
    fs.Alike (fs.parseFrom arguments).1 := by
  fun_induction parseFrom fs arguments with
  | case1 fs => exact .refl fs
  | case2 fs rest => exact alike_args fs _
  | case3 fs arg rest _ _ ih => exact (alike_args fs _).trans ih
  | case4 fs => exact .refl fs
  | case5 fs => exact .refl fs
  | case6 fs arg rest _ _ flag value matched text _ new set_eq ih =>
    exact (alike_update (find?_of_match? matched) set_eq).trans ih
  | case7 fs => exact .refl fs
  | case8 fs => exact .refl fs
  | case9 fs arg _ _ flag value matched _ text rest new set_eq ih =>
    exact (alike_update (find?_of_match? matched) set_eq).trans ih

theorem Built.orderly (built : fs.Built) : fs.Orderly := by
  induction built with
  | empty => exact ⟨rfl, fun _ _ found => by cases found⟩
  | define _ defined ih => exact orderly_define ih defined
  | addGroup _ added ih =>
    rw [FlagSet.addGroup] at added
    split at added
    · next defined =>
      cases added
      have orderly := orderly_defineAll ih defined
      exact ⟨orderly.nameless, orderly.short⟩
    · next failed => exact absurd added (failed _)
  | parse _ arguments ih =>
    exact ih.of_alike ((alike_args _ []).trans (alike_parseFrom _ arguments))

end Definition

section Spelling

variable {fs : FlagSet} {name : String} {flag : Flag} {x : Char} {v : String}

/-- A flag with its value behind the shorthand. -/
def shortSpelling (x : Char) (v : String) : String :=
  "-" ++ x.toString ++ v

/-- A flag with its value behind the long name. -/
def longSpelling (name v : String) : String :=
  "--" ++ name ++ "=" ++ v

theorem toList_shortSpelling (x : Char) (v : String) :
    (shortSpelling x v).toList = '-' :: x :: v.toList := by
  simp [shortSpelling]

theorem toList_longSpelling (name v : String) :
    (longSpelling name v).toList = '-' :: '-' :: (name ++ "=" ++ v).toList := by
  simp [longSpelling]

theorem isFlag_of_toList {arg : String} {c : Char} {rest : List Char}
    (spelled : arg.toList = '-' :: c :: rest) (notEnd : c :: rest ≠ ['-']) : IsFlag arg := by
  refine ⟨?_, by simp [isPositional, spelled]⟩
  rintro rfl
  exact notEnd (List.cons.inj spelled).2.symm

/-- The long spelling names the flag and gives it the value. -/
theorem longMatch?_longSpelling (long : IsLong name) (found : fs.find? name = some flag)
    (v : String) : fs.longMatch? (longSpelling name v) = some (flag, some v) := by
  obtain ⟨c, rest, name_eq⟩ := List.exists_cons_of_ne_nil long.nonempty
  have notDash : c ≠ '-' := fun isDash => long.undashed (by rw [name_eq, isDash, List.head?_cons])
  have chars : (longSpelling name v).toList.dropWhile (· = '-') = (name ++ "=" ++ v).toList := by
    simp [toList_longSpelling, name_eq, notDash]
  have parts : Text.cut '=' (name ++ "=" ++ v) = (name, some v) :=
    Text.cut_append long.unvalued v
  rw [longMatch?, chars, String.ofList_toList, parts]
  simp [found]

/-- Behind one dash stands no long name, unless the shorthand and the value make one up. -/
theorem longMatch?_shortSpelling (nameless : fs.find? "" = none) (notDash : x ≠ '-')
    (notLong : fs.find? (x.toString ++ (Text.cut '=' v).1) = none) :
    fs.longMatch? (shortSpelling x v) = none := by
  have chars : (shortSpelling x v).toList.dropWhile (· = '-') = x :: v.toList := by
    simp [toList_shortSpelling, notDash]
  rw [longMatch?, chars, Option.map_eq_none_iff]
  by_cases isEquals : x = '='
  · rw [isEquals, Text.cut_separator_fst, nameless]
  · rw [Text.cut_cons_fst isEquals, notLong]

/-- The shorthand names the flag. What is behind it is the value, except for a switch. -/
theorem shortMatch?_shortSpelling (found : fs.find? name = some flag)
    (short : fs.shorthands.lookup x.toString = some name) (ascii : x.toNat < 0x80)
    (notDash : x ≠ '-') (nonempty : v ≠ "") :
    fs.shortMatch? (shortSpelling x v) =
      some (flag, some (if flag.value.isSwitch then "" else v)) := by
  have isShort : (x = '-' || 0x80 ≤ x.toNat) = false := by simp [notDash, ascii]
  have hasValue : v.toList.isEmpty = false := by simpa using nonempty
  simp only [shortMatch?, toList_shortSpelling, isShort, short, Option.bind_some, found, hasValue,
    String.ofList_toList]
  cases isSwitch : flag.value.isSwitch <;> simp [isSwitch]

theorem request?_of_match? {arg text : String} (found : fs.find? name = some flag)
    (matched : fs.match? arg = some (flag, some text)) :
    fs.request? arg = some (name, some text) := by
  rw [request?, matched, Option.map_some, asked, name_of_find? found, Option.some_or]

/-- What both spellings come to: a flag is given a text, and nothing else happens. -/
theorem parse_of_match? {arg text : String} (found : fs.find? name = some flag) (isFlag : IsFlag arg)
    (matched : fs.match? arg = some (flag, some text)) :
    fs.parse [arg] = { fs with args := [] }.give flag text [] := by
  have asks : { fs with args := [] }.request? arg = some (name, some text) :=
    request?_of_match? found matched
  exact parseFrom_flag isFlag asks found []

theorem parse_longSpelling (long : IsLong name) (found : fs.find? name = some flag) (v : String) :
    fs.parse [longSpelling name v] = { fs with args := [] }.give flag v [] := by
  have isFlag : IsFlag (longSpelling name v) :=
    isFlag_of_toList (toList_longSpelling name v) (by simp)
  refine parse_of_match? found isFlag ?_
  rw [match?, longMatch?_longSpelling long found, Option.some_or]

theorem parse_shortSpelling (orderly : fs.Orderly) (found : fs.find? name = some flag)
    (short : flag.shorthand = x.toString) (ascii : x.toNat < 0x80) (notDash : x ≠ '-')
    (nonempty : v ≠ "") (notLong : fs.find? (x.toString ++ (Text.cut '=' v).1) = none) :
    fs.parse [shortSpelling x v] =
      { fs with args := [] }.give flag (if flag.value.isSwitch then "" else v) [] := by
  have isFlag : IsFlag (shortSpelling x v) :=
    isFlag_of_toList (toList_shortSpelling x v) (by simp [notDash])
  have known : fs.shorthands.lookup x.toString = some name := by
    rw [← short]
    exact orderly.short name flag found (by simp [short])
  refine parse_of_match? found isFlag ?_
  rw [match?, longMatch?_shortSpelling orderly.nameless notDash notLong, Option.none_or,
    shortMatch?_shortSpelling found known ascii notDash nonempty]

/-- A flag that refuses a text leaves the flags as they are. -/
theorem flags_give_nil (fs : FlagSet) (flag : Flag) (text : String)
    (refused : (fs.give flag text []).2 ≠ none) : (fs.give flag text []).1.flags = fs.flags := by
  unfold give at refused ⊢
  split at refused
  · rfl
  · exact absurd rfl refused

theorem give_switch_empty {b : Bool} (isSwitch : flag.value = .switch b) :
    fs.give flag "" [] = (fs.update { flag with value := .switch true }, none) := by
  simp [give, Flag.set, isSwitch, parseFrom]

/-- The text of a switch agrees with no text at all exactly if it reads as true. -/
theorem give_switch_eq_iff {b : Bool} (isSwitch : flag.value = .switch b)
    (found : fs.find? name = some flag) (nonempty : v ≠ "") :
    fs.give flag "" [] = fs.give flag v [] ↔ Text.readBool v = some true := by
  rw [give_switch_empty isSwitch]
  cases read : Text.readBool v with
  | none => simp [give, Flag.set, isSwitch, nonempty, read]
  | some c =>
    have given : fs.give flag v [] = (fs.update { flag with value := .switch c }, none) := by
      simp [give, Flag.set, isSwitch, nonempty, read, parseFrom]
    have isNamed : flag.name = name := name_of_find? found
    have updated (d : Bool) : (fs.update { flag with value := .switch d }).find? name =
        some { flag with value := .switch d } :=
      find?_update_self found isNamed
    rw [given]
    constructor
    · intro same
      have found_eq := updated true
      rw [(Prod.mk.inj same).1, updated c] at found_eq
      simpa using found_eq
    · intro isTrue
      cases isTrue
      rfl

/-- **Short and long spellings agree, except for switches.** A value behind the shorthand of a flag
that is not a switch does exactly what it does behind the long name and the equals sign; if it is
refused, no flag changes. The shorthand of a switch turns the switch on, whatever stands behind it,
and that is what the long spelling does exactly for a value that reads as true. -/
theorem spellings_agree_unless_switch (built : fs.Built) (found : fs.find? name = some flag)
    (unvalued : '=' ∉ name.toList) (undashed : name.toList.head? ≠ some '-')
    (short : flag.shorthand = x.toString) (ascii : x.toNat < 0x80) (notDash : x ≠ '-')
    (nonempty : v ≠ "") (notLong : fs.find? (x.toString ++ (Text.cut '=' v).1) = none) :
    (flag.value.isSwitch = false →
      fs.parse [shortSpelling x v] = fs.parse [longSpelling name v] ∧
        ((fs.parse [longSpelling name v]).2 ≠ none →
          (fs.parse [longSpelling name v]).1.flags = fs.flags)) ∧
      (flag.value.isSwitch = true →
        fs.parse [shortSpelling x v] =
            ({ fs with args := [] }.update { flag with value := .switch true }, none) ∧
          (fs.parse [shortSpelling x v] = fs.parse [longSpelling name v] ↔
            Text.readBool v = some true)) := by
  have orderly := built.orderly
  have named : name.toList ≠ [] := by
    intro isEmpty
    rw [String.toList_eq_nil_iff.mp isEmpty, orderly.nameless] at found
    cases found
  have long : IsLong name := ⟨named, undashed, unvalued⟩
  rw [parse_longSpelling long found, parse_shortSpelling orderly found short ascii notDash nonempty
    notLong]
  constructor
  · intro notSwitch
    rw [notSwitch]
    exact ⟨rfl, flags_give_nil _ flag v⟩
  · intro isSwitch
    rw [isSwitch]
    cases value_eq : flag.value with
    | switch b => exact ⟨give_switch_empty value_eq, give_switch_eq_iff value_eq found nonempty⟩
    | _ =>
      rw [value_eq] at isSwitch
      cases isSwitch

/-- A number and a switch, each with a shorthand. -/
def tunedFlags : FlagSet :=
  (({} : FlagSet).defineAll
    [.ofDefault "frame-size" "f" "" "bytes" (.number 1024),
      .ofDefault "dump-ir" "d" "" "" (.switch false)]).1

theorem built_tunedFlags : tunedFlags.Built :=
  Built.empty.defineAll (Prod.ext rfl (by decide +kernel))

/-- The value of the number may itself start with an equals sign, and is refused then. -/
theorem spellings_agree_unless_switch_tuned :
    tunedFlags.parse [shortSpelling 'f' "64"] = tunedFlags.parse [longSpelling "frame-size" "64"] ∧
      tunedFlags.parse [shortSpelling 'f' "=64"] =
        tunedFlags.parse [longSpelling "frame-size" "=64"] ∧
      (tunedFlags.parse [longSpelling "frame-size" "=64"]).1.flags = tunedFlags.flags ∧
      tunedFlags.parse [shortSpelling 'd' "no"] ≠ tunedFlags.parse [longSpelling "dump-ir" "no"] := by
  have number : tunedFlags.find? "frame-size" =
      some (.ofDefault "frame-size" "f" "" "bytes" (.number 1024)) := by decide +kernel
  have switch : tunedFlags.find? "dump-ir" =
      some (.ofDefault "dump-ir" "d" "" "" (.switch false)) := by decide +kernel
  have plain := (spellings_agree_unless_switch (x := 'f') (v := "64") built_tunedFlags number
    (by decide) (by decide) rfl (by decide) (by decide) (by decide) (by decide +kernel)).1 rfl
  have refused := (spellings_agree_unless_switch (x := 'f') (v := "=64") built_tunedFlags number
    (by decide) (by decide) rfl (by decide) (by decide) (by decide) (by decide +kernel)).1 rfl
  have dropped := (spellings_agree_unless_switch (x := 'd') (v := "no") built_tunedFlags switch
    (by decide) (by decide) rfl (by decide) (by decide) (by decide) (by decide +kernel)).2 rfl
  exact ⟨plain.1, refused.1, refused.2 (by decide +kernel),
    fun same => absurd (dropped.2.mp same) (by decide +kernel)⟩

/-- The shorthand of a switch turns it on where the long spelling of the same value turns it off. -/
theorem attached_value_of_switch_is_dropped :
    tunedFlags.Built ∧ tunedFlags.find? "dfalse" = none ∧
      (tunedFlags.find? "dump-ir").map Flag.signature = some ("dump-ir", "d", true) ∧
      (tunedFlags.parse [shortSpelling 'd' "false"]).2 = none ∧
      (tunedFlags.parse [longSpelling "dump-ir" "false"]).2 = none ∧
      (tunedFlags.parse [shortSpelling 'd' "false"]).1.isOn "dump-ir" = true ∧
      (tunedFlags.parse [longSpelling "dump-ir" "false"]).1.isOn "dump-ir" = false := by
  refine ⟨built_tunedFlags, ?_⟩
  decide +kernel

end Spelling

end RiscBackend.Cli.FlagSet
