/-
# Pieces of a command line

A command line is read piece by piece: an argument that is kept, a flag that is complete in itself,
a flag with the argument after it as its value, or two dashes with everything that follows. Which of
these comes next depends on the spelling of the argument and on the names, shorthands and kinds of
the flags. Reading a piece changes none of them: it gives one flag a value, or keeps arguments.
-/

import RiscBackend.Proofs.Cli.Switches

namespace RiscBackend.Cli

/-- What reading a command line does not change about a flag. -/
def Flag.signature (flag : Flag) : String × String × Bool :=
  (flag.name, flag.shorthand, flag.value.isSwitch)

theorem Flag.signature_of_set {flag new : Flag} {text : String} (set_eq : flag.set text = .ok new) :
    new.signature = flag.signature := by
  unfold Flag.set at set_eq
  split at set_eq
  case h_1 value_eq | h_4 value_eq =>
    cases set_eq
    simp [signature, value_eq, FlagValue.isSwitch]
  case h_2 value_eq =>
    split at set_eq
    · cases set_eq
      simp [signature, value_eq, FlagValue.isSwitch]
    · split at set_eq
      · cases set_eq
        simp [signature, value_eq, FlagValue.isSwitch]
      · cases set_eq
  case h_3 value_eq =>
    split at set_eq
    · cases set_eq
      simp [signature, value_eq, FlagValue.isSwitch]
    · cases set_eq

namespace FlagSet

/-- The flag sets that differ from a given one in the values of the flags and in the arguments
only. -/
structure Alike (fs fs' : FlagSet) : Prop where
  shorthands : fs'.shorthands = fs.shorthands
  groups : fs'.groups = fs.groups
  found : ∀ name, (fs'.find? name).map Flag.signature = (fs.find? name).map Flag.signature

theorem Alike.refl (fs : FlagSet) : fs.Alike fs :=
  ⟨rfl, rfl, fun _ => rfl⟩

theorem Alike.trans {fs fs₁ fs₂ : FlagSet} (first : fs.Alike fs₁) (second : fs₁.Alike fs₂) :
    fs.Alike fs₂ where
  shorthands := second.shorthands.trans first.shorthands
  groups := second.groups.trans first.groups
  found name := (second.found name).trans (first.found name)

theorem alike_args (fs : FlagSet) (args : List String) : fs.Alike { fs with args } :=
  ⟨rfl, rfl, fun _ => rfl⟩

theorem alike_update {fs : FlagSet} {flag new : Flag} {text : String}
    (found : fs.find? flag.name = some flag) (set_eq : flag.set text = .ok new) :
    fs.Alike (fs.update new) where
  shorthands := rfl
  groups := rfl
  found name := by
    have same := Flag.signature_of_set set_eq
    have isNamed : new.name = flag.name := congrArg Prod.fst same
    by_cases isName : flag.name = name
    · subst isName
      rw [find?_update_self found isNamed, found, Option.map_some, Option.map_some, same]
    · rw [find?_update_of_ne (by rwa [isNamed])]

/-- What a flag is asked to take: its name, and the text for it unless that is the next argument. -/
def asked (flag : Flag) (value : Option String) : String × Option String :=
  (flag.name, value.or (if flag.value.isSwitch then some "" else none))

/-- What an argument asks for, if it names a flag. -/
def request? (fs : FlagSet) (arg : String) : Option (String × Option String) :=
  (fs.match? arg).map fun named => asked named.1 named.2

section Request

variable {fs fs' : FlagSet} {arg : String} {flag : Flag} {value : Option String}

theorem find?_of_longMatch? (matched : fs.longMatch? arg = some (flag, value)) :
    fs.find? flag.name = some flag := by
  obtain ⟨found, isFound, pair_eq⟩ := Option.map_eq_some_iff.mp matched
  cases pair_eq
  rw [name_of_find? isFound, isFound]

theorem find?_of_shortMatch? (matched : fs.shortMatch? arg = some (flag, value)) :
    fs.find? flag.name = some flag := by
  rw [shortMatch?] at matched
  split at matched
  · split at matched
    · cases matched
    · obtain ⟨found, isFound, pair_eq⟩ := Option.map_eq_some_iff.mp matched
      obtain ⟨name, -, isNamed⟩ := Option.bind_eq_some_iff.mp isFound
      have same : found = flag := by split at pair_eq <;> cases pair_eq <;> rfl
      rw [← same, name_of_find? isNamed, isNamed]
  · cases matched

/-- An argument names a flag of the set. -/
theorem find?_of_match? (matched : fs.match? arg = some (flag, value)) :
    fs.find? flag.name = some flag := by
  rcases Option.or_eq_some_iff.mp matched with long | ⟨-, short⟩
  · exact find?_of_longMatch? long
  · exact find?_of_shortMatch? short

theorem Alike.map_find? {β : Type} {f : Flag → β} (alike : fs.Alike fs')
    (respects : ∀ a b : Flag, a.signature = b.signature → f a = f b) (name : String) :
    (fs'.find? name).map f = (fs.find? name).map f := by
  have same := alike.found name
  cases found : fs.find? name with
  | none =>
    rw [found, Option.map_none, Option.map_eq_none_iff] at same
    rw [same, Option.map_none]
  | some flag =>
    rw [found, Option.map_some] at same
    obtain ⟨flag', found', signature_eq⟩ := Option.map_eq_some_iff.mp same
    rw [found', Option.map_some, Option.map_some, respects flag' flag signature_eq]

theorem asked_of_signature (a b : Flag) (same : a.signature = b.signature) :
    asked a value = asked b value := by
  simp only [Flag.signature, Prod.mk.injEq] at same
  rw [asked, asked, same.1, same.2.2]

theorem Alike.map_longMatch? (alike : fs.Alike fs') (arg : String) :
    (fs'.longMatch? arg).map (fun named => asked named.1 named.2) =
      (fs.longMatch? arg).map fun named => asked named.1 named.2 := by
  rw [longMatch?, longMatch?, Option.map_map, Option.map_map]
  exact alike.map_find? (fun a b same => asked_of_signature a b same) _

theorem Alike.map_shortMatch? (alike : fs.Alike fs') (arg : String) :
    (fs'.shortMatch? arg).map (fun named => asked named.1 named.2) =
      (fs.shortMatch? arg).map fun named => asked named.1 named.2 := by
  unfold shortMatch?
  rw [alike.shorthands]
  split
  · next c rest _ =>
    split
    · rfl
    · rw [Option.map_map, Option.map_map]
      cases fs.shorthands.lookup c.toString with
      | none => rfl
      | some name =>
        refine alike.map_find? (fun a b same => ?_) name
        have isSwitch_eq : a.value.isSwitch = b.value.isSwitch := by
          simp only [Flag.signature, Prod.mk.injEq] at same
          exact same.2.2
        simp only [Function.comp_apply, isSwitch_eq]
        split <;> exact asked_of_signature a b same
  · rfl

/-- What an argument asks for depends on the names, shorthands and kinds of the flags only. -/
theorem Alike.request?_eq (alike : fs.Alike fs') (arg : String) :
    fs'.request? arg = fs.request? arg := by
  rw [request?, request?, match?, match?, Option.map_or, Option.map_or, alike.map_longMatch?,
    alike.map_shortMatch?]

theorem exists_of_request? {name : String} {text? : Option String}
    (asks : fs.request? arg = some (name, text?)) : ∃ flag, fs.find? name = some flag := by
  obtain ⟨⟨flag, value⟩, matched, asked_eq⟩ := Option.map_eq_some_iff.mp asks
  cases asked_eq
  exact ⟨flag, find?_of_match? matched⟩

theorem match?_of_request? {name : String} {text? : Option String}
    (asks : fs.request? arg = some (name, text?)) (found : fs.find? name = some flag) :
    ∃ value, fs.match? arg = some (flag, value) ∧
      value.or (if flag.value.isSwitch then some "" else none) = text? := by
  obtain ⟨⟨named, value⟩, matched, asked_eq⟩ := Option.map_eq_some_iff.mp asks
  obtain ⟨name_eq, text_eq⟩ := Prod.mk.inj asked_eq
  have foundToo := find?_of_match? matched
  rw [name_eq, found] at foundToo
  cases foundToo
  exact ⟨value, matched, text_eq⟩

end Request

/-- A piece of a command line. -/
inductive Piece where
  /-- An argument that is kept. -/
  | kept (arg : String)
  /-- An argument that gives the flag of a name a text. -/
  | flag (arg name text : String)
  /-- An argument that gives the flag of a name the argument after it. -/
  | flagWith (arg name value : String)
  /-- Two dashes and the arguments after them. -/
  | ending (args : List String)

namespace Piece

/-- The arguments that make up a piece. -/
def words : Piece → List String
  | kept arg => [arg]
  | flag arg _ _ => [arg]
  | flagWith arg _ value => [arg, value]
  | ending args => "--" :: args

/-- The arguments of a piece that are kept. -/
def keeps : Piece → List String
  | kept arg => [arg]
  | flag .. => []
  | flagWith .. => []
  | ending args => args

/-- The texts that a piece gives to the flag of a name. -/
def gives (name : String) : Piece → List String
  | kept _ => []
  | flag _ other text => if other = name then [text] else []
  | flagWith _ other value => if other = name then [value] else []
  | ending _ => []

/-- Whether a piece ends the flags. -/
def IsEnding (piece : Piece) : Prop :=
  ∃ args, piece = ending args

end Piece

/-- An argument that is neither kept nor two dashes. -/
def IsFlag (arg : String) : Prop :=
  arg ≠ "--" ∧ isPositional arg = false

/-- A piece is read: its argument has the right spelling, and what it asks for is done. -/
inductive Reads (fs : FlagSet) : Piece → FlagSet → Prop
  | kept {arg : String} (notEnd : arg ≠ "--") (isPositional : isPositional arg = true) :
      Reads fs (.kept arg) { fs with args := fs.args ++ [arg] }
  | flag {arg name text : String} {flag new : Flag} (isFlag : IsFlag arg)
      (asks : fs.request? arg = some (name, some text)) (found : fs.find? name = some flag)
      (set_eq : flag.set text = .ok new) : Reads fs (.flag arg name text) (fs.update new)
  | flagWith {arg name value : String} {flag new : Flag} (isFlag : IsFlag arg)
      (asks : fs.request? arg = some (name, none)) (found : fs.find? name = some flag)
      (set_eq : flag.set value = .ok new) : Reads fs (.flagWith arg name value) (fs.update new)
  | ending (args : List String) : Reads fs (.ending args) { fs with args := fs.args ++ args }

section Steps

variable {fs fs' fs₁ : FlagSet} {arg name text : String} {flag : Flag} {rest : List String}

theorem parseFrom_end (fs : FlagSet) (rest : List String) :
    fs.parseFrom ("--" :: rest) = ({ fs with args := fs.args ++ rest }, none) := by
  rw [parseFrom, if_pos rfl]

theorem parseFrom_kept (notEnd : arg ≠ "--") (isPositional : isPositional arg = true)
    (rest : List String) :
    fs.parseFrom (arg :: rest) = { fs with args := fs.args ++ [arg] }.parseFrom rest := by
  rw [parseFrom, if_neg notEnd, if_pos isPositional]

/-- Give a flag a text and read on. -/
def give (fs : FlagSet) (flag : Flag) (text : String) (rest : List String) :
    FlagSet × Option ParseFault :=
  match flag.set text with
  | .error fault => (fs, some fault)
  | .ok new => (fs.update new).parseFrom rest

theorem give_eq_none (given : fs.give flag text rest = (fs', none)) :
    ∃ new, flag.set text = .ok new ∧ (fs.update new).parseFrom rest = (fs', none) := by
  rw [give] at given
  split at given
  · cases given
  · next new set_eq => exact ⟨new, set_eq, given⟩

/-- What an argument asks for is done with the text that it brings or with the argument after it. -/
theorem parseFrom_of_request? {text? : Option String} (isFlag : IsFlag arg)
    (asks : fs.request? arg = some (name, text?)) (found : fs.find? name = some flag)
    (rest : List String) :
    fs.parseFrom (arg :: rest) =
      match text?, rest with
      | some text, rest => fs.give flag text rest
      | none, text :: later => fs.give flag text later
      | none, [] => (fs, some (.needsArgument arg)) := by
  obtain ⟨value, matched, text_eq⟩ := match?_of_request? asks found
  rw [parseFrom, if_neg isFlag.1, isFlag.2]
  simp only [Bool.false_eq_true, if_false, matched, text_eq]
  cases text? with
  | some text => rfl
  | none => cases rest <;> rfl

theorem parseFrom_flag (isFlag : IsFlag arg) (asks : fs.request? arg = some (name, some text))
    (found : fs.find? name = some flag) (rest : List String) :
    fs.parseFrom (arg :: rest) = fs.give flag text rest :=
  parseFrom_of_request? isFlag asks found rest

theorem parseFrom_flagWith (isFlag : IsFlag arg) (asks : fs.request? arg = some (name, none))
    (found : fs.find? name = some flag) (text : String) (rest : List String) :
    fs.parseFrom (arg :: text :: rest) = fs.give flag text rest :=
  parseFrom_of_request? isFlag asks found (text :: rest)

theorem parseFrom_wanting (isFlag : IsFlag arg) (asks : fs.request? arg = some (name, none)) :
    fs.parseFrom [arg] = (fs, some (.needsArgument arg)) := by
  obtain ⟨flag, found⟩ := exists_of_request? asks
  exact parseFrom_of_request? isFlag asks found []

theorem parseFrom_unknown (isFlag : IsFlag arg) (unknown : fs.request? arg = none)
    (rest : List String) :
    fs.parseFrom (arg :: rest) = (fs, some (.unknownFlag arg)) := by
  rw [parseFrom, if_neg isFlag.1, isFlag.2]
  simp only [Bool.false_eq_true, if_false, Option.map_eq_none_iff.mp unknown]

/-- After a piece, reading goes on with what follows it. -/
theorem Reads.parseFrom_eq {piece : Piece} (reads : fs.Reads piece fs₁) {rest : List String}
    (last : piece.IsEnding → rest = []) :
    fs.parseFrom (piece.words ++ rest) = fs₁.parseFrom rest := by
  cases reads with
  | kept notEnd isPositional => exact parseFrom_kept notEnd isPositional rest
  | flag isFlag asks found set_eq =>
    rw [Piece.words, List.singleton_append, parseFrom_flag isFlag asks found, give, set_eq]
  | flagWith isFlag asks found set_eq =>
    rw [Piece.words, List.cons_append, List.singleton_append,
      parseFrom_flagWith isFlag asks found, give, set_eq]
  | ending args =>
    cases last ⟨args, rfl⟩
    rw [List.append_nil, Piece.words, parseFrom_end, parseFrom]

/-- The first argument of a line that is accepted starts a piece. -/
theorem exists_reads (parsed : fs.parseFrom (arg :: rest) = (fs', none)) :
    ∃ piece later fs₁, arg :: rest = piece.words ++ later ∧ fs.Reads piece fs₁ ∧
      (piece.IsEnding → later = []) ∧ fs₁.parseFrom later = (fs', none) := by
  by_cases isEnd : arg = "--"
  · subst isEnd
    rw [parseFrom_end] at parsed
    cases parsed
    exact ⟨.ending rest, [], _, (List.append_nil _).symm, .ending rest, fun _ => rfl, rfl⟩
  cases isPositional : isPositional arg with
  | true =>
    rw [parseFrom_kept isEnd isPositional] at parsed
    refine ⟨.kept arg, rest, _, rfl, .kept isEnd isPositional, ?_, parsed⟩
    rintro ⟨args, impossible⟩
    cases impossible
  | false =>
    have isFlag : IsFlag arg := ⟨isEnd, isPositional⟩
    rcases asks : fs.request? arg with _ | ⟨name, _ | text⟩
    · rw [parseFrom_unknown isFlag asks] at parsed
      cases parsed
    · obtain ⟨flag, found⟩ := exists_of_request? asks
      cases rest with
      | nil =>
        rw [parseFrom_wanting isFlag asks] at parsed
        cases parsed
      | cons value later =>
        rw [parseFrom_flagWith isFlag asks found] at parsed
        obtain ⟨new, set_eq, parsed⟩ := give_eq_none parsed
        refine ⟨.flagWith arg name value, later, _, rfl, .flagWith isFlag asks found set_eq, ?_,
          parsed⟩
        rintro ⟨args, impossible⟩
        cases impossible
    · obtain ⟨flag, found⟩ := exists_of_request? asks
      rw [parseFrom_flag isFlag asks found] at parsed
      obtain ⟨new, set_eq, parsed⟩ := give_eq_none parsed
      refine ⟨.flag arg name text, rest, _, rfl, .flag isFlag asks found set_eq, ?_, parsed⟩
      rintro ⟨args, impossible⟩
      cases impossible

end Steps

section Effects

variable {fs fs' fs₁ : FlagSet} {piece : Piece}

theorem Reads.alike (reads : fs.Reads piece fs₁) : fs.Alike fs₁ := by
  cases reads with
  | kept => exact alike_args fs _
  | flag _ _ found set_eq =>
    exact alike_update (by rwa [name_of_find? found]) set_eq
  | flagWith _ _ found set_eq =>
    exact alike_update (by rwa [name_of_find? found]) set_eq
  | ending => exact alike_args fs _

theorem Reads.args_eq (reads : fs.Reads piece fs₁) :
    fs₁.args = fs.args ++ piece.keeps := by
  cases reads with
  | kept => rfl
  | flag => exact (List.append_nil _).symm
  | flagWith => exact (List.append_nil _).symm
  | ending => rfl

/-- A flag that is found has been given the texts of the piece. -/
theorem Reads.found (reads : fs.Reads piece fs₁) {name : String} {flag : Flag}
    (found : fs.find? name = some flag) :
    ∃ flag₁, (piece.gives name).foldlM Flag.set flag = .ok flag₁ ∧
      fs₁.find? name = some flag₁ := by
  have given {asked text : String} {old new : Flag} (isFound : fs.find? asked = some old)
      (set_eq : old.set text = .ok new) :
      ∃ flag₁, (if asked = name then [text] else []).foldlM Flag.set flag = .ok flag₁ ∧
        (fs.update new).find? name = some flag₁ := by
    have name_eq : new.name = asked :=
      (congrArg Prod.fst (Flag.signature_of_set set_eq)).trans (name_of_find? isFound)
    by_cases isName : asked = name
    · subst isName
      cases found.symm.trans isFound
      exact ⟨new, by simp [set_eq], find?_update_self found name_eq⟩
    · refine ⟨flag, by rw [if_neg isName]; rfl, ?_⟩
      rw [find?_update_of_ne (by rwa [name_eq]), found]
  cases reads with
  | kept => exact ⟨flag, rfl, found⟩
  | flag _ _ isFound set_eq => exact given isFound set_eq
  | flagWith _ _ isFound set_eq => exact given isFound set_eq
  | ending => exact ⟨flag, rfl, found⟩

/-- A piece is what it is taken for, by its spelling and the names and kinds of the flags. -/
def Fits (fs : FlagSet) : Piece → Prop
  | .kept arg => arg ≠ "--" ∧ isPositional arg = true
  | .flag arg name text => IsFlag arg ∧ fs.request? arg = some (name, some text)
  | .flagWith arg name _ => IsFlag arg ∧ fs.request? arg = some (name, none)
  | .ending _ => True

theorem Reads.fits (reads : fs.Reads piece fs₁) : fs.Fits piece := by
  cases reads with
  | kept notEnd isPositional => exact ⟨notEnd, isPositional⟩
  | flag isFlag asks => exact ⟨isFlag, asks⟩
  | flagWith isFlag asks => exact ⟨isFlag, asks⟩
  | ending => trivial

theorem Alike.fits_iff (alike : fs.Alike fs') (piece : Piece) : fs'.Fits piece ↔ fs.Fits piece := by
  cases piece <;> simp only [Fits, alike.request?_eq]

end Effects

end FlagSet

end RiscBackend.Cli
