/-
# Settings of a golden run

A golden run is set up by flags of its own: which files to test and to skip, how
to compile them, and whether to renew the expected assembly. A flag starts with
one or two dashes. A switch takes a value only after an equals sign, every other
flag also from the next argument. The first argument that is not a flag ends them.
-/

import RiscBackend.Config.Flags
import RiscBackend.Text.Blank
import RiscBackend.Text.Difference
import RiscBackend.Text.Numeral
import RiscBackend.Text.Quoted

namespace RiscBackend.Golden

/-- What a golden run is to do. -/
structure Settings where
  /-- Patterns of the files to test, separated by blanks. -/
  testFiles : String := "testdata/*.ll"
  /-- Names of files to skip, separated by blanks. -/
  skipFiles : String := ""
  /-- Where the report goes. -/
  output : String := ".test_results.json"
  /-- Warning and feature flags, separated by blanks. -/
  flags : String := ""
  /-- A pool of registers, separated by commas. -/
  registers : String := ""
  /-- The number of workers; at least one is used. -/
  jobs : Int := 4
  /-- Whether expected assembly is renewed instead of compared. -/
  update : Bool := false
  /-- Whether digests are shown. -/
  verbose : Bool := false
  /-- The path of the working directory from the root, if it is known. It is not a flag. -/
  home : Option String := none
  /-- How the difference from expected assembly is shown. It is not a flag. -/
  differ : Text.Differ := .marked

/-- Why settings are refused. -/
inductive SettingsFault where
  | syntaxError (arg : String)
  | undefined (name : String)
  | needsArgument (name : String)
  | badValue (name value : String)
  | badSwitch (name value : String)
  deriving DecidableEq, Repr

/-- The wording of a refusal. -/
def SettingsFault.message : SettingsFault → String
  | syntaxError arg => "bad flag syntax: " ++ arg
  | undefined name => "flag provided but not defined: -" ++ name
  | needsArgument name => "flag needs an argument: -" ++ name
  | badValue name value => "invalid value " ++ Text.quoted value ++ " for flag -" ++ name ++
      ": parse error"
  | badSwitch name value => "invalid boolean value " ++ Text.quoted value ++ " for -" ++ name ++
      ": parse error"

namespace Settings

/-- Whether a flag is a switch. -/
def isSwitch (name : String) : Bool :=
  name = "update" || name = "v"

/-- Give a flag a value. -/
def set (s : Settings) (name value : String) : Except SettingsFault Settings :=
  match name with
  | "test-files" => .ok { s with testFiles := value }
  | "skip-files" => .ok { s with skipFiles := value }
  | "output" => .ok { s with output := value }
  | "flags" => .ok { s with flags := value }
  | "regs" => .ok { s with registers := value }
  | "j" =>
    match Text.Numeral.readInt64 value with
    | some jobs => .ok { s with jobs }
    | none => .error (.badValue name value)
  | "update" =>
    match Text.readBool value with
    | some update => .ok { s with update }
    | none => .error (.badSwitch name value)
  | "v" =>
    match Text.readBool value with
    | some verbose => .ok { s with verbose }
    | none => .error (.badSwitch name value)
  | _ => .error (.undefined name)

/-- Whether a name belongs to a flag. -/
def isDefined (name : String) : Bool :=
  ["test-files", "skip-files", "output", "flags", "regs", "j", "update", "v"].contains name

/-- The name and the value in an argument that is a flag, if it is one. -/
def flagParts? (arg : String) : Option (String × Option String) :=
  match arg.toList with
  | '-' :: '-' :: c :: rest => some (Text.cut '=' (String.ofList (c :: rest)))
  | '-' :: c :: rest => if c = '-' then none else some (Text.cut '=' (String.ofList (c :: rest)))
  | _ => none

/-- Read the flags at the front of the arguments. -/
def parse (s : Settings) : List String → Except SettingsFault Settings
  | [] => .ok s
  | arg :: rest =>
    match flagParts? arg with
    | none => .ok s
    | some (name, value) =>
      if name = "" || Text.hasStart "-" name then .error (.syntaxError arg)
      else if !isDefined name then .error (.undefined name)
      else match value.or (if isSwitch name then some "true" else none) with
        | some value =>
          match s.set name value with
          | .error fault => .error fault
          | .ok s => parse s rest
        | none =>
          match rest with
          | [] => .error (.needsArgument name)
          | value :: later =>
            match s.set name value with
            | .error fault => .error fault
            | .ok s => parse s later

/-- The configuration for the tested files, or why there is none. -/
def config (s : Settings) : Except String Config :=
  let (c, unknown) := ({} : Config).processFlags (Text.words s.flags)
  if !unknown.isEmpty then .error ("unknown flag(s): " ++ " ".intercalate unknown)
  else if s.registers = "" then .ok c
  else match c.setRegisters (Text.split ',' s.registers) with
    | .ok c => .ok c
    | .error fault => .error fault.message

end Settings

end RiscBackend.Golden
