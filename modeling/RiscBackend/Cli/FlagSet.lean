/-
# Command-line flags

A flag has a long name and may have a one-letter shorthand. It is a switch, a
text, a number or a list that collects every occurrence. Long names take their
value after an equals sign or from the next argument, shorthands from the rest of
the argument or from the next one, and two dashes end the flags. Groups of
switches come in pairs that turn a named setting on and off.
-/

import RiscBackend.Text.Cut
import RiscBackend.Text.Decimal
import RiscBackend.Text.Quoted

namespace RiscBackend.Cli

/-- The value of a flag. -/
inductive FlagValue where
  | text (value : String)
  | switch (value : Bool)
  | number (value : Int)
  | list (values : List String)
  deriving DecidableEq, Repr

namespace FlagValue

/-- Whether a flag with this value takes no argument of its own. -/
def isSwitch : FlagValue → Bool
  | switch _ => true
  | _ => false

/-- How a default is shown on the help page. Switches show none. -/
def shown : FlagValue → String
  | text value => value
  | switch _ => ""
  | number value => toString value
  | list values => ",".intercalate values

end FlagValue

/-- Why a command line is refused. -/
inductive ParseFault where
  | unknownFlag (arg : String)
  | needsArgument (arg : String)
  | invalidBoolean (value name : String)
  | invalidInteger (value name : String)
  deriving DecidableEq, Repr

/-- The wording of a refusal. -/
def ParseFault.message : ParseFault → String
  | unknownFlag arg => "unknown flag: " ++ arg
  | needsArgument arg => "flag needs an argument: " ++ arg
  | invalidBoolean value name => s!"invalid boolean value '{value}' for --{name}"
  | invalidInteger value name => s!"invalid integer value '{value}' for --{name}"

/-- A flag with its current value. -/
structure Flag where
  name : String
  shorthand : String := ""
  usage : String := ""
  /-- The placeholder for the value on the help page. -/
  placeholder : String := ""
  /-- The default as shown on the help page. -/
  initial : String := ""
  value : FlagValue
  deriving DecidableEq, Repr

namespace Flag

/-- A flag whose present value is its default. -/
def ofDefault (name shorthand usage placeholder : String) (value : FlagValue) : Flag :=
  { name, shorthand, usage, placeholder, initial := value.shown, value }

/-- Give a flag a value from the command line. An empty text turns a switch on. -/
def set (flag : Flag) (text : String) : Except ParseFault Flag :=
  match flag.value with
  | .text _ => .ok { flag with value := .text text }
  | .switch _ =>
    if text = "" then .ok { flag with value := .switch true }
    else match Text.readBool text with
      | some value => .ok { flag with value := .switch value }
      | none => .error (.invalidBoolean text flag.name)
  | .number _ =>
    match Text.readInt64 text with
    | some value => .ok { flag with value := .number value }
    | none => .error (.invalidInteger text flag.name)
  | .list values => .ok { flag with value := .list (values ++ [text]) }

/-- How a flag is named on the help page. -/
def label (flag : Flag) : String :=
  (if flag.shorthand = "" then "" else "-" ++ flag.shorthand ++ ", ") ++ "--" ++ flag.name ++
    (if !flag.value.isSwitch && flag.placeholder != "" then " <" ++ flag.placeholder ++ ">" else "")

end Flag

/-- A named setting with a switch to turn it on and a switch to turn it off. A
switch without a default does not exist. -/
structure GroupEntry where
  name : String
  /-- The letter, or letters, that the switches of the group start with. -/
  letter : String
  usage : String
  on? : Option Bool
  off? : Option Bool
  deriving DecidableEq, Repr

/-- The long name of the switch that turns a setting on. -/
def GroupEntry.onName (e : GroupEntry) : String :=
  e.letter ++ e.name

/-- The long name of the switch that turns a setting off. -/
def GroupEntry.offName (e : GroupEntry) : String :=
  e.letter ++ "no-" ++ e.name

/-- A titled group of settings. -/
structure Group where
  title : String
  /-- What one member of the group is called. -/
  kind : String
  entries : List GroupEntry
  deriving DecidableEq, Repr

/-- Why a flag cannot be defined. -/
inductive DefinitionFault where
  | badName (name : String)
  | repeatedShorthand (shorthand : String)
  deriving DecidableEq, Repr

/-- The wording of a definition fault. -/
def DefinitionFault.message : DefinitionFault → String
  | badName name => "bad or duplicate flag name " ++ Text.quoted name
  | repeatedShorthand shorthand => "duplicate shorthand -" ++ shorthand

/-- The flags of a program and the arguments left by the last command line. -/
structure FlagSet where
  flags : List Flag := []
  /-- Shorthands with the long names they stand for. -/
  shorthands : List (String × String) := []
  groups : List Group := []
  args : List String := []
  deriving DecidableEq, Repr

namespace FlagSet

/-- The flag with a long name. -/
def find? (fs : FlagSet) (name : String) : Option Flag :=
  fs.flags.find? fun flag => flag.name = name

/-- Whether a switch is on. -/
def isOn (fs : FlagSet) (name : String) : Bool :=
  (fs.find? name).any fun flag => flag.value = .switch true

/-- Replace the flag of the same name. -/
def update (fs : FlagSet) (new : Flag) : FlagSet :=
  { fs with flags := fs.flags.map fun flag => if flag.name = new.name then new else flag }

/-- Define a flag. Names must be new and not empty, shorthands must be new. A flag
whose shorthand is taken is still known by its name. -/
def define (fs : FlagSet) (flag : Flag) : FlagSet × Option DefinitionFault :=
  if flag.name = "" || (fs.find? flag.name).isSome then (fs, some (.badName flag.name))
  else
    let fs := { fs with flags := fs.flags ++ [flag] }
    if flag.shorthand = "" then (fs, none)
    else if (fs.shorthands.lookup flag.shorthand).isSome then
      (fs, some (.repeatedShorthand flag.shorthand))
    else ({ fs with shorthands := (flag.shorthand, flag.name) :: fs.shorthands }, none)

/-- Define flags up to the first that cannot be defined. -/
def defineAll (fs : FlagSet) : List Flag → FlagSet × Option DefinitionFault
  | [] => (fs, none)
  | flag :: rest =>
    match fs.define flag with
    | (fs, none) => defineAll fs rest
    | failed => failed

/-- The switches of a setting. -/
def entryFlags (e : GroupEntry) : List Flag :=
  (e.on?.map fun value => Flag.ofDefault e.onName "" e.usage "" (.switch value)).toList ++
    (e.off?.map fun value => Flag.ofDefault e.offName "" "" "" (.switch value)).toList

/-- Define the switches of a group. -/
def addGroup (fs : FlagSet) (group : Group) : FlagSet × Option DefinitionFault :=
  match fs.defineAll (group.entries.flatMap entryFlags) with
  | (fs, none) => ({ fs with groups := fs.groups ++ [group] }, none)
  | failed => failed

/-- Whether an argument is not a flag: a lone dash, or anything without a dash in
front. -/
def isPositional (arg : String) : Bool :=
  match arg.toList with
  | '-' :: _ :: _ => false
  | _ => true

/-- The flag that an argument names by its long name, and the value in it. -/
def longMatch? (fs : FlagSet) (arg : String) : Option (Flag × Option String) :=
  let (name, value) := Text.cut '=' (String.ofList (arg.toList.dropWhile (· = '-')))
  (fs.find? name).map fun flag => (flag, value)

/-- The flag that an argument names by its shorthand, and the value in it. A
shorthand is one ASCII character after a single dash; what follows it is the
value, except for a switch. -/
def shortMatch? (fs : FlagSet) (arg : String) : Option (Flag × Option String) :=
  match arg.toList with
  | '-' :: c :: rest =>
    if c = '-' || 0x80 ≤ c.toNat then none
    else ((fs.shorthands.lookup c.toString).bind fs.find?).map fun flag =>
      if flag.value.isSwitch then (flag, some "")
      else (flag, if rest.isEmpty then none else some (String.ofList rest))
  | _ => none

/-- The flag that an argument names, and the value in it. -/
def match? (fs : FlagSet) (arg : String) : Option (Flag × Option String) :=
  (fs.longMatch? arg).or (fs.shortMatch? arg)

/-- Read the arguments of a command line after those already read. What was set
before a fault stays set. -/
def parseFrom (fs : FlagSet) : List String → FlagSet × Option ParseFault
  | [] => (fs, none)
  | arg :: rest =>
    if arg = "--" then ({ fs with args := fs.args ++ rest }, none)
    else if isPositional arg then parseFrom { fs with args := fs.args ++ [arg] } rest
    else match fs.match? arg with
      | none => (fs, some (.unknownFlag arg))
      | some (flag, value) =>
        match value.or (if flag.value.isSwitch then some "" else none) with
        | some text =>
          match flag.set text with
          | .error fault => (fs, some fault)
          | .ok flag => parseFrom (fs.update flag) rest
        | none =>
          match rest with
          | [] => (fs, some (.needsArgument arg))
          | text :: later =>
            match flag.set text with
            | .error fault => (fs, some fault)
            | .ok flag => parseFrom (fs.update flag) later

/-- Read a command line. The flags keep their values from earlier command lines;
the arguments are those of this one. -/
def parse (fs : FlagSet) (arguments : List String) : FlagSet × Option ParseFault :=
  parseFrom { fs with args := [] } arguments

end FlagSet

end RiscBackend.Cli
