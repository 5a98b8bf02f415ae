/-
# Command-line programs

A program has a name, a synopsis, a description and flags. Every run adds the
help switch, reads the command line, and either shows the help page, complains,
or hands the remaining arguments on.
-/

import RiscBackend.Cli.FlagSet
import RiscBackend.Sorting.Quick
import RiscBackend.Text.Layout

namespace RiscBackend.Cli

/-- A program as its help page presents it. -/
structure App where
  name : String
  synopsis : String := ""
  description : String := ""
  flagSet : FlagSet := {}
  deriving DecidableEq, Repr

/-- What a run of a program comes to before its work starts. -/
inductive Request where
  | undefined (fault : DefinitionFault)
  | refused (fault : ParseFault)
  | help
  | action (args : List String)
  deriving DecidableEq, Repr

namespace App

/-- The help switch. -/
def helpFlag : Flag :=
  .ofDefault "help" "h" "Display this information" "" (.switch false)

/-- Read a command line. -/
def run (app : App) (arguments : List String) : App × Request :=
  match app.flagSet.define helpFlag with
  | (flagSet, some fault) => ({ app with flagSet }, .undefined fault)
  | (flagSet, none) =>
    let (flagSet, fault?) := flagSet.parse arguments
    let request := match fault? with
      | some fault => .refused fault
      | none => if flagSet.isOn "help" then .help else .action flagSet.args
    ({ app with flagSet }, request)

/-- What is shown when a command line is refused. -/
def refusal (app : App) (fault : ParseFault) : String :=
  app.name ++ ": " ++ fault.message ++ "\nUsage: " ++ app.name ++ " " ++ app.synopsis ++
    "\nRun '" ++ app.name ++ " --help' for all options.\n"

/-- The margin of the entries of the help page. -/
def margin : String := "        "

/-- An entry of the help page: a name in a column of width `left`, the usage
wrapped beside it, and a mark at the right end of its first line. -/
def entry (width : Int) (left : Nat) (name usage mark : String) : String :=
  let room := max (width - 8 - left - mark.utf8ByteSize - 3) 10
  let lines := Text.wrap room usage
  let first := lines.headD ""
  let head := margin ++ Text.padRight left name ++ " "
  let firstLine := if mark = "" then head ++ first ++ "\n"
    else head ++ Text.padRight room.toNat first ++ "  " ++ mark ++ "\n"
  firstLine ++
    String.join ((lines.drop 1).map fun l => margin ++ Text.spaces left ++ " " ++ l ++ "\n")

/-- The flags that are listed one by one: those outside every group, by name. -/
def options (app : App) : List Flag :=
  let grouped := app.flagSet.groups.flatMap fun g =>
    g.entries.flatMap fun e => [e.onName, e.offName]
  (app.flagSet.flags.filter fun flag => !grouped.contains flag.name).mergeSort
    fun a b => a.name ≤ b.name

/-- The width in bytes of the widest name on the help page. -/
def nameWidth (app : App) : Nat :=
  let entries := app.flagSet.groups.flatMap fun g => g.entries.map fun e => e.name.utf8ByteSize
  let labels := app.options.map fun flag => flag.label.utf8ByteSize
  (entries ++ labels).foldl max 0

/-- The mark of a setting: whether its switch is on at present. -/
def settingMark (app : App) (e : GroupEntry) : String :=
  if e.on?.isSome && app.flagSet.isOn e.onName then "|x|" else "|-|"

/-- The part of the help page for a group. -/
def groupHelp (app : App) (width : Int) (left : Nat) (group : Group) : String :=
  match group.entries with
  | [] => ""
  | first :: _ =>
    let entries := Sorting.quickSort (fun a b => a.name < b.name) group.entries
    "\n    " ++ group.title ++ "\n" ++
      entry width left ("-" ++ first.letter ++ "<name>") ("Enable a specific " ++ group.kind) "" ++
      entry width left ("-" ++ first.letter ++ "no-<name>") ("Disable a specific " ++ group.kind) ""
      ++ String.join (entries.map fun e => entry width left e.name e.usage (app.settingMark e))

/-- The help page for a terminal of a given width. -/
def helpPage (app : App) (width : Int) : String :=
  let left := app.nameWidth
  let description := if app.description = "" then ""
    else "\n    Description\n" ++
      String.join ((Text.wrap (width - 8) app.description).map fun l => margin ++ l ++ "\n")
  let option (flag : Flag) :=
    entry width left flag.label flag.usage
      (if flag.initial = "" then "" else "|" ++ flag.initial ++ "|")
  "\n    Synopsis\n" ++ margin ++ app.name ++ " " ++ app.synopsis ++ "\n" ++ description ++
    "\n    Options\n" ++ String.join (app.options.map option) ++
    String.join (app.flagSet.groups.map (app.groupHelp width left))

/-- The width of the help page: that of the terminal, which is a number of 16
bits and taken to be at least 20, or 80 without a terminal. -/
def pageWidth : Option UInt16 → Int
  | some width => max width.toNat 20
  | none => 80

end App

end RiscBackend.Cli
