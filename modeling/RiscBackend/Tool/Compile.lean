/-
# The compiler command

The command reads source files, joins their modules, and writes the assembly of
the whole, or a listing of it on request. Messages about its progress go to the
standard error stream, so that output to the standard stream stays clean.
-/

import RiscBackend.Backend
import RiscBackend.Cli.App
import RiscBackend.Config.Flags
import RiscBackend.Config.Groups
import RiscBackend.Config.Target
import RiscBackend.Files.Directory
import RiscBackend.Source.Grammar
import RiscBackend.Text.Utf8
import RiscBackend.Tool.Session

namespace RiscBackend.Tool.Compile

open Cli (App Flag FlagSet FlagValue)
open Files (FileAccess)

/-- The flags of the command beside the warning and feature switches. -/
def flags : List Flag :=
  [.ofDefault "output" "o" "Place the output into <file>. Use '-' for stdout." "file"
      (.text "a.s"),
    .ofDefault "target" "t" "Set the backend and target (rv32, qbe or qbe/<target>)."
      "backend/target" (.text "rv32"),
    .ofDefault "frame-size" "" "Size in bytes of every function's stack frame." "bytes"
      (.number 1024),
    .ofDefault "reg" "r" "Restrict the allocatable pool to the given registers, in order." "name"
      (.list []),
    .ofDefault "dump-ir" "d" "Dump the intermediate representation and exit." ""
      (.switch false),
    .ofDefault "print-config" "" "Print the feature and warning configuration and exit." ""
      (.switch false)]

/-- The command before it has seen its arguments. -/
def app : App where
  name := "rvbe"
  synopsis := "[options] <input.ll> ..."
  description :=
    "A backend that lowers a small LLVM-like IR to RV32 assembly with a block-local " ++
      "linear-scan register allocator."
  flagSet := (({} : Config).addGroups (FlagSet.defineAll {} flags).1).1

/-- The text of a flag. -/
def textOf (fs : FlagSet) (name : String) : String :=
  match (fs.find? name).map Flag.value with
  | some (.text value) => value
  | _ => ""

/-- The number of a flag. -/
def numberOf (fs : FlagSet) (name : String) : Int :=
  match (fs.find? name).map Flag.value with
  | some (.number value) => value
  | _ => 0

/-- The values of a flag that collects them. -/
def listOf (fs : FlagSet) (name : String) : List String :=
  match (fs.find? name).map Flag.value with
  | some (.list values) => values
  | _ => []

section

variable {m : Type → Type} [Monad m]

/-- The configuration that a command line asks for. -/
def configure (host : Host) (fs : FlagSet) : Session m Config := do
  let config := ({} : Config).applyGroups fs
  let config ← match config.setTarget host (textOf fs "target") with
    | .ok (config, note) => do
      Session.err note
      pure config
    | .error fault => Session.fail fault.message
  let config ← match config.setFrameSize (.ofInt (numberOf fs "frame-size")) with
    | .ok config => pure config
    | .error fault => Session.fail fault.message
  let registers := listOf fs "reg"
  if registers.isEmpty then return config
  match config.setRegisters registers with
  | .ok config => return config
  | .error fault => Session.fail fault.message

/-- Read source files up to the first that cannot be read. -/
def readSources (files : FileAccess m) : List String → Session m (List SourceFile)
  | [] => return []
  | path :: rest => do
    match ← files.read path with
    | .error fault => Session.fail s!"could not read file '{path}': {fault.message}"
    | .ok content =>
      let later ← readSources files rest
      return { name := path, text := Text.ofBytes content } :: later

/-- Parse the sources from an index on and join their modules. Complaints about
one file do not keep the others from being read; the result is missing if there
were any. -/
def parseSources (sources : List SourceFile) :
    Nat → List SourceFile → Session m (Option IR.Module)
  | _, [] => return some {}
  | index, source :: rest => do
    match Source.parse index source.text with
    | .error complaints =>
      let ds : Diagnostics := complaints.map Source.Complaint.diagnostic
      Session.err (ds.print sources .plain)
      let _ ← parseSources sources (index + 1) rest
      return none
    | .ok first =>
      return (← parseSources sources (index + 1) rest).map first.append

/-- Write the listing of a module that a backend gives. -/
def dump (config : Config) (program : IR.Module) : Session m Unit := do
  Session.progress s!"Dumping IR for '{config.backend.text}' backend..."
  match config.backend with
  | .rv32 => Session.out program.dump
  | .qbe =>
    match Qbe.lower config program with
    | .ok p => Session.out p.text
    | .error fault => Session.fail ("backend IR generation failed: " ++ fault.message)

/-- Generate the code of a module. QBE itself is not part of this program. -/
def generateCode (config : Config) (sources : List SourceFile) (program : IR.Module) :
    Session m String := do
  Session.progress s!"Generating code with '{config.backend.text}' backend..."
  match config.backend with
  | .qbe => Session.fail "backend code generation failed: qbe is not available"
  | .rv32 =>
    match generate config sources program with
    | .ok generated =>
      Session.err generated.shown
      return generated.text
    | .error (.diagnostics ds) =>
      Session.err (ds.print sources .plain)
      Session.quit 1
    | .error fault => Session.fail ("backend code generation failed: " ++ fault.message sources)

/-- Write the generated code to its place. -/
def writeCode (files : FileAccess m) (path text : String) : Session m Unit := do
  if path = "-" then Session.out text
  else
    Session.progress s!"Writing '{path}'..."
    match ← files.write path text.toUTF8 with
    | .ok () => return
    | .error fault => Session.fail ("could not write output: " ++ fault.message)

/-- The work of the command on its input files. -/
def work (files : FileAccess m) (host : Host) (fs : FlagSet) (inputs : List String) :
    Session m Unit := do
  let config ← configure host fs
  if fs.isOn "print-config" then
    Session.out config.describe
    return
  if inputs.isEmpty then Session.fail "no input files specified."
  Session.progress "----------------------"
  Session.progress s!"Parsing {inputs.length} IR file(s)..."
  let sources ← readSources files inputs
  let program ← match ← parseSources sources 0 sources with
    | some program => pure program
    | none => Session.quit 1
  if config.feature .validate then
    Session.progress "Validating module..."
    match program.validate with
    | .ok () => pure ()
    | .error fault => Session.fail ("invalid module: " ++ fault.message)
  if fs.isOn "dump-ir" then dump config program
  else
    let text ← generateCode config sources program
    writeCode files (textOf fs "output") text
    Session.progress "----------------------"
    Session.progress "Done!"

/-- The command. The help page is as wide as the terminal, if there is one. -/
def run (files : FileAccess m) (host : Host) (terminal : Option UInt16) (arguments : List String) :
    m Outcome :=
  Session.finish do
    let (app, request) := app.run arguments
    match request with
    | .undefined fault => Session.fail fault.message
    | .refused fault => do
      Session.err (app.refusal fault)
      Session.quit 1
    | .help => Session.out (app.helpPage (App.pageWidth terminal))
    | .action inputs => work files host app.flagSet inputs

end

end RiscBackend.Tool.Compile
