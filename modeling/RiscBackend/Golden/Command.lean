/-
# The golden command

The command expands its patterns in a directory, runs the tests, reports the
results and keeps them as JSON. It fails if a test failed or could not be run.
-/

import RiscBackend.Files.Glob
import RiscBackend.Golden.Run
import RiscBackend.Tool.Session

namespace RiscBackend.Golden

open Files (Directory Path)
open Tool (Session Outcome)

/-- The files of a directory that patterns stand for, each once, or the first
malformed pattern. -/
def inputFiles (d : Directory) : List String → Except String (List Path)
  | [] => .ok []
  | pattern :: rest =>
    match Files.Glob.expand? d pattern.toList with
    | none => .error pattern
    | some paths => do
      return paths.filterMap d.filePath? ++ (← inputFiles d rest)

/-- What a run leaves behind beside its streams. -/
structure Kept where
  directory : Directory
  /-- The place of the report and the results in it, if it could be written. -/
  reported : Option (Path × List Result) := none

/-- The command's own messages carry its name. -/
def log (message : String) : Session (StateM Kept) Unit :=
  Session.err ("rvtest: " ++ message ++ "\n")

/-- Keep the results as JSON. -/
def keepReport (path : String) (results : List Result) : Session (StateM Kept) Unit := do
  let kept ← (get : StateM Kept Kept)
  match kept.directory.write path (jsonReport results).toUTF8 with
  | .ok directory =>
    let reported := (directory.filePath? path).map fun place => (place, results)
    (set { kept with directory, reported } : StateM Kept Unit)
  | .error fault => log fault.message

/-- Run the tests that the settings ask for. -/
def work (settings : Settings) : Session (StateM Kept) Unit := do
  match settings.config with
  | .error message =>
    log message
    Session.quit 1
  | .ok _ => pure ()
  let kept ← (get : StateM Kept Kept)
  let files ← match inputFiles kept.directory (Text.words settings.testFiles) with
    | .ok files => pure files.eraseDups
    | .error pattern => do
      log s!"bad pattern {pattern}: syntax error in pattern"
      Session.quit 1
  if files.isEmpty then
    log ("no test files match " ++ settings.testFiles)
    return
  let progress := runSchedule settings kept.directory files (oneByOne files)
  let results := sortedResults progress
  (set { kept with directory := progress.directory } : StateM Kept Unit)
  Session.out (report settings.verbose results)
  keepReport settings.output results
  if results.any Result.isBad then Session.quit 1

/-- The command on a directory, whose path from the root need not be known. -/
def run (d : Directory) (arguments : List String) (home : Option String := none) :
    Outcome × Kept :=
  let session : Session (StateM Kept) Unit := do
    match Settings.parse { home } arguments with
    | .error fault =>
      Session.err (fault.message ++ "\n")
      Session.quit 2
    | .ok settings => work settings
  (Session.finish session).run { directory := d }

end RiscBackend.Golden
