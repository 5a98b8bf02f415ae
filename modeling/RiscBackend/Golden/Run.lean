/-
# Golden runs

A golden run compiles source files and compares the assembly with a file kept
beside each of them. A desk looks at the files one by one, in order: a file to be
skipped, a file that cannot be read and a file with the same content as an earlier
one get their results at once, every other file is offered to the workers. A worker
takes the offered file, compiles it, compiles it again, compares the assembly with
the expected one or renews that, and hands in the result.

Desk and workers take turns in any order. Every move is one access to what they
share: the directory, the offered file or the list of results. A schedule says who
moves next. The results are sorted by file name at the end.
-/

import RiscBackend.Files.Directory
import RiscBackend.Golden.Result
import RiscBackend.Golden.Settings
import RiscBackend.Lower.Module
import RiscBackend.Source.Grammar
import RiscBackend.Text.Utf8

namespace RiscBackend.Golden

open Files (Directory Path)

/-- The path of the expected assembly of a source file. -/
def goldenPath (file : Path) : Path :=
  file.dropLast ++ [Files.dropExtension file.base ++ ".s"]

/-- Compile the content of a source file, or say why it cannot be done. -/
def compileContent (settings : Settings) (content : ByteArray) : Except String Asm.Program := do
  match Source.parse 0 (Text.ofBytes content) with
  | .error complaints =>
    throw (Diagnostics.errorText [] (complaints.map Source.Complaint.diagnostic))
  | .ok m =>
    match (Lower.lowerModule (← settings.config) m).1 with
    | .ok program => return program
    | .error fault => throw (fault.message [])

/-- Compile a source file of a directory, or say why it cannot be done. -/
def compileFile (settings : Settings) (d : Directory) (file : Path) : Except String Asm.Program :=
  (d.readAt (.inside file) file.text).mapError (·.message) >>= compileContent settings

/-- Compare the assembly of a file with what is expected, or renew what is expected. -/
def settle (settings : Settings) (d : Directory) (file : Path) (program : Asm.Program) :
    Result × Directory :=
  let golden := goldenPath file
  let got := program.text.toUTF8
  let result (status : Status) (message : String) : Result :=
    { file, status, message, digest := some program.digest }
  if settings.update then
    match d.writeAt (.inside golden) golden.text got with
    | .ok d => (result .pass "golden file updated", d)
    | .error fault => (result .error fault.message, d)
  else
    match d.readAt (.inside golden) golden.text with
    | .error _ => (result .skip s!"no {golden.base} (run with -update)", d)
    | .ok want =>
      let diff := settings.differ.text (Text.byteLines want) (Text.byteLines got)
      if diff = "" then (result .pass s!"assembly matches {golden.base}", d)
      else
        let message := s!"assembly differs from {golden.base} (-want +got)"
        ({ result .fail message with diff }, d)

/-- How far the test of a file has come. -/
inductive Stage where
  /-- A worker has taken the file. -/
  | taken
  | compiled (program : Asm.Program)
  /-- A second compilation gave the same assembly. -/
  | confirmed (program : Asm.Program)
  | finished (result : Result)

/-- A file in the hands of a worker. -/
structure Job where
  file : Path
  stage : Stage := .taken

/-- The next step of a test, and the directory after it. -/
def Job.step (settings : Settings) (d : Directory) (job : Job) : Stage × Directory :=
  match job.stage with
  | .taken =>
    match compileFile settings d job.file with
    | .error message => (.finished { file := job.file, status := .error, message }, d)
    | .ok program => (.compiled program, d)
  | .compiled program =>
    match compileFile settings d job.file with
    | .error _ => (.finished (differing job.file), d)
    | .ok again =>
      if again.digest = program.digest then (.confirmed program, d)
      else (.finished (differing job.file), d)
  | .confirmed program =>
    let (result, d) := settle settings d job.file program
    (.finished result, d)
  | .finished result => (.finished result, d)
where
  differing (file : Path) : Result :=
    { file, status := .fail, message := "output differs between two translations" }

/-- What the desk is busy with. -/
inductive Desk where
  | free
  /-- A file waits for a worker. -/
  | offering (file : Path)
  /-- A result is known without a test. -/
  | telling (result : Result)

/-- A golden run in progress. -/
structure Progress where
  directory : Directory
  /-- Files that the desk has not looked at. -/
  pending : List Path
  /-- Digests of the contents offered so far, with the files. -/
  seen : List (UInt64 × Path) := []
  desk : Desk := .free
  /-- The workers that have a file, by number. -/
  busy : List (Nat × Job) := []
  /-- Results in the order in which they came in. -/
  results : List Result := []

/-- Who moves next in a run. -/
inductive Move where
  | desk
  /-- A worker takes the offered file. -/
  | take (worker : Nat)
  | work (worker : Nat)
  deriving DecidableEq, Repr

namespace Progress

/-- Whether a file is to be skipped. It is named by its last component or by its
path from the root. -/
def isSkipped (settings : Settings) (file : Path) : Bool :=
  let names := Text.words settings.skipFiles
  settings.home.any (fun home => names.contains (home ++ "/" ++ file.text)) ||
    names.contains file.base

/-- What the desk makes of a file, and what it remembers then. -/
def look (settings : Settings) (d : Directory) (seen : List (UInt64 × Path)) (file : Path) :
    Desk × List (UInt64 × Path) :=
  if isSkipped settings file then
    (.telling { file, status := .skip, message := "skipped on request" }, seen)
  else match d.readAt (.inside file) file.text with
    | .error fault => (.telling { file, status := .error, message := fault.message }, seen)
    | .ok content =>
      let digest := Text.Digest.ofBytes content
      match seen.lookup digest with
      | some first =>
        (.telling { file, status := .skip, message := "same content as " ++ first.base }, seen)
      | none => (.offering file, seen ++ [(digest, file)])

/-- The desk hands in a result, or looks at the next file. It waits while it offers
a file. -/
def deskMove? (settings : Settings) (p : Progress) : Option Progress :=
  match p.desk, p.pending with
  | .telling result, _ => some { p with desk := .free, results := p.results ++ [result] }
  | .free, file :: pending =>
    let (desk, seen) := look settings p.directory p.seen file
    some { p with pending, desk, seen }
  | _, _ => none

/-- A worker without a file takes the offered one. -/
def take? (settings : Settings) (p : Progress) (worker : Nat) : Option Progress :=
  match p.desk with
  | .offering file =>
    if (worker : Int) < max settings.jobs 1 && (p.busy.lookup worker).isNone then
      some { p with desk := .free, busy := p.busy ++ [(worker, { file })] }
    else none
  | _ => none

/-- A worker hands in its result, or goes on with its test. -/
def work? (settings : Settings) (p : Progress) (worker : Nat) : Option Progress :=
  (p.busy.lookup worker).map fun job =>
    let others := p.busy.eraseP fun entry => entry.1 = worker
    match job.stage with
    | .finished result => { p with busy := others, results := p.results ++ [result] }
    | _ =>
      let (stage, directory) := job.step settings p.directory
      { p with directory, busy := others ++ [(worker, { job with stage })] }

/-- The state after a move, if the move is possible. -/
def move? (settings : Settings) (p : Progress) : Move → Option Progress
  | .desk => p.deskMove? settings
  | .take worker => p.take? settings worker
  | .work worker => p.work? settings worker

/-- Make one move. A move that is not possible changes nothing. -/
def move (settings : Settings) (p : Progress) (m : Move) : Progress :=
  (p.move? settings m).getD p

/-- Whether nothing is left to do. -/
def isComplete (p : Progress) : Bool :=
  match p.desk, p.pending, p.busy with
  | .free, [], [] => true
  | _, _, _ => false

end Progress

/-- The state of a run after the moves of a schedule. -/
def runSchedule (settings : Settings) (d : Directory) (files : List Path)
    (schedule : List Move) : Progress :=
  schedule.foldl (Progress.move settings) { directory := d, pending := files }

/-- The schedule in which one worker does all tests, each before the next file is
looked at. -/
def oneByOne (files : List Path) : List Move :=
  files.flatMap fun _ => [.desk, .desk, .take 0, .work 0, .work 0, .work 0, .work 0]

/-- The results of a run, sorted by file name. -/
def sortedResults (p : Progress) : List Result :=
  p.results.mergeSort fun a b => a.file.text ≤ b.file.text

end RiscBackend.Golden
