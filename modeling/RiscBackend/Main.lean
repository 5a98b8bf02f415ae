/-
# The compiler on the command line

The outer layer: files are those of the operating system, the streams are those
of the process.
-/

import RiscBackend.Tool.Compile

namespace RiscBackend

open Files (FileAccess FileFault FileCause)

/-- Whether a code of the system stands for an error number. Some calls report the
number itself and others its negation. -/
def isNumber (number code : UInt32) : Bool :=
  code == number || code == 0 - number

/-- The cause of a failed access by its system error number, if it is one that is
reported by name. -/
def causeOf (error : IO.Error) : FileCause :=
  match error with
  | .inappropriateType _ code _ => if isNumber 20 code then .notDirectory else .isDirectory
  | .invalidArgument _ code _ => if isNumber 36 code then .nameTooLong else .invalidArgument
  | _ => .notFound

/-- Access to the files of the operating system. -/
def systemFiles : FileAccess IO where
  read path := do
    try
      return .ok (← IO.FS.readBinFile path)
    catch error =>
      let cause := causeOf error
      return .error { verb := if cause = .isDirectory then .read else .open, path, cause }
  write path content := do
    try
      IO.FS.writeBinFile path content
      return .ok ()
    catch error => return .error { verb := .open, path, cause := causeOf error }

/-- The system for which programs are made when none is named. -/
def defaultHost : Host where
  system := "linux"
  processor := "amd64"

end RiscBackend

/-- Run the compiler on the arguments of the process. -/
def main (arguments : List String) : IO UInt32 := do
  let outcome ← RiscBackend.Tool.Compile.run RiscBackend.systemFiles RiscBackend.defaultHost none
    arguments
  IO.print outcome.stdout
  IO.eprint outcome.stderr
  return outcome.exitCode
