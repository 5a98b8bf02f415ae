/-
# Sessions

A session is a run of a command: it writes to its two output streams, uses the
surrounding monad for files, and may end early with an exit code. What was written
before the end is kept.
-/

import RiscBackend.Diagnostic

namespace RiscBackend.Tool

/-- What a command has written. -/
structure Transcript where
  stdout : String := ""
  stderr : String := ""
  deriving DecidableEq, Repr

/-- The code with which a command exits. -/
abbrev ExitCode := UInt32

/-- A command in progress. -/
abbrev Session (m : Type → Type) :=
  ExceptT ExitCode (StateT Transcript m)

/-- A finished command. -/
structure Outcome where
  exitCode : ExitCode
  stdout : String
  stderr : String
  deriving DecidableEq, Repr

namespace Session

variable {m : Type → Type} [Monad m] {α : Type}

/-- Write to the standard output. -/
def out (text : String) : Session m Unit :=
  modify fun t => { t with stdout := t.stdout ++ text }

/-- Write to the standard error stream. -/
def err (text : String) : Session m Unit :=
  modify fun t => { t with stderr := t.stderr ++ text }

/-- Write a line about the progress of the work. -/
def progress (text : String) : Session m Unit :=
  err (text ++ "\n")

/-- End the command. -/
def quit (code : ExitCode) : Session m α :=
  throw code

/-- End the command with an error message. -/
def fail (message : String) : Session m α := do
  err ((Diagnostic.bare .error message).print [] .plain)
  quit 1

/-- Run a command to its end. -/
def finish (session : Session m Unit) : m Outcome := do
  let (result, transcript) ← session.run {}
  let exitCode := match result with
    | .ok () => 0
    | .error code => code
  return { exitCode, stdout := transcript.stdout, stderr := transcript.stderr }

end Session

end RiscBackend.Tool
