/-
# Backends

The native backend lowers a module to assembly and prints its warnings. The
other one makes a program for QBE, which is compiled elsewhere.
-/

import RiscBackend.Lower.Module
import RiscBackend.Qbe.Lower

namespace RiscBackend

/-- The backend with a given name. The native one needs no name. -/
def BackendName.ofName? (name : String) : Option BackendName :=
  if name = "rv32" || name = "" then some .rv32
  else if name = "qbe" then some .qbe
  else none

/-- What is said about a name that belongs to no backend. -/
def BackendName.unsupported (name : String) : String :=
  "unsupported backend '" ++ name ++ "'"

/-- The outcome of the native backend: the text of the program and what is shown
to the user. -/
structure Generated where
  text : String
  shown : String

/-- Run the native backend. -/
def generate (config : Config) (sources : List SourceFile) (m : IR.Module) :
    Except Lower.LoweringFault Generated :=
  match Lower.lowerModule config m with
  | (.error fault, _) => .error fault
  | (.ok program, diagnostics) =>
    .ok { text := program.text, shown := diagnostics.print sources .plain }

end RiscBackend
