/-
# Lowering modules

Modules are lowered one after another into one program. Every module contributes a
data section for all globals known by then, a text section, and the code of its
functions. The environment, the program and the diagnostics pass from one module
to the next.
-/

import RiscBackend.Asm.Program
import RiscBackend.IR.Check
import RiscBackend.Lower.Block

namespace RiscBackend.Lower

open IR (Module Global)
open Asm (Line)

/-- Why a module is not lowered. -/
inductive LoweringFault where
  | invalidModule (fault : IR.ModuleFault)
  | emptyPool
  | block (fault : BlockFault)
  | diagnostics (ds : Diagnostics)
  deriving DecidableEq, Repr

/-- The wording of a lowering fault. -/
def LoweringFault.message (sources : List SourceFile) : LoweringFault → String
  | invalidModule fault => "invalid module: " ++ fault.message
  | emptyPool => Alloc.AllocationFault.emptyPool.message
  | block fault => fault.message
  | diagnostics ds => ds.errorText sources

/-- The lines that define a global. -/
def globalLines (g : Global) : List Line :=
  [{ stmt := .label g.name }, { stmt := .word g.value }]

/-- The lines before the code of the functions. -/
def header (globals : List Global) : List Line :=
  (if globals.isEmpty then []
    else { stmt := .directive "data" [] } :: globals.flatMap globalLines) ++
    [{ stmt := .directive "text" [] }, { stmt := .directive "globl" ["main"] }]

/-- What the modules lowered so far have come to. -/
structure Lowering where
  config : Config
  env : Env
  program : Asm.Program := {}
  diagnostics : Diagnostics := []

namespace Lowering

/-- The state before the first module. -/
def ofConfig (config : Config) : Lowering :=
  { config, env := .ofFrameSize config.frameSize }

/-- Lower one more module. What was emitted before a fault is kept. -/
def addModule (l : Lowering) (m : Module) : Lowering × Except LoweringFault Unit :=
  let verdict := if l.config.feature .validate then m.validate else .ok ()
  match verdict with
  | .error fault => (l, .error (.invalidModule fault))
  | .ok () =>
    if l.config.registers.isEmpty then (l, .error .emptyPool)
    else
      let env := m.globals.foldl Env.define l.env
      let code := (Emit.forEach (lowerFunc l.config) m.funcs).run env
      let l := { l with
        env := code.env
        program := { lines := l.program.lines ++ header env.globals ++ code.lines }
        diagnostics := l.diagnostics ++ code.diagnostics }
      match code.outcome with
      | .error fault => (l, .error (.block fault))
      | .ok () =>
        if l.diagnostics.hasErrors then (l, .error (.diagnostics l.diagnostics))
        else (l, .ok ())

end Lowering

/-- Lower a module on its own. The diagnostics are given in either case. -/
def lowerModule (config : Config) (m : Module) :
    Except LoweringFault Asm.Program × Diagnostics :=
  let (l, outcome) := (Lowering.ofConfig config).addModule m
  (outcome.map fun () => l.program, l.diagnostics)

end RiscBackend.Lower
