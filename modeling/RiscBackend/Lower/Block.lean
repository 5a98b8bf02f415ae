/-
# Lowering blocks and functions

Every block is analyzed, given registers and emitted on its own; values pass from
block to block through the stack frame. Before an instruction the values evicted
there are saved and the values that arrive from an earlier block are fetched. At
the end of a block that falls through, the values that other blocks mention are
written back.
-/

import RiscBackend.Lower.Select

namespace RiscBackend.Lower

open IR (Instruction Block Func)
open Alloc (Interval)
open Asm (Instr Line)

namespace Site

/-- An instruction that moves a value between its register and its slot, with a
comment if comments are on. -/
def slotLine (site : Site) (i : Instr) (verb : String) (iv : Interval) : Line :=
  { stmt := .instr i
    notes := if site.config.feature .annotate then [verb ++ " " ++ iv.name] else [] }

/-- Save a value that is evicted here. A value defined at this very position has
nothing to save yet. -/
def spill (site : Site) (iv : Interval) : Emit Unit := do
  if iv.start = site.position then return
  let offset ← site.slotFor iv.name
  Emit.line (site.slotLine (.sw iv.register offset site.config.stackRegister) "spill" iv)
  if site.config.warning .spill then
    Emit.diagnose
      { severity := .warning, place := site.place, flag := "spill"
        message := s!"'{iv.name}' evicted from {iv.register}" }

/-- Fetch a value that arrives from an earlier block and starts here. -/
def reload (site : Site) (iv : Interval) : Emit Unit := do
  if !iv.liveIn || iv.start != site.position || !iv.inRegister site.position then return
  match (← Emit.getEnv).frame.resolve iv.name with
  | .error fault => site.unresolved fault
  | .ok offset =>
    Emit.line (site.slotLine (.lw iv.register offset site.config.stackRegister) "reload" iv)

/-- Write back a value that another block mentions and that is still in its
register at the end of the block. -/
def writeBack (site : Site) (iv : Interval) : Emit Unit := do
  if !site.crossing.contains iv.name || !iv.inRegister site.position then return
  let offset ← site.slotFor iv.name
  Emit.line (site.slotLine (.sw iv.register offset site.config.stackRegister) "write-back" iv)

/-- Lower the instruction at this point. -/
def step (site : Site) (i : Instruction) : Emit Unit := do
  Emit.forEach site.spill (site.table.spillsAt site.position)
  Emit.forEach site.reload site.table.intervals
  site.select i

/-- Lower instructions from this point on. -/
def steps (site : Site) : List Instruction → Emit Unit
  | [] => pure ()
  | i :: rest => do
    site.step i
    steps { site with position := site.position + 1 } rest

end Site

/-- Whether control runs from a block into the next one, with values to hand on. -/
def fallsThrough (b : Block) : Bool :=
  !b.body.isEmpty && !b.terminates

/-- The intervals of a block before they get registers. -/
def blockTable (crossing : List String) (env : Env) (b : Block) : Alloc.Table :=
  let table := Alloc.analyze b env.isGlobal
  if fallsThrough b then table.holdUntil crossing b.body.length else table

/-- Lower a block. -/
def lowerBlock (config : Config) (function : String) (crossing : List String) (b : Block) :
    Emit Unit := do
  Emit.label b.label
  let table := blockTable crossing (← Emit.getEnv) b
  match Alloc.allocate (.ofNames config.registers) table.intervals with
  | .error fault => Emit.fail { function, block := b.label, cause := .allocation fault }
  | .ok (intervals, _) =>
    let site : Site := { config, function, block := b.label, table := { intervals }, crossing }
    site.steps b.body
    if fallsThrough b then
      let last := { site with position := b.body.length }
      Emit.forEach last.writeBack last.table.intervals

/-- Warn about a function that uses more than half of its frame. -/
def frameWarning (config : Config) (function : String) : Emit Unit := do
  let used := (← Emit.getEnv).frame.used
  if config.frameSize < used * 2 && config.warning .frame then
    Emit.diagnose
      { severity := .warning, place := function, flag := "frame"
        message := s!"function uses {used} of {config.frameSize} stack frame bytes" }

/-- Lower a function: open its frame, lower its blocks, close the frame and exit. -/
def lowerFunc (config : Config) (f : Func) : Emit Unit := do
  Emit.modifyEnv Env.beginFunction
  Emit.label f.name
  Emit.instr (.addi config.stackRegister config.stackRegister (-config.frameSize))
  Emit.forEach (lowerBlock config f.name (Alloc.crossing f)) f.blocks
  Emit.instr (.addi config.stackRegister config.stackRegister config.frameSize)
  Emit.instr (.li config.syscallRegister config.exitSyscall)
  Emit.instr .ecall
  frameWarning config f.name

end RiscBackend.Lower
