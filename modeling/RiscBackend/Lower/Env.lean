/-
# Symbols and stack slots

The environment of a lowering knows the globals of the module, the locals that
hide globals in the current function, and the stack frame of that function. A
frame hands out word slots from its top downwards. Sizes and offsets are signed
64-bit words, whose arithmetic wraps.
-/

import RiscBackend.IR.Basic

namespace RiscBackend.Lower

open IR (Global)

/-- The size of a stack slot in bytes. -/
def slotSize : Int64 := 4

/-- Why a value has no place: the frame is full, or the name has no slot, or it
has no interval in the block. -/
inductive PlacementFault where
  | exhausted (name : String) (size : Int64)
  | noSlot (name : String)
  | noInterval (name : String)
  deriving DecidableEq, Repr

/-- The wording of a placement fault. -/
def PlacementFault.message : PlacementFault → String
  | exhausted name size => s!"stack frame exhausted: no room for '{name}' in {size} bytes"
  | noSlot name => s!"unresolved name: no stack slot for '{name}'"
  | noInterval name => s!"unresolved name: no interval for '{name}'"

/-- The stack frame of a function. Offsets are relative to the stack pointer
inside the function. -/
structure Frame where
  size : Int64
  /-- The offset of the last slot given out; the frame's size at first. -/
  next : Int64
  /-- The names with a slot in the order of their first slot, with offsets. -/
  slots : List (String × Int64) := []
  deriving DecidableEq, Repr

namespace Frame

/-- An empty frame. -/
def ofSize (size : Int64) : Frame :=
  { size, next := size }

/-- The offset of a name's slot. -/
def offset? (f : Frame) (name : String) : Option Int64 :=
  f.slots.lookup name

/-- Record the offset of a name, in the place of an earlier one if there is. -/
def setOffset (name : String) (offset : Int64) : List (String × Int64) → List (String × Int64)
  | [] => [(name, offset)]
  | (other, old) :: rest =>
    if other = name then (name, offset) :: rest else (other, old) :: setOffset name offset rest

/-- Give a name a new slot. -/
def allocate (f : Frame) (name : String) : Except PlacementFault (Int64 × Frame) :=
  let offset := f.next - slotSize
  if offset < 0 then .error (.exhausted name f.size)
  else .ok (offset, { f with next := offset, slots := setOffset name offset f.slots })

/-- Look up the slot of a name. -/
def resolve (f : Frame) (name : String) : Except PlacementFault Int64 :=
  match f.offset? name with
  | some offset => .ok offset
  | none => .error (.noSlot name)

/-- The slot of a name, which is given out on first use. -/
def slotFor (f : Frame) (name : String) : Except PlacementFault (Int64 × Frame) :=
  match f.offset? name with
  | some offset => .ok (offset, f)
  | none => f.allocate name

/-- The number of bytes given out. -/
def used (f : Frame) : Int64 :=
  f.size - f.next

end Frame

/-- What is known about names at some point. -/
structure Env where
  frameSize : Int64
  /-- The globals in the order of their first definition. -/
  globals : List Global := []
  /-- The locals of the current function that hide globals. -/
  hidden : List String := []
  frame : Frame
  deriving DecidableEq, Repr

namespace Env

/-- An environment without globals. -/
def ofFrameSize (frameSize : Int64) : Env :=
  { frameSize, frame := .ofSize frameSize }

/-- Whether a global with a given name was defined. -/
def defines (env : Env) (name : String) : Bool :=
  env.globals.any fun g => g.name = name

/-- Define a global. A second definition keeps the place of the first and
replaces its value. -/
def define (env : Env) (global : Global) : Env :=
  if env.defines global.name then
    { env with globals := env.globals.map fun g => if g.name = global.name then global else g }
  else { env with globals := env.globals ++ [global] }

/-- Hide a global behind a local for the rest of the function. -/
def hide (env : Env) (name : String) : Env :=
  { env with hidden := name :: env.hidden }

/-- Whether a local hides its name. -/
def isHidden (env : Env) (name : String) : Bool :=
  env.hidden.contains name

/-- Whether a name means a global at this point. -/
def isGlobal (env : Env) (name : String) : Bool :=
  env.defines name && !env.isHidden name

/-- Start a function with an empty frame and nothing hidden. -/
def beginFunction (env : Env) : Env :=
  { env with hidden := [], frame := .ofSize env.frameSize }

/-- Give a name a new slot. -/
def allocate (env : Env) (name : String) : Except PlacementFault (Int64 × Env) :=
  (env.frame.allocate name).map fun (offset, frame) => (offset, { env with frame })

/-- The slot of a name, which is given out on first use. -/
def slotFor (env : Env) (name : String) : Except PlacementFault (Int64 × Env) :=
  (env.frame.slotFor name).map fun (offset, frame) => (offset, { env with frame })

end Env

end RiscBackend.Lower
