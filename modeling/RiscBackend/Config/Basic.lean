/-
# Configuration

A configuration says which backend runs, which registers and how much stack it
may use, and which features and warnings are on. Setters refuse values that would
break the lowering and then leave the configuration as it was.
-/

namespace RiscBackend

/-- The member of a list with a number from zero on. -/
def numbered? {α : Type} (members : List α) (number : Int) : Option α :=
  if number < 0 then none else members[number.toNat]?

/-- Behaviours of the backend that can be switched. -/
inductive Feature where
  | strict
  | annotate
  | validate
  deriving DecidableEq, Repr

/-- Warnings that can be switched. -/
inductive Warning where
  | unresolved
  | spill
  | frame
  | extra
  deriving DecidableEq, Repr

namespace Feature

/-- All features, in the order of their numbers. -/
def all : List Feature := [strict, annotate, validate]

/-- The name used in flags. -/
def name : Feature → String
  | strict => "strict"
  | annotate => "annotate"
  | validate => "validate"

/-- The state before any flag. -/
def initial : Feature → Bool
  | validate => true
  | _ => false

/-- What the feature does. -/
def describe : Feature → String
  | strict => "Fail translation on unresolved references instead of emitting a default."
  | annotate => "Annotate spill, reload and write-back instructions with comments."
  | validate => "Reject structurally malformed IR before translation."

/-- The feature with a given name. -/
def ofName? (name : String) : Option Feature :=
  all.find? fun f => f.name = name

/-- The feature with a given number. -/
def ofNumber? (number : Int) : Option Feature :=
  numbered? all number

end Feature

namespace Warning

/-- All warnings, in the order of their numbers. -/
def all : List Warning := [unresolved, spill, frame, extra]

/-- The name used in flags. -/
def name : Warning → String
  | unresolved => "unresolved"
  | spill => "spill"
  | frame => "frame"
  | extra => "extra"

/-- The state before any flag. -/
def initial : Warning → Bool
  | spill => false
  | _ => true

/-- What the warning is about. -/
def describe : Warning → String
  | unresolved => "Warn when a name has no interval or stack slot."
  | spill => "Report every value evicted from its register."
  | frame => "Warn when a function uses more than half of its stack frame."
  | extra => "Enable extra miscellaneous warnings (e.g., unrecognized flags)."

/-- The warning with a given name. -/
def ofName? (name : String) : Option Warning :=
  all.find? fun w => w.name = name

/-- The warning with a given number. -/
def ofNumber? (number : Int) : Option Warning :=
  numbered? all number

end Warning

/-- The backends. -/
inductive BackendName where
  | rv32
  | qbe
  deriving DecidableEq, Repr

/-- The name of a backend on the command line. -/
def BackendName.text : BackendName → String
  | .rv32 => "rv32"
  | .qbe => "qbe"

/-- The registers given out by default, in order of preference. -/
def defaultRegisters : List String :=
  ["t2", "t3", "t4", "t5", "t6", "a0", "a1", "a2", "a3", "a4", "a5", "a6", "s0", "s1", "s2", "s3",
   "s4", "s5", "s6", "s7", "s8", "s9", "s10", "s11"]

/-- The size of a machine word in bytes. -/
def wordSize : Int64 := 4

/-- The settings of the backends. -/
structure Config where
  feature : Feature → Bool := Feature.initial
  warning : Warning → Bool := Warning.initial
  backend : BackendName := .rv32
  /-- The machine that the backend generates code for. -/
  target : String := "rv32"
  /-- The processor family of the target. -/
  arch : String := "riscv32"
  /-- The size of every function's stack frame in bytes. -/
  frameSize : Int64 := 1024
  /-- The registers that hold values, in order of preference. -/
  registers : List String := defaultRegisters
  /-- The registers in which operations are computed. -/
  scratch : String × String := ("t0", "t1")
  returnRegister : String := "a0"
  stackRegister : String := "sp"
  syscallRegister : String := "a7"
  exitSyscall : Int32 := 93

/-- Why a setting is refused. -/
inductive ConfigFault where
  | noTarget (target : String)
  | unsupportedBackend (backend : String)
  | emptyPool
  | emptyRegister
  | repeatedRegister (name : String)
  | reservedRegister (name : String)
  | frameSize (size : Int64)
  deriving DecidableEq, Repr

/-- The wording of a refusal. -/
def ConfigFault.message : ConfigFault → String
  | noTarget target => s!"rv32 backend has no target '{target}'"
  | unsupportedBackend backend =>
    s!"unsupported backend '{backend}'. Supported: 'rv32', 'qbe'"
  | emptyPool => "register pool cannot be empty"
  | emptyRegister => "empty register name"
  | repeatedRegister name => s!"register '{name}' listed twice"
  | reservedRegister name => s!"register '{name}' is reserved"
  | frameSize size => s!"frame size {size} must be a positive multiple of {wordSize}"

namespace Config

/-- Switch a feature. -/
def setFeature (c : Config) (f : Feature) (enabled : Bool) : Config :=
  { c with feature := fun g => if g = f then enabled else c.feature g }

/-- Switch a warning. -/
def setWarning (c : Config) (w : Warning) (enabled : Bool) : Config :=
  { c with warning := fun v => if v = w then enabled else c.warning v }

/-- Switch the feature with a number, if there is one. -/
def setFeatureNumber (c : Config) (number : Int) (enabled : Bool) : Config :=
  match Feature.ofNumber? number with
  | some f => c.setFeature f enabled
  | none => c

/-- Switch the warning with a number, if there is one. -/
def setWarningNumber (c : Config) (number : Int) (enabled : Bool) : Config :=
  match Warning.ofNumber? number with
  | some w => c.setWarning w enabled
  | none => c

/-- Whether there is a feature with a number and it is on. -/
def isFeatureOn (c : Config) (number : Int) : Bool :=
  (Feature.ofNumber? number).any c.feature

/-- Whether there is a warning with a number and it is on. -/
def isWarningOn (c : Config) (number : Int) : Bool :=
  (Warning.ofNumber? number).any c.warning

/-- Whether a register has a fixed role that excludes it from the pool. -/
def isReserved (c : Config) (name : String) : Bool :=
  name = c.scratch.1 || name = c.scratch.2 || name = c.stackRegister || name = c.syscallRegister

/-- Check registers for a pool after those already `seen`. -/
def checkRegisters (c : Config) (seen : List String) : List String → Except ConfigFault Unit
  | [] => .ok ()
  | name :: rest =>
    if name = "" then .error .emptyRegister
    else if seen.contains name then .error (.repeatedRegister name)
    else if c.isReserved name then .error (.reservedRegister name)
    else checkRegisters c (name :: seen) rest

/-- Replace the pool of registers. -/
def setRegisters (c : Config) (names : List String) : Except ConfigFault Config :=
  if names.isEmpty then .error .emptyPool
  else match c.checkRegisters [] names with
    | .error fault => .error fault
    | .ok () => .ok { c with registers := names }

/-- Replace the size of the stack frames. -/
def setFrameSize (c : Config) (size : Int64) : Except ConfigFault Config :=
  if size ≤ 0 || size % wordSize != 0 then .error (.frameSize size)
  else .ok { c with frameSize := size }

end Config

end RiscBackend
