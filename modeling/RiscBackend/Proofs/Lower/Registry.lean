/-
# The environment in place

The lowering threads an environment through as a value. The same environment can be kept as
one record that is changed in place: next to the list of globals there is a map to their values,
next to the map to slots there is a list of the names that have one, and an operation that
fails leaves the record as it is at that point. Here the operations are written out with their
checks and assignments. They stay in step with the functions on environments, answer by answer,
and a failure leaves such a function without a new environment and the record as it was.
-/

import Mathlib.Logic.Function.Basic
import RiscBackend.Proofs.Lower.Frame
import RiscBackend.Proofs.Procedure

namespace RiscBackend.Lower

open IR (Global)
open Procedure

/-! ### Operations -/

/-- A stack frame that is changed in place. -/
structure Ledger where
  size : Int64
  next : Int64
  /-- The offsets of the names that have a slot. -/
  slots : String → Option Int64 := fun _ => none
  /-- The names that have a slot, in the order of their first slot. -/
  names : List String := []

namespace Ledger

/-- An empty frame. -/
def ofSize (size : Int64) : Ledger :=
  { size, next := size }

/-- The number of bytes given out. -/
def used (l : Ledger) : Int64 :=
  l.size - l.next

/-- Give a name a new slot. -/
def allocate (name : String) : Procedure Ledger PlacementFault Int64 := do
  let size := (← get).size
  refuseWhen (fun l => l.next - slotSize < 0) (.exhausted name size)
  modify fun l => { l with next := l.next - slotSize }
  modify fun l => if (l.slots name).isNone then { l with names := l.names ++ [name] } else l
  modify fun l => { l with slots := Function.update l.slots name (some l.next) }
  return (← get).next

/-- Look up the slot of a name. -/
def resolve (name : String) : Procedure Ledger PlacementFault Int64 := do
  match (← get).slots name with
  | some offset => return offset
  | none => throw (.noSlot name)

end Ledger

/-- An environment that is changed in place. -/
structure Registry where
  frameSize : Int64
  /-- The globals in the order of their first definition. -/
  globals : List Global := []
  /-- The values of the globals. -/
  values : String → Option Int32 := fun _ => none
  /-- The locals of the current function that hide globals. -/
  shadowed : String → Bool := fun _ => false
  frame : Ledger

namespace Registry

/-- A registry without globals. -/
def ofFrameSize (frameSize : Int64) : Registry :=
  { frameSize, frame := .ofSize frameSize }

/-- Whether a name means a global at this point. -/
def isGlobal (r : Registry) (name : String) : Bool :=
  (r.values name).isSome && !r.shadowed name

/-- The list of globals with a new value. A name that has a value keeps its place. -/
def listed (r : Registry) (name : String) (value : Int32) : List Global :=
  if (r.values name).isSome then
    r.globals.map fun g => if g.name = name then { g with value } else g
  else r.globals ++ [⟨name, value⟩]

/-- Define a global, in the list first. -/
def define (name : String) (value : Int32) : Procedure Registry PlacementFault Unit := do
  modify fun r => { r with globals := r.listed name value }
  modify fun r => { r with values := Function.update r.values name (some value) }

/-- Hide a global behind a local for the rest of the function. -/
def shadow (name : String) : Procedure Registry PlacementFault Unit :=
  modify fun r => { r with shadowed := Function.update r.shadowed name true }

/-- Start a function with an empty frame and nothing hidden. -/
def beginFunction : Procedure Registry PlacementFault Unit := do
  modify fun r => { r with shadowed := fun _ => false }
  modify fun r => { r with frame := .ofSize r.frameSize }

/-- Carry an operation out on the frame. -/
def onFrame (p : Procedure Ledger PlacementFault Int64) :
    Procedure Registry PlacementFault Int64 :=
  p.zoom frame fun r frame => { r with frame }

/-- The slot of a name, which is given out on first use. -/
def slotFor (name : String) : Procedure Registry PlacementFault Int64 :=
  tryCatch (onFrame (Ledger.resolve name)) fun _ => onFrame (Ledger.allocate name)

end Registry

/-- What an environment can be asked. -/
inductive Request where
  | define (name : String) (value : Int32)
  | hide (name : String)
  | beginFunction
  | allocate (name : String)
  | resolve (name : String)
  | slotFor (name : String)
  deriving DecidableEq, Repr

/-- Carry a request out in place. The answer to a request about a slot is an offset. -/
def Request.perform : Request → Procedure Registry PlacementFault (Option Int64)
  | define name value => (fun _ => none) <$> Registry.define name value
  | hide name => (fun _ => none) <$> Registry.shadow name
  | beginFunction => (fun _ => none) <$> Registry.beginFunction
  | allocate name => some <$> Registry.onFrame (Ledger.allocate name)
  | resolve name => some <$> Registry.onFrame (Ledger.resolve name)
  | slotFor name => some <$> Registry.slotFor name

/-! ### What the operations do -/

namespace Ledger

/-- The frame after a name was given a slot. -/
def grant (l : Ledger) (name : String) : Ledger where
  size := l.size
  next := l.next - slotSize
  slots := Function.update l.slots name (some (l.next - slotSize))
  names := if (l.slots name).isNone then l.names ++ [name] else l.names

theorem slots_grant (l : Ledger) (name other : String) :
    (l.grant name).slots other =
      if other = name then some (l.next - slotSize) else l.slots other :=
  Function.update_apply ..

theorem run_allocate (name : String) (l : Ledger) :
    (allocate name).run l =
      if l.next - slotSize < 0 then (.error (.exhausted name l.size), l)
      else (.ok (l.next - slotSize), l.grant name) := by
  rw [allocate, run_get_bind, run_refuseWhen_bind]
  simp only [decide_eq_true_eq]
  split
  · rfl
  · rw [run_modify_bind, run_modify_bind, run_modify_bind, run_get_bind, grant]
    cases l.slots name <;> rfl

theorem run_resolve (name : String) (l : Ledger) :
    (resolve name).run l =
      match l.slots name with
      | some offset => (.ok offset, l)
      | none => (.error (.noSlot name), l) := by
  rw [resolve, run_get_bind]
  cases l.slots name <;> rfl

end Ledger

namespace Request

variable {name : String} {r : Registry}

theorem run_allocate_of_full (full : r.frame.next - slotSize < 0) :
    (allocate name).perform.run r = (.error (.exhausted name r.frame.size), r) := by
  rw [perform, run_map, Registry.onFrame, run_zoom, Ledger.run_allocate, if_pos full]
  rfl

theorem run_allocate_of_room (room : ¬ r.frame.next - slotSize < 0) :
    (allocate name).perform.run r =
      (.ok (some (r.frame.next - slotSize)), { r with frame := r.frame.grant name }) := by
  rw [perform, run_map, Registry.onFrame, run_zoom, Ledger.run_allocate, if_neg room]
  rfl

theorem run_resolve_of_some {offset : Int64} (found : r.frame.slots name = some offset) :
    (resolve name).perform.run r = (.ok (some offset), r) := by
  rw [perform, run_map, Registry.onFrame, run_zoom, Ledger.run_resolve, found]
  rfl

theorem run_resolve_of_none (missing : r.frame.slots name = none) :
    (resolve name).perform.run r = (.error (.noSlot name), r) := by
  rw [perform, run_map, Registry.onFrame, run_zoom, Ledger.run_resolve, missing]
  rfl

theorem run_slotFor_of_some {offset : Int64} (found : r.frame.slots name = some offset) :
    (slotFor name).perform.run r = (.ok (some offset), r) := by
  rw [perform, run_map, Registry.slotFor, run_tryCatch, Registry.onFrame, run_zoom,
    Ledger.run_resolve, found]
  rfl

/-- Asking for the slot of a name that has none is asking for a new slot. -/
theorem run_slotFor_of_none (missing : r.frame.slots name = none) :
    (slotFor name).perform.run r = (allocate name).perform.run r := by
  rw [perform, perform, run_map, run_map, Registry.slotFor, run_tryCatch, Registry.onFrame,
    run_zoom, Ledger.run_resolve, missing]

/-- A request that fails leaves everything as it was. -/
theorem run_of_fault {request : Request} {r' : Registry} {fault : PlacementFault}
    (failed : request.perform.run r = (.error fault, r')) : r' = r := by
  have kept {name : String} (failed : (allocate name).perform.run r = (.error fault, r')) :
      r' = r := by
    by_cases full : r.frame.next - slotSize < 0
    · rw [run_allocate_of_full full] at failed
      exact (Prod.mk.inj failed).2.symm
    · rw [run_allocate_of_room full] at failed
      cases failed
  cases request with
  | define name value => cases failed
  | hide name => cases failed
  | beginFunction => cases failed
  | allocate name => exact kept failed
  | resolve name =>
    cases known : r.frame.slots name with
    | some offset =>
      rw [run_resolve_of_some known] at failed
      cases failed
    | none =>
      rw [run_resolve_of_none known] at failed
      exact (Prod.mk.inj failed).2.symm
  | slotFor name =>
    cases known : r.frame.slots name with
    | some offset =>
      rw [run_slotFor_of_some known] at failed
      cases failed
    | none => exact kept (run_slotFor_of_none known ▸ failed)

end Request

/-! ### In step with the functions on environments -/

/-- Answer a request by a new environment. -/
def Env.serve (env : Env) : Request → Except PlacementFault (Option Int64 × Env)
  | .define name value => .ok (none, env.define ⟨name, value⟩)
  | .hide name => .ok (none, env.hide name)
  | .beginFunction => .ok (none, env.beginFunction)
  | .allocate name => (env.allocate name).map fun (offset, env) => (some offset, env)
  | .resolve name => (env.frame.resolve name).map fun offset => (some offset, env)
  | .slotFor name => (env.slotFor name).map fun (offset, env) => (some offset, env)

/-- The environment after a list of requests. A request that fails gives no new environment,
and the one at hand stays in use. -/
def Env.served (env : Env) : List Request → Env
  | [] => env
  | request :: rest =>
    match env.serve request with
    | .ok (_, next) => next.served rest
    | .error _ => env.served rest

/-- Whether a frame in place shows a frame. -/
structure Ledger.Shows (l : Ledger) (f : Frame) : Prop where
  size : l.size = f.size
  next : l.next = f.next
  slots : ∀ name, l.slots name = f.offset? name
  names : l.names = f.slots.map Prod.fst

/-- Whether a registry shows an environment. -/
structure Registry.Shows (r : Registry) (env : Env) : Prop where
  frameSize : r.frameSize = env.frameSize
  globals : r.globals = env.globals
  values : ∀ name, (r.values name).isSome = env.defines name
  shadowed : ∀ name, r.shadowed name = env.isHidden name
  frame : r.frame.Shows env.frame

/-- Whether a request that was carried out in place had the outcome that a function on
environments gives. If there is no new environment, the registry must be as it was. -/
def Registry.Follows (r : Registry) (outcome : Except PlacementFault (Option Int64) × Registry) :
    Except PlacementFault (Option Int64 × Env) → Prop
  | .ok (answer, env) => outcome.1 = .ok answer ∧ outcome.2.Shows env
  | .error fault => outcome = (.error fault, r)

namespace Ledger.Shows

variable {l : Ledger} {f : Frame}

theorem ofSize (size : Int64) : (Ledger.ofSize size).Shows (.ofSize size) where
  size := rfl
  next := rfl
  slots _ := rfl
  names := rfl

theorem grant (shows : l.Shows f) (name : String) :
    (l.grant name).Shows
      { f with
        next := f.next - slotSize
        slots := Frame.setOffset name (f.next - slotSize) f.slots } where
  size := shows.size
  next := congrArg (· - slotSize) shows.next
  slots other := by
    rw [Ledger.slots_grant, shows.next, shows.slots]
    exact (Frame.lookup_setOffset name _ f.slots other).symm
  names := by
    have isNew : (l.slots name).isNone ↔ name ∉ f.slots.map Prod.fst := by
      rw [shows.slots, Option.isNone_iff_eq_none, f.offset?_eq_none_iff]
    rw [Frame.keys_setOffset, Ledger.grant, shows.names]
    by_cases known : name ∈ f.slots.map Prod.fst
    · rw [if_pos known, if_neg fun none => isNew.mp none known]
    · rw [if_neg known, if_pos (isNew.mpr known)]

end Ledger.Shows

theorem Env.defines_define (env : Env) (global : Global) (name : String) :
    (env.define global).defines name = (decide (name = global.name) || env.defines name) := by
  rw [Bool.eq_iff_iff, Bool.or_eq_true, decide_eq_true_eq, define]
  by_cases known : env.defines global.name
  · have named (g : Global) : (if g.name = global.name then global else g).name = g.name := by
      split
      · rename_i same
        exact same.symm
      · rfl
    rw [if_pos known]
    simp only [defines, List.any_map, Function.comp_def, named]
    exact (or_iff_right_of_imp fun same => same ▸ known).symm
  · rw [if_neg known]
    simp only [defines, List.any_append, List.any_cons, List.any_nil, Bool.or_false,
      Bool.or_eq_true, decide_eq_true_eq]
    exact or_comm.trans (or_congr_left eq_comm)

namespace Registry.Shows

variable {r : Registry} {env : Env}

theorem ofFrameSize (size : Int64) : (Registry.ofFrameSize size).Shows (.ofFrameSize size) where
  frameSize := rfl
  globals := rfl
  values _ := rfl
  shadowed _ := rfl
  frame := .ofSize size

theorem isGlobal (shows : r.Shows env) (name : String) : r.isGlobal name = env.isGlobal name := by
  rw [Registry.isGlobal, Env.isGlobal, shows.values, shows.shadowed]

theorem listed (shows : r.Shows env) (name : String) (value : Int32) :
    r.listed name value = (env.define ⟨name, value⟩).globals := by
  rw [Registry.listed, Env.define, shows.values, shows.globals]
  split
  · apply List.map_congr_left
    intro g _
    split
    · rename_i same
      rw [same]
    · rfl
  · rfl

theorem define (shows : r.Shows env) (name : String) (value : Int32) :
    Shows
      { r with
        globals := r.listed name value
        values := Function.update r.values name (some value) }
      (env.define ⟨name, value⟩) where
  frameSize := by
    rw [Env.define]
    split <;> exact shows.frameSize
  globals := shows.listed name value
  values other := by
    rw [Env.defines_define, ← shows.values]
    show (Function.update r.values name (some value) other).isSome = _
    rw [Function.update_apply]
    by_cases same : other = name <;> simp [same]
  shadowed other := by
    rw [Env.define]
    split <;> exact shows.shadowed other
  frame := by
    rw [Env.define]
    split <;> exact shows.frame

theorem hide (shows : r.Shows env) (name : String) :
    Shows { r with shadowed := Function.update r.shadowed name true } (env.hide name) where
  frameSize := shows.frameSize
  globals := shows.globals
  values := shows.values
  shadowed other := by
    show Function.update r.shadowed name true other = (name :: env.hidden).contains other
    rw [Function.update_apply, shows.shadowed, Env.isHidden, List.contains_cons]
    by_cases same : other = name <;> simp [same]
  frame := shows.frame

theorem beginFunction (shows : r.Shows env) :
    Shows { r with shadowed := fun _ => false, frame := .ofSize r.frameSize }
      env.beginFunction where
  frameSize := shows.frameSize
  globals := shows.globals
  values := shows.values
  shadowed _ := rfl
  frame := shows.frameSize ▸ .ofSize r.frameSize

theorem withFrame (shows : r.Shows env) {l : Ledger} {f : Frame} (framed : l.Shows f) :
    Shows { r with frame := l } { env with frame := f } where
  frameSize := shows.frameSize
  globals := shows.globals
  values := shows.values
  shadowed := shows.shadowed
  frame := framed

theorem allocate (shows : r.Shows env) (name : String) :
    r.Follows ((Request.allocate name).perform.run r) (env.serve (.allocate name)) := by
  have next := shows.frame.next
  rw [Env.serve, Env.allocate, Frame.allocate]
  by_cases full : r.frame.next - slotSize < 0
  · rw [Request.run_allocate_of_full full, if_pos (next ▸ full), shows.frame.size]
    rfl
  · rw [Request.run_allocate_of_room full, if_neg (next ▸ full), next]
    exact ⟨rfl, shows.withFrame (shows.frame.grant name)⟩

/-- **A request has the same outcome in place and on environments.** -/
theorem perform (shows : r.Shows env) (request : Request) :
    r.Follows (request.perform.run r) (env.serve request) := by
  cases request with
  | define name value => exact ⟨rfl, shows.define name value⟩
  | hide name => exact ⟨rfl, shows.hide name⟩
  | beginFunction => exact ⟨rfl, shows.beginFunction⟩
  | allocate name => exact shows.allocate name
  | resolve name =>
    have slots := shows.frame.slots name
    rw [Env.serve, Frame.resolve, ← slots]
    cases known : r.frame.slots name with
    | some offset =>
      rw [Request.run_resolve_of_some known]
      exact ⟨rfl, shows⟩
    | none => exact Request.run_resolve_of_none known
  | slotFor name =>
    have slots := shows.frame.slots name
    rw [Env.serve, Env.slotFor, Frame.slotFor, ← slots]
    cases known : r.frame.slots name with
    | some offset =>
      rw [Request.run_slotFor_of_some known]
      exact ⟨rfl, shows⟩
    | none =>
      rw [Request.run_slotFor_of_none known]
      exact shows.allocate name

end Registry.Shows

end RiscBackend.Lower
