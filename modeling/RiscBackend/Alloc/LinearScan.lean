/-
# Linear scan

Registers are given out in one pass over the intervals in the order of their
starts. An interval takes the first register of the pool that is free. When none
is, the interval that ends last among those in registers is evicted at the start
of the new one, which takes over its register.

A register is identified by its slot, its index in the pool, and an interval by
its index in the given list, so equal names of registers or intervals cause no
confusion.
-/

import RiscBackend.Alloc.Interval

namespace RiscBackend.Alloc

/-- Why an allocation fails. The last two would mean a full set of registers
without a register to free; they do not arise from a pool that is not empty. -/
inductive AllocationFault where
  | emptyPool
  | noFreeRegister (name : String)
  | nothingToEvict (name : String)
  deriving DecidableEq, Repr

/-- The wording of an allocation fault. -/
def AllocationFault.message : AllocationFault → String
  | emptyPool => "register pool is empty"
  | noFreeRegister name =>
    "no evictable interval in active set: no free register for " ++ name
  | nothingToEvict name => "no evictable interval in active set: while placing " ++ name

/-- An interval that holds a register, with the position at which it ends. -/
structure Holding where
  slot : Nat
  interval : Nat
  stop : Int
  deriving DecidableEq, Repr

namespace Holding

/-- Insert a holding into a list ordered by the ends, after its equals. -/
def insert (new : Holding) : List Holding → List Holding
  | [] => [new]
  | h :: rest => if new.stop < h.stop then new :: h :: rest else h :: insert new rest

/-- The holding that ends last; of several, the first in the list. -/
def furthest? : List Holding → Option Holding
  | [] => none
  | h :: rest =>
    match furthest? rest with
    | none => some h
    | some best => if h.stop < best.stop then some best else some h

/-- The first slot of a pool that no holding occupies. -/
def freeSlot? (size : Nat) (active : List Holding) : Option Nat :=
  (List.range size).find? fun slot => active.all fun h => h.slot != slot

end Holding

/-- The intervals as assigned so far and the registers in use, ordered by the
ends of the intervals that hold them. -/
structure Allocation where
  intervals : List Interval
  active : List Holding := []
  deriving DecidableEq, Repr

namespace Allocation

/-- Free the registers whose intervals end before a position. -/
def expire (a : Allocation) (position : Int) : Allocation :=
  { a with active := a.active.dropWhile fun h => h.stop < position }

/-- Give a register to an interval. -/
def occupy (a : Allocation) (slot : Nat) (register : String) (index : Nat) (iv : Interval) :
    Allocation where
  intervals := a.intervals.modify index fun iv => { iv with register }
  active := Holding.insert { slot, interval := index, stop := iv.stop } a.active

/-- Take the register away from a holding. -/
def evict (a : Allocation) (victim : Holding) (position : Int) : Allocation where
  intervals := a.intervals.modify victim.interval fun iv => { iv with spillAt := position }
  active := a.active.filter fun h => h.slot != victim.slot

/-- Place the interval with a given index. -/
def place (pool : List String) (a : Allocation) (index : Nat) (iv : Interval) :
    Except AllocationFault Allocation :=
  let a := a.expire iv.start
  if a.active.length < pool.length then
    match Holding.freeSlot? pool.length a.active with
    | none => .error (.noFreeRegister iv.name)
    | some slot => .ok (a.occupy slot (pool.getD slot "") index iv)
  else
    match Holding.furthest? a.active with
    | none => .error (.nothingToEvict iv.name)
    | some victim =>
      .ok ((a.evict victim iv.start).occupy victim.slot (pool.getD victim.slot "") index iv)

/-- Place intervals one after another. -/
def placeAll (pool : List String) :
    Allocation → List (Interval × Nat) → Except AllocationFault Allocation
  | a, [] => .ok a
  | a, (iv, index) :: rest =>
    match a.place pool index iv with
    | .error fault => .error fault
    | .ok a => placeAll pool a rest

/-- The interval that holds a register at the end of the scan. -/
def holder? (a : Allocation) (slot : Nat) : Option Interval :=
  (a.active.find? fun h => h.slot = slot).bind fun h => a.intervals[h.interval]?

end Allocation

/-- A register of the pool and the interval that holds it, if any. -/
structure Register where
  name : String
  holds : Option Interval := none
  deriving DecidableEq, Repr

/-- The text of a register: its name, and the interval that holds it if any. -/
def Register.text (r : Register) : String :=
  match r.holds with
  | some iv => "\x7b" ++ r.name ++ ", " ++ iv.text ++ "\x7d"
  | none => r.name

/-- A fixed, ordered set of registers. -/
abbrev Pool := List Register

/-- A pool of registers that hold nothing. -/
def Pool.ofNames (names : List String) : Pool :=
  names.map fun name => { name }

/-- The names of the registers of a pool, in order. -/
def Pool.names (pool : Pool) : List String :=
  pool.map Register.name

/-- The indexed intervals in the order in which they are placed: by their starts,
equal starts in the given order. -/
def scanOrder (intervals : List Interval) : List (Interval × Nat) :=
  intervals.zipIdx.mergeSort fun a b => a.1.start ≤ b.1.start

/-- Assign the registers with the given names to intervals. -/
def assign (names : List String) (intervals : List Interval) :
    Except AllocationFault Allocation :=
  if names.isEmpty then .error .emptyPool
  else Allocation.placeAll names { intervals } (scanOrder intervals)

/-- Assign the registers of a pool to intervals. The intervals keep their order,
and the registers are left with the intervals that hold them at the end. What they
held before is forgotten. -/
def allocate (pool : Pool) (intervals : List Interval) :
    Except AllocationFault (List Interval × Pool) :=
  (assign pool.names intervals).map fun a =>
    (a.intervals, pool.names.zipIdx.map fun (name, slot) => { name, holds := a.holder? slot })

end RiscBackend.Alloc
