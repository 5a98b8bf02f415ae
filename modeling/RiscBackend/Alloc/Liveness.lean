/-
# Occurrences of names

One walk over a block finds the interval of every local, and one walk over a
function finds the names that occur in more than one of its blocks. Instructions
that are not lowered have no occurrences.
-/

import RiscBackend.Alloc.Interval
import RiscBackend.IR.Basic

namespace RiscBackend.Alloc

open IR (Instruction Block Func)

/-- Whether the operand at an index is overwritten and not read: the second
operand of a store is. -/
def accessOf (i : Instruction) (index : Nat) : Access :=
  if i.opcode = .store && index = 1 then .write else .read

/-- The occurrences of operands that are locals, in order. The empty name is no
operand. -/
def operandTouches (isLocal : String → Bool) (i : Instruction) : List (String × Access) :=
  i.args.zipIdx.filterMap fun (arg, index) =>
    match arg.name? with
    | some name => if name != "" && isLocal name then some (name, accessOf i index) else none
    | none => none

/-- The occurrences of locals in an instruction. The result comes first, and it
is always a local. -/
def touches (isLocal : String → Bool) (i : Instruction) : List (String × Access) :=
  if i.opcode = .other then []
  else (i.result.map fun name => (name, Access.write)).toList ++ operandTouches isLocal i

/-- The names that an instruction declares as locals, hiding globals. -/
def declares (i : Instruction) : List String :=
  if i.opcode = .alloca then i.result.toList else []

/-- Walk over instructions from a position, with the locals declared so far. -/
def analyzeFrom (isGlobal : String → Bool) :
    Int → List String → Table → List Instruction → Table
  | _, _, table, [] => table
  | position, declared, table, i :: rest =>
    let declared := declares i ++ declared
    let isLocal name := declared.contains name || !isGlobal name
    let table := (touches isLocal i).foldl (fun t (name, access) => t.touch position name access)
      table
    analyzeFrom isGlobal (position + 1) declared table rest

/-- The intervals of a block. A declaration makes its name a local for the rest
of the walk. -/
def analyze (block : Block) (isGlobal : String → Bool) : Table :=
  analyzeFrom isGlobal 0 [] {} block.body

/-- The names that occur in an instruction, whatever they mean. -/
def mentions (i : Instruction) : List String :=
  if i.opcode = .other then []
  else i.result.toList ++ (i.args.filterMap (·.name?)).filter (· != "")

/-- The block in which each name was first met, and the names met in another. -/
structure CrossScan where
  firstBlock : List (String × Nat) := []
  crossing : List String := []

/-- Record that a name occurs in a block. -/
def CrossScan.note (scan : CrossScan) (block : Nat) (name : String) : CrossScan :=
  match scan.firstBlock.lookup name with
  | none => { scan with firstBlock := (name, block) :: scan.firstBlock }
  | some first =>
    if first = block || scan.crossing.contains name then scan
    else { scan with crossing := scan.crossing ++ [name] }

/-- Record the occurrences of every block from an index on. -/
def CrossScan.blocks (scan : CrossScan) : Nat → List Block → CrossScan
  | _, [] => scan
  | index, b :: rest =>
    ((b.body.flatMap mentions).foldl (fun scan name => scan.note index name) scan).blocks
      (index + 1) rest

/-- The names that occur in more than one block of a function. -/
def crossing (f : Func) : List String :=
  (CrossScan.blocks {} 0 f.blocks).crossing

end RiscBackend.Alloc
