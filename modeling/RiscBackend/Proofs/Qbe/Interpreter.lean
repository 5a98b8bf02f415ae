/-
# Running the text of a QBE program

The meaning of a text in QBE's language is given by reading it line by line. Lines of
data give words to symbols. A function is the lines between its header and a closing
brace, and is run from its first line to the first return: labels are passed over, so
blocks fall through in order. Temporaries are told apart by their texts and by nothing
else.

A line is read when it is reached. A line of another form, a temporary that was never
written, a symbol without data, a division by zero and the end of the function without
a return have no meaning, and a run that meets one of them has no result.
-/

import RiscBackend.Proofs.IR.Interpreter

namespace RiscBackend.Qbe

/-- The parts of a text between separators. -/
def pieces (separator : Char) (text : String) : List String :=
  (text.toList.splitOn separator).map String.ofList

/-- What running code can read and write. -/
structure State where
  /-- The words of the temporaries; one that was not written has none. -/
  temps : String → Option Int32 := fun _ => none
  /-- The words of the symbols that have data. -/
  data : String → Option Int32

/-- How far a run has come. -/
inductive Progress where
  | running (t : State)
  | returned (value : Int32) (t : State)

/-- Run steps in order, up to the first return. -/
def runAll? {α : Type} (step? : State → α → Option Progress) :
    State → List α → Option Progress
  | t, [] => some (.running t)
  | t, a :: rest =>
    match step? t a with
    | some (.running t) => runAll? step? t rest
    | stopped => stopped

/-- Whether a word of a line is a temporary. -/
def isTemp (text : String) : Bool :=
  text.toList.head? = some '%'

/-- A word of a line without the comma at its end. -/
def beforeComma? (text : String) : Option String :=
  if text.toList.getLast? = some ',' then some (.ofList text.toList.dropLast) else none

/-- The operation with a given name. -/
def operation? : String → Option IR.ArithOp
  | "add" => some .add
  | "sub" => some .sub
  | "mul" => some .mul
  | "div" => some .sdiv
  | "rem" => some .srem
  | _ => none

namespace State

/-- The value of an operand: a temporary or a number. -/
def word? (t : State) (text : String) : Option Int32 :=
  if isTemp text then t.temps text else text.toInt?.map Int32.ofInt

/-- Write a temporary. -/
def setTemp (t : State) (text : String) (value : Int32) : State :=
  { t with temps := Function.update t.temps text (some value) }

/-- Write the data of a symbol. -/
def setData (t : State) (symbol : String) (value : Int32) : State :=
  { t with data := Function.update t.data symbol (some value) }

/-- Assign a value to a temporary. -/
def assign? (t : State) (target : String) (value : Option Int32) : Option Progress :=
  if isTemp target then value.map fun word => .running (t.setTemp target word) else none

/-- Store a value where a symbol has data. -/
def store? (t : State) (value : Option Int32) (symbol : String) : Option Progress :=
  if (t.data symbol).isSome then value.map fun word => .running (t.setData symbol word) else none

/-- Perform the statement that the words of a line make up. -/
def perform? (t : State) : List String → Option Progress
  | ["ret", value] => (t.word? value).map fun word => .returned word t
  | ["storew", value, symbol] => t.store? ((beforeComma? value).bind t.word?) symbol
  | [target, "=w", "copy", value] => t.assign? target (t.word? value)
  | [target, "=w", "loadw", symbol] => t.assign? target (t.data symbol)
  | [target, "=w", operation, a, b] => t.assign? target do
    let op ← operation? operation
    op.eval? (← (beforeComma? a).bind t.word?) (← t.word? b)
  | _ => none

/-- Run a line of a function: a label, or a statement after a tab. -/
def execute? (t : State) (line : String) : Option Progress :=
  match line.toList with
  | '@' :: _ => some (.running t)
  | '\t' :: statement => t.perform? (pieces ' ' (.ofList statement))
  | _ => none

end State

/-- The symbol and the word that a line of data gives. -/
def dataWord? (line : String) : Option (String × Int32) :=
  match pieces ' ' line with
  | ["data", symbol, "=", "\x7b", "w", value, "\x7d"] =>
    value.toInt?.map fun number => (symbol, .ofInt number)
  | _ => none

/-- The words that lines give to symbols. -/
def dataOf (lines : List String) (symbol : String) : Option Int32 :=
  ((lines.filterMap dataWord?).find? fun entry => entry.1 = symbol).map Prod.snd

/-- The line before the first line of a function. -/
def headerOf (name : String) : String :=
  "export function w $" ++ name ++ "() \x7b"

/-- The lines of a function. -/
def bodyOf (lines : List String) (name : String) : List String :=
  ((lines.dropWhile fun line => line ≠ headerOf name).drop 1).takeWhile fun line => line ≠ "\x7d"

/-- The value and the state with which a run returned. -/
def Progress.result? : Progress → Option (Int32 × State)
  | running _ => none
  | returned value t => some (value, t)

/-- Run a function of a program text: the value that it returns, and the state that it
leaves. -/
def interpret? (text name : String) : Option (Int32 × State) :=
  let lines := pieces '\n' text
  (runAll? State.execute? { data := dataOf lines } (bodyOf lines name)).bind Progress.result?

end RiscBackend.Qbe
