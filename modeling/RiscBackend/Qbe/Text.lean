/-
# QBE programs

The second backend hands a program to QBE as text in QBE's own intermediate
language. Programs are kept as statements over temporaries and words, and the
text is made from them at the end. Every local is a temporary; a global is read
into a temporary of its own just before it is used.
-/

import RiscBackend.Asm.Line
import RiscBackend.IR.Basic

namespace RiscBackend.Qbe

/-- A name with the characters replaced that a temporary cannot hold. -/
def safeName (name : String) : String :=
  String.ofList (name.toList.map fun c => if c = '-' || c = '$' || c = ' ' then '_' else c)

/-- A temporary: the value of a local, or the word just read from a global. -/
inductive Temp where
  | ofLocal (name : String)
  | ofGlobal (name : String)
  deriving DecidableEq, Repr

/-- The text of a temporary. -/
def Temp.text : Temp → String
  | ofLocal name => "%." ++ safeName name
  | ofGlobal name => "%.g." ++ safeName name

/-- An operand of a statement. -/
inductive Value where
  | const (value : Int32)
  | temp (t : Temp)
  | blank
  deriving DecidableEq, Repr

/-- The text of an operand. -/
def Value.text : Value → String
  | const value => toString value.toInt
  | temp t => t.text
  | blank => ""

/-- Statements of a function. -/
inductive Stmt where
  | label (name : String)
  | arith (target : Temp) (op : IR.ArithOp) (a b : Value)
  | copy (target : Temp) (value : Value)
  | loadw (target : Temp) (global : String)
  | storew (value : Value) (global : String)
  | ret (value : Value)
  deriving DecidableEq, Repr

/-- The text of a statement, with its line end. -/
def Stmt.text : Stmt → String
  | label name => "@" ++ name ++ "\n"
  | arith target op a b =>
    "\t" ++ target.text ++ " =w " ++ Asm.arithMnemonic op ++ " " ++ a.text ++ ", " ++ b.text ++ "\n"
  | copy target value => "\t" ++ target.text ++ " =w copy " ++ value.text ++ "\n"
  | loadw target global => "\t" ++ target.text ++ " =w loadw $" ++ global ++ "\n"
  | storew value global => "\tstorew " ++ value.text ++ ", $" ++ global ++ "\n"
  | ret value => "\tret " ++ value.text ++ "\n"

/-- A function and its statements. -/
structure Func where
  name : String
  body : List Stmt
  deriving DecidableEq, Repr

/-- The text of a function. -/
def Func.text (f : Func) : String :=
  "\nexport function w $" ++ f.name ++ "() \x7b\n" ++ String.join (f.body.map Stmt.text) ++ "\x7d\n"

/-- A program: words of data and functions. -/
structure Program where
  data : List IR.Global
  funcs : List Func
  deriving DecidableEq, Repr

/-- The text of a word of data. -/
def dataText (g : IR.Global) : String :=
  "data $" ++ g.name ++ " = \x7b w " ++ toString g.value.toInt ++ " \x7d\n"

/-- The text of a program. -/
def Program.text (p : Program) : String :=
  String.join (p.data.map dataText) ++ String.join (p.funcs.map Func.text)

end RiscBackend.Qbe
