/-
# Diagnostics

A diagnostic is one message about the input. It is placed either by a token in
a source file or by a position in the program being lowered, and it may name
the warning switch that controls it. Printing shows the source line below the
message and underlines the token.
-/

import RiscBackend.Source.Token
import RiscBackend.Text.Layout

namespace RiscBackend

open Source (Token)

/-- How grave a message is. -/
inductive Severity where
  | error
  | warning
  | info
  deriving DecidableEq, Repr

/-- The word for a severity. -/
def Severity.describe : Severity → String
  | .error => "error"
  | .warning => "warning"
  | .info => "info"

/-- The terminal colour of a severity. -/
def Severity.color : Severity → String
  | .error => "\x1b[31m"
  | .warning => "\x1b[33m"
  | .info => "\x1b[36m"

/-- A source file that diagnostics can quote. -/
structure SourceFile where
  /-- The name as given on the command line. -/
  name : String
  /-- The text of the file. -/
  text : String
  deriving Repr

namespace SourceFile

/-- What is left of a text after skipping a number of line ends. The last line
stands for all lines after it. -/
def skipLines : Nat → List Char → List Char
  | 0, cs => cs
  | count + 1, cs =>
    match cs.dropWhile (· != '\n') with
    | [] => cs
    | _ :: rest => skipLines count rest

/-- The line of a text with a given number, without its line end. -/
def lineAt (line : Int) (cs : List Char) : List Char :=
  (skipLines (line - 1).toNat cs).takeWhile (· != '\n')

/-- The file with a given index. -/
def find? (sources : List SourceFile) (index : Int) : Option SourceFile :=
  if index < 0 then none else sources[index.toNat]?

end SourceFile

/-- A message about the input. -/
structure Diagnostic where
  severity : Severity
  /-- The place in a source file; line zero means none. -/
  token : Token := {}
  /-- The place in the program, such as a function, block and position. -/
  place : String := ""
  /-- The warning switch that controls the message, if any. -/
  flag : String := ""
  message : String
  deriving DecidableEq, Repr

/-- The escape sequences of a terminal, or nothing at all. -/
inductive Style where
  | plain
  | colored
  deriving DecidableEq, Repr

namespace Diagnostic

/-- An error placed by a token. -/
def errorAt (token : Token) (message : String) : Diagnostic :=
  { severity := .error, token, message }

/-- A message of the program itself, without a place. -/
def bare (severity : Severity) (message : String) : Diagnostic :=
  { severity, message }

/-- Where a diagnostic points: to its token if that has a line, else to its
place in the program, else to the tool. -/
def location (sources : List SourceFile) (d : Diagnostic) : String :=
  if 0 < d.token.line then
    let name := ((SourceFile.find? sources d.token.file).map SourceFile.name).getD "unknown"
    s!"{name}:{d.token.line}:{d.token.column}"
  else if d.place = "" then "rvbe"
  else d.place

/-- The mark of the controlling switch, with a leading space. -/
def flagMark (d : Diagnostic) : String :=
  if d.flag = "" then "" else " [-W" ++ d.flag ++ "]"

/-- The one-line text of a diagnostic. -/
def text (sources : List SourceFile) (d : Diagnostic) : String :=
  d.location sources ++ ": " ++ d.severity.describe ++ ": " ++ d.message ++ d.flagMark

/-- The underline of a token: a caret under its first character and tildes under
the others. -/
def underline (style : Style) (token : Token) : String :=
  let column := if token.column < 1 then 1 else token.column
  let (green, reset) := match style with
    | .plain => ("", "")
    | .colored => ("\x1b[32m", "\x1b[0m")
  Text.spaces (column - 1).toNat ++ green ++ "^" ++
    String.ofList (List.replicate (token.length - 1).toNat '~') ++ reset

/-- The most blanks or tildes in a row that fit the memory of the machine, whose
addresses have 48 bits. -/
def runLimit : Int := 281474976710656

/-- Whether the underline of a token is short enough to be shown. -/
def underlineFits (token : Token) : Bool :=
  token.column - 1 ≤ runLimit && token.length - 1 ≤ runLimit

/-- The file whose line is quoted below the message, if the token has one. -/
def quoted? (sources : List SourceFile) (d : Diagnostic) : Option SourceFile :=
  if d.token.line = 0 then none else SourceFile.find? sources d.token.file

/-- Whether a diagnostic can be shown: one that quotes no line always can. -/
def printable (sources : List SourceFile) (d : Diagnostic) : Bool :=
  (d.quoted? sources).isNone || underlineFits d.token

/-- The quoted source line with the token underlined, when there is one. -/
def excerpt (sources : List SourceFile) (style : Style) (d : Diagnostic) : String :=
  match d.quoted? sources with
  | none => ""
  | some file =>
    "  " ++ String.ofList (SourceFile.lineAt d.token.line file.text.toList) ++ "\n" ++
      "  " ++ underline style d.token ++ "\n"

/-- What is shown to the user for one diagnostic. -/
def print (sources : List SourceFile) (style : Style) (d : Diagnostic) : String :=
  let (color, reset) := match style with
    | .plain => ("", "")
    | .colored => (d.severity.color, "\x1b[0m")
  d.location sources ++ ": " ++ color ++ d.severity.describe ++ ":" ++ reset ++ " " ++ d.message ++
    d.flagMark ++ "\n" ++ d.excerpt sources style

end Diagnostic

/-- Messages in the order in which they were reported. -/
abbrev Diagnostics := List Diagnostic

namespace Diagnostics

/-- Whether a message is an error. -/
def hasErrors (ds : Diagnostics) : Bool :=
  ds.any fun d => d.severity = .error

/-- The errors alone, as one text: a single error by itself, any other number
of them as a counted list. -/
def errorText (sources : List SourceFile) (ds : Diagnostics) : String :=
  let texts := (ds.filter fun d => d.severity = .error).map (·.text sources)
  match texts with
  | [single] => single
  | _ => s!"{texts.length} errors:\n  " ++ "\n  ".intercalate texts

/-- Whether all messages can be shown. -/
def printable (sources : List SourceFile) (ds : Diagnostics) : Bool :=
  ds.all fun d => d.printable sources

/-- What is shown to the user for all messages. -/
def print (sources : List SourceFile) (style : Style) (ds : Diagnostics) : String :=
  String.join (ds.map (·.print sources style))

end Diagnostics

end RiscBackend
