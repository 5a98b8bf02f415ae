/-
# Results of a golden run

Every tested file has one result. The report lists them in the order of the file
names, with a line of totals at the end, and is also kept as JSON.
-/

import RiscBackend.Files.Path
import RiscBackend.Text.Blank
import RiscBackend.Text.Digest
import RiscBackend.Text.Layout

namespace RiscBackend.Golden

open Files (Path)

/-- How a test ended. -/
inductive Status where
  | pass
  | fail
  | skip
  | error
  deriving DecidableEq, Repr

/-- The word for a status. -/
def Status.text : Status → String
  | pass => "PASS"
  | fail => "FAIL"
  | skip => "SKIP"
  | error => "ERROR"

/-- The terminal colour of a status. -/
def Status.color : Status → String
  | pass => "\x1b[92m"
  | fail => "\x1b[91m"
  | skip => "\x1b[93m"
  | error => "\x1b[91m"

/-- The result for one file. -/
structure Result where
  file : Path
  status : Status
  message : String
  /-- The digest of the assembly, if there was one. -/
  digest : Option UInt64 := none
  /-- How the assembly differs from what was expected; empty if it does not. -/
  diff : String := ""
  deriving DecidableEq, Repr

namespace Result

/-- The digest as it is shown; empty if there is none. -/
def digestText (r : Result) : String :=
  (r.digest.map Text.Digest.render).getD ""

/-- Whether the assembly differs from what was expected. -/
def differs (r : Result) : Bool :=
  r.diff != ""

/-- Whether a result makes the run fail. -/
def isBad (r : Result) : Bool :=
  r.status = .fail || r.status = .error

/-- A line of a difference as it is reported. What was expected and what came have the
colours of failing and passing; a blank line is left out. -/
def diffLine? (line : String) : Option String :=
  (line.toList.find? fun c => !Text.isBlank c).map fun first =>
    let color := match first with
      | '-' => Status.fail.color
      | '+' => Status.pass.color
      | _ => ""
    "        " ++ color ++ line ++ "\x1b[0m"

/-- The lines of the report about a result. -/
def lines (verbose : Bool) (r : Result) : List String :=
  ("[" ++ r.status.color ++ Text.padRight 5 r.status.text ++ "\x1b[0m] " ++ r.file.base ++ ": " ++
      r.message) ::
    (if verbose && r.digest.isSome then ["        digest " ++ r.digestText] else []) ++
    (Text.split '\n' r.diff).filterMap diffLine?

end Result

/-- The number of results with a status. -/
def countOf (status : Status) (results : List Result) : Nat :=
  (results.filter fun r => r.status = status).length

/-- The report for the terminal. -/
def report (verbose : Bool) (results : List Result) : String :=
  let totals := s!"{countOf .pass results} passed, {countOf .fail results} failed, " ++
    s!"{countOf .skip results} skipped, {countOf .error results} errors"
  String.join ((results.flatMap (·.lines verbose) ++ [totals]).map fun line => line ++ "\n")

/-- A text as a JSON string. -/
def jsonString (text : String) : String :=
  let char (c : Char) : String :=
    if c = '"' then "\\\""
    else if c = '\\' then "\\\\"
    else if c.toNat < 0x20 then "\\u" ++ Text.hexPadded 4 c.toNat
    else c.toString
  "\"" ++ String.join (text.toList.map char) ++ "\""

/-- A JSON object with one member on a line. -/
def jsonObject (margin : String) (members : List (String × String)) : String :=
  let lines := members.map fun (name, value) => margin ++ "  " ++ jsonString name ++ ": " ++ value
  "\x7b\n" ++ ",\n".intercalate lines ++ "\n" ++ margin ++ "\x7d"

/-- The report as JSON, one member per file. -/
def jsonReport (results : List Result) : String :=
  jsonObject "" (results.map fun r =>
    (r.file.text, jsonObject "  "
      [("file", jsonString r.file.text), ("status", jsonString r.status.text),
        ("message", jsonString r.message), ("digest", jsonString r.digestText),
        ("diff", jsonString r.diff)]))

end RiscBackend.Golden
