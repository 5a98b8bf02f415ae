/-
# Paths

A path is written with slashes between its components. Within a directory a file
is identified by the list of its components from there.
-/

import RiscBackend.Text.Cut

namespace RiscBackend.Files

/-- The components of a path from the working directory. -/
abbrev Path := List String

/-- The pieces of a written path between its slashes. -/
def pieces (path : String) : List String :=
  Text.split '/' path

namespace Path

/-- A path as it is written. -/
def text (path : Path) : String :=
  "/".intercalate path

/-- The last component. -/
def base (path : Path) : String :=
  path.getLastD "."

/-- Simplify a path by its spelling alone, after the components already read. -/
def cleanFrom : Path → List String → Path
  | read, [] => read
  | read, piece :: rest =>
    if piece = "" || piece = "." then cleanFrom read rest
    else if piece = ".." && !read.isEmpty && read.getLast? != some ".." then
      cleanFrom read.dropLast rest
    else cleanFrom (read ++ [piece]) rest

/-- The simplest spelling of a written path. -/
def clean (path : String) : Path :=
  cleanFrom [] (pieces path)

/-- A written path in its simplest spelling. -/
def cleanText (path : String) : String :=
  (if Text.hasStart "/" path then "/" else "") ++ (clean path).text

/-- The number of bytes that a component may have. -/
def nameLimit : Nat := 255

/-- The number of bytes that a written path may have. -/
def pathLimit : Nat := 4095

/-- Whether the last component has more bytes than a component may have. -/
def endsTooLong (path : Path) : Bool :=
  nameLimit < path.base.utf8ByteSize

end Path

/-- A file name without what follows its last dot; the dot goes too. -/
def dropExtension (name : String) : String :=
  if name.toList.contains '.' then
    String.ofList ((name.toList.reverse.dropWhile (· != '.')).drop 1).reverse
  else name

end RiscBackend.Files
