/-
# Columns and line filling

Help pages set text in columns. Padding counts characters, while the room on a
line is measured in bytes; both rules are part of the page's format.
-/

import RiscBackend.Text.Blank

namespace RiscBackend.Text

/-- A run of spaces. -/
def spaces (count : Nat) : String :=
  String.ofList (List.replicate count ' ')

/-- A text followed by spaces up to a least number of characters. -/
def padRight (width : Nat) (text : String) : String :=
  text ++ spaces (width - text.length)

/-- Fill lines with words. A word joins the line under construction while the
line, a space and the word take at most `width` bytes; otherwise it starts the
next line. -/
def fillLines (width : Int) (line : String) : List String → List String
  | [] => [line]
  | word :: rest =>
    if width < (line.utf8ByteSize + 1 + word.utf8ByteSize : Nat) then
      line :: fillLines width word rest
    else
      fillLines width (line ++ " " ++ word) rest

/-- Break a text into lines of at most `width` bytes. A word longer than that
has a line of its own. -/
def wrap (width : Int) (text : String) : List String :=
  match words text with
  | [] => []
  | word :: rest => fillLines width word rest

end RiscBackend.Text
