/-
# Cutting texts

Cutting a text at a separator, splitting it at every separator, and recognizing and
removing a known beginning. All of it is defined on the characters of the text.
-/

namespace RiscBackend.Text

/-- The part of a text before the first occurrence of a character, and the part
after it if it occurs. -/
def cut (separator : Char) (text : String) : String × Option String :=
  let front := text.toList.takeWhile (· != separator)
  match text.toList.dropWhile (· != separator) with
  | [] => (String.ofList front, none)
  | _ :: back => (String.ofList front, some (String.ofList back))

/-- The runs of elements between the occurrences of a separator. There is one run
more than there are separators. -/
def runs {α : Type} [DecidableEq α] (separator : α) : List α → List (List α)
  | [] => [[]]
  | a :: rest =>
    if a = separator then [] :: runs separator rest
    else match runs separator rest with
      | [] => [[a]]
      | run :: later => (a :: run) :: later

/-- The pieces of a text between the occurrences of a separator. -/
def split (separator : Char) (text : String) : List String :=
  (runs separator text.toList).map String.ofList

/-- Whether a text has a given beginning. -/
def hasStart (start text : String) : Bool :=
  start.toList.isPrefixOf text.toList

/-- A text without a given beginning, if it has that beginning. -/
def dropStart (start text : String) : String :=
  if hasStart start text then String.ofList (text.toList.drop start.length) else text

end RiscBackend.Text
