/-
# White space and words

Blank characters are those with the Unicode property `White_Space`. A text is a
sequence of words separated by runs of blanks; leading and trailing blanks
belong to no word.
-/

import RiscBackend.Text.CodeRange

namespace RiscBackend.Text

/-- The characters with the property `White_Space`, in ascending order. -/
def blankRanges : List CodeRange :=
  [(0x9, 0xD), (0x20, 0x20), (0x85, 0x85), (0xA0, 0xA0), (0x1680, 0x1680), (0x2000, 0x200A),
   (0x2028, 0x2029), (0x202F, 0x202F), (0x205F, 0x205F), (0x3000, 0x3000)]

/-- Whether a character is white space. -/
def isBlank (c : Char) : Bool :=
  inRanges blankRanges c.toNat

/-- The maximal blank-free runs of a character sequence, in order. -/
def charWords (cs : List Char) : List (List Char) :=
  match _h : cs.dropWhile isBlank with
  | [] => []
  | c :: rest =>
    (c :: rest.takeWhile (fun d => !isBlank d)) ::
      charWords (rest.dropWhile (fun d => !isBlank d))
termination_by cs.length
decreasing_by
  have shorter : (c :: rest).length ≤ cs.length := by
    rw [← _h]
    exact (List.dropWhile_suffix _).length_le
  have tail : (rest.dropWhile (fun d => !isBlank d)).length ≤ rest.length :=
    (List.dropWhile_suffix _).length_le
  simp only [List.length_cons] at shorter
  omega

/-- The words of a text. -/
def words (text : String) : List String :=
  (charWords text.toList).map String.ofList

end RiscBackend.Text
