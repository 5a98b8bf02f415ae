/-
# File name patterns

In a pattern a star stands for any run of characters, a question mark for one
character, a bracketed class for one character of the class, and a backslash takes
the next character literally. None of them matches a slash by a star or a question
mark. A pattern is cut into segments at its stars; every segment is searched from
left to right and is not moved once it has been found. A malformed segment is an
error only when the search comes to it.

Names are matched byte by byte, so a star may end inside a character; what is left
of that character then counts as replacement characters.
-/

import RiscBackend.Files.Directory
import RiscBackend.Text.Utf8

namespace RiscBackend.Files.Glob

/-- A piece of a pattern that matches a fixed stretch. -/
inductive Atom where
  | byte (b : UInt8)
  | anyChar
  | charClass (negated : Bool) (ranges : List (Char × Char))
  deriving DecidableEq, Repr

/-- Atoms to be found in sequence, anywhere after a star or else at once. -/
structure Segment where
  star : Bool
  atoms : List Atom
  deriving DecidableEq, Repr

/-- The atoms that match a character literally. -/
def literal (c : Char) : List Atom :=
  c.toString.toUTF8.data.toList.map Atom.byte

/-- Read one end of a range in a class. It must be followed by something. -/
def rangeEnd? : List Char → Option (Char × List Char)
  | '-' :: _ => none
  | ']' :: _ => none
  | '\\' :: c :: d :: rest => some (c, d :: rest)
  | '\\' :: _ => none
  | c :: d :: rest => some (c, d :: rest)
  | _ => none

/-- Reading the end of a range uses up a character. -/
theorem rangeEnd?_length {cs rest : List Char} {c : Char} (read : rangeEnd? cs = some (c, rest)) :
    rest.length < cs.length := by
  unfold rangeEnd? at read
  split at read
  case h_3 | h_5 =>
    cases read
    simp only [List.length_cons]
    omega
  all_goals cases read

/-- Read the ranges of a class up to its closing bracket; there must be at least
one. -/
def ranges? (read : List (Char × Char)) (cs : List Char) :
    Option (List (Char × Char) × List Char) :=
  match cs with
  | [] => none
  | c :: rest =>
    if c = ']' && !read.isEmpty then some (read, rest)
    else match _first : rangeEnd? (c :: rest) with
      | none => none
      | some (low, '-' :: more) =>
        match _second : rangeEnd? more with
        | none => none
        | some (high, later) => ranges? (read ++ [(low, high)]) later
      | some (low, more) => ranges? (read ++ [(low, low)]) more
termination_by cs.length
decreasing_by
  · have a := rangeEnd?_length _first
    have b := rangeEnd?_length _second
    simp only [List.length_cons] at a ⊢
    omega
  · exact rangeEnd?_length _first

/-- A star, an atom, or the end of what can be read of a malformed pattern. -/
inductive Item where
  | star
  | atom (a : Atom)
  | malformed
  deriving DecidableEq, Repr

/-- Reading a class uses up a character. -/
theorem ranges?_length {read found : List (Char × Char)} {cs rest : List Char}
    (parsed : ranges? read cs = some (found, rest)) : rest.length < cs.length := by
  fun_induction ranges? read cs with
  | case1 => simp at parsed
  | case2 =>
    simp only [Option.some.injEq, Prod.mk.injEq] at parsed
    simp [← parsed.2]
  | case3 => simp at parsed
  | case4 => simp at parsed
  | case5 read c cs _ low more first high later second ih =>
    have a := rangeEnd?_length first
    have b := rangeEnd?_length second
    have c := ih parsed
    simp only [List.length_cons] at a ⊢
    omega
  | case6 read c cs _ low more _ first ih =>
    have a := rangeEnd?_length first
    have b := ih parsed
    omega

/-- Read a pattern as far as it is well formed. -/
def items (pattern : List Char) : List Item :=
  match pattern with
  | [] => []
  | '*' :: rest => .star :: items rest
  | '?' :: rest => .atom .anyChar :: items rest
  | '\\' :: [] => [.malformed]
  | '\\' :: c :: rest => (literal c).map .atom ++ items rest
  | '[' :: rest =>
    let negated := rest.head? = some '^'
    match _parsed : ranges? [] (if negated then rest.drop 1 else rest) with
    | none => [.malformed]
    | some (ranges, later) => .atom (.charClass negated ranges) :: items later
  | c :: rest => (literal c).map .atom ++ items rest
termination_by pattern.length
decreasing_by
  all_goals try simp only [List.length_cons]; omega
  have used := ranges?_length _parsed
  split at used <;> simp only [List.length_drop, List.length_cons] at used ⊢ <;> omega

/-- A pattern: its segments, and whether a malformed segment follows them. -/
structure Pattern where
  segments : List Segment
  malformed : Bool
  deriving DecidableEq, Repr

namespace Pattern

/-- Cut items into segments at the stars, after a segment under construction. The
segment in which a pattern turns out to be malformed is not kept. -/
def ofItems (star : Bool) (atoms : List Atom) : List Item → Pattern
  | [] => { segments := if star || !atoms.isEmpty then [{ star, atoms }] else [], malformed := false }
  | .malformed :: _ => { segments := [], malformed := true }
  | .star :: rest =>
    let later := ofItems true [] rest
    if atoms.isEmpty then later
    else { later with segments := { star, atoms } :: later.segments }
  | .atom a :: rest => ofItems star (atoms ++ [a]) rest

/-- Read a pattern. -/
def parse (pattern : List Char) : Pattern :=
  ofItems false [] (items pattern)

end Pattern

/-- The byte of a slash. -/
def slash : UInt8 := 0x2F

/-- Match atoms at the front of a name; what is left of the name. -/
def matchAtoms : List Atom → List UInt8 → Option (List UInt8)
  | [], name => some name
  | _ :: _, [] => none
  | .byte expected :: rest, b :: name => if b = expected then matchAtoms rest name else none
  | .anyChar :: rest, b :: name =>
    if b = slash then none else matchAtoms rest (Text.decodeChar b name).2
  | .charClass negated ranges :: rest, b :: name =>
    let (c, name) := Text.decodeChar b name
    let inside := ranges.any fun (low, high) => low ≤ c && c ≤ high
    if inside = negated then none else matchAtoms rest name

/-- Find the atoms of a segment: at once, or after skipping bytes other than a
slash if a star precedes them. The last segment must use up the name. -/
def locate (star last : Bool) (atoms : List Atom) : List UInt8 → Option (List UInt8)
  | [] => (matchAtoms atoms []).filter fun rest => !last || rest.isEmpty
  | b :: name =>
    match (matchAtoms atoms (b :: name)).filter fun rest => !last || rest.isEmpty with
    | some rest => some rest
    | none => if star && b != slash then locate star last atoms name else none

/-- Whether segments match a whole name. When a malformed segment follows them and
is reached, there is no answer. -/
def matchSegments (malformed : Bool) : List Segment → List UInt8 → Option Bool
  | [], name => if malformed then none else some name.isEmpty
  | segment :: rest, name =>
    if segment.star && segment.atoms.isEmpty then some (!name.contains slash)
    else match locate segment.star (rest.isEmpty && !malformed) segment.atoms name with
      | some name => matchSegments malformed rest name
      | none => some false

/-- Whether a pattern matches a whole name. A malformed pattern gives no answer,
unless the name already fails to match before the malformed part. -/
def Pattern.matches? (p : Pattern) (name : String) : Option Bool :=
  matchSegments p.malformed p.segments name.toUTF8.data.toList

/-- Whether a pattern holds a character with a meaning of its own. -/
def hasMeta (pattern : List Char) : Bool :=
  pattern.any fun c => c = '*' || c = '?' || c = '[' || c = '\\'

/-- The paths of those names in a directory that match a pattern. There is no answer
if the pattern turns out to be malformed for one of the names. -/
def matchNames (d : Directory) (parent : String) (pattern : List Char) : Option (List String) :=
  let hits := (d.list parent).mapM fun name =>
    ((Pattern.parse pattern).matches? name).map fun hit =>
      if hit then [Path.cleanText (parent ++ "/" ++ name)] else []
  hits.map List.flatten

/-- The part of a pattern before its last slash, without that slash. -/
def parentOf (pattern : List Char) : List Char :=
  ((pattern.reverse.dropWhile (· != '/')).drop 1).reverse

/-- The part of a pattern after its last slash. -/
def lastOf (pattern : List Char) : List Char :=
  (pattern.reverse.takeWhile (· != '/')).reverse

/-- The directory in which the last part of a pattern is looked for. -/
def parentText (pattern : List Char) : String :=
  let parent := parentOf pattern
  if !parent.isEmpty then String.ofList parent
  else if pattern.contains '/' then "/"
  else "."

/-- The number of parents with special characters up to which a pattern is expanded. -/
def depthLimit : Nat := 10000

/-- The paths of a directory that a pattern stands for. There is no answer if the
pattern is found to be malformed or if its special parents lie too deep. -/
def expandWithin (d : Directory) : Nat → List Char → Option (List String)
  | 0, _ => none
  | depth + 1, pattern =>
    if ((Pattern.parse pattern).matches? "").isNone then none
    else if !hasMeta pattern then
      let path := String.ofList pattern
      some (if (d.find? path).isSome then [path] else [])
    else if hasMeta (parentOf pattern) then do
      let parents ← expandWithin d depth (parentOf pattern)
      let matched ← parents.mapM fun parent => matchNames d parent (lastOf pattern)
      return matched.flatten
    else matchNames d (parentText pattern) (lastOf pattern)

/-- The paths of a directory that a pattern stands for; a malformed pattern gives
nothing at all, provided that a name gets as far as its malformed part. Special
characters may stand in every component. -/
def expand? (d : Directory) (pattern : List Char) : Option (List String) :=
  expandWithin d depthLimit pattern

end RiscBackend.Files.Glob
