/-
# Integers in decimal

Numbers are read from an optional sign and at least one ASCII digit, with
nothing before, between or after them. Truth values have a fixed list of
spellings.
-/

namespace RiscBackend.Text

/-- The value of a run of ASCII digits, most significant first. -/
def digitsValue (digits : List Char) : Nat :=
  digits.foldl (fun value digit => 10 * value + (digit.toNat - '0'.toNat)) 0

/-- Read an unsigned decimal number. -/
def readDigits (digits : List Char) : Option Nat :=
  if digits.isEmpty || !digits.all Char.isDigit then none else some (digitsValue digits)

/-- Read a decimal number with an optional sign. -/
def readInt (text : String) : Option Int :=
  match text.toList with
  | '-' :: digits => (readDigits digits).map fun value => -(value : Int)
  | '+' :: digits => (readDigits digits).map Int.ofNat
  | digits => (readDigits digits).map Int.ofNat

/-- Whether a number fits a signed 64-bit word. -/
def fitsInt64 (value : Int) : Bool :=
  -9223372036854775808 ≤ value && value ≤ 9223372036854775807

/-- Read a decimal number that fits a signed 64-bit word. -/
def readInt64 (text : String) : Option Int :=
  (readInt text).filter fitsInt64

/-- Read a truth value. -/
def readBool (text : String) : Option Bool :=
  if ["1", "t", "T", "TRUE", "true", "True"].contains text then some true
  else if ["0", "f", "F", "FALSE", "false", "False"].contains text then some false
  else none

end RiscBackend.Text
