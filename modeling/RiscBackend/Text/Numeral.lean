/-
# Numerals in several bases

A numeral may say its base: binary, octal and hexadecimal digits follow `0b`, `0o`
and `0x`, and a number that starts with a zero is octal. Other numbers are decimal.
Between two digits, or after what says the base, an underscore may stand.
-/

import RiscBackend.Text.Decimal

namespace RiscBackend.Text.Numeral

/-- The value of a character as a digit in a base, if it is one. -/
def digit? (base : Nat) (c : Char) : Option Nat :=
  let value :=
    if c.isDigit then some (c.toNat - '0'.toNat)
    else if c.isAlpha then some (c.toLower.toNat - 'a'.toNat + 10)
    else none
  value.filter (· < base)

/-- The base of an unsigned numeral and the characters in which its digits stand. -/
def base : List Char → Nat × List Char
  | '0' :: mark :: c :: rest =>
    match mark.toLower with
    | 'b' => (2, c :: rest)
    | 'o' => (8, c :: rest)
    | 'x' => (16, c :: rest)
    | _ => (8, mark :: c :: rest)
  | '0' :: rest => (8, rest)
  | digits => (10, digits)

/-- Read digits with single underscores between them, after digits of a given value.
An underscore must have something to follow and must be followed by a digit. -/
def readGrouped (base : Nat) (follows : Bool) (value : Nat) : List Char → Option Nat
  | [] => if follows then some value else none
  | '_' :: rest => if follows then readGrouped base false value rest else none
  | c :: rest => (digit? base c).bind fun d => readGrouped base true (base * value + d) rest

/-- Read an unsigned numeral. -/
def readUnsigned (digits : List Char) : Option Nat :=
  let (base, digits) := base digits
  readGrouped base (base != 10) 0 digits

/-- Read a numeral with an optional sign. -/
def readInt (text : String) : Option Int :=
  match text.toList with
  | '-' :: digits => (readUnsigned digits).map fun value => -(value : Int)
  | '+' :: digits => (readUnsigned digits).map Int.ofNat
  | digits => (readUnsigned digits).map Int.ofNat

/-- Read a numeral that fits a signed 64-bit word. -/
def readInt64 (text : String) : Option Int :=
  (readInt text).filter fitsInt64

end RiscBackend.Text.Numeral
