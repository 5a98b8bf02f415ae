/-
# Quoted text

A quoted text stands between double quotes. Printable characters are written as
themselves, except for the quote and the backslash; the control characters with
a letter of their own use it, and all others are written by their code point.
-/

import RiscBackend.Text.Printable

namespace RiscBackend.Text

/-- A number in lower-case hexadecimal, with leading zeros up to a least width. -/
def hexPadded (width value : Nat) : String :=
  let digits := Nat.toDigits 16 value
  String.ofList (List.replicate (width - digits.length) '0' ++ digits)

/-- How one character is written inside quotes. -/
def quotedChar (c : Char) : String :=
  if c = '"' then "\\\""
  else if c = '\\' then "\\\\"
  else if isPrintable c then c.toString
  else match c.toNat with
    | 0x07 => "\\a"
    | 0x08 => "\\b"
    | 0x09 => "\\t"
    | 0x0A => "\\n"
    | 0x0B => "\\v"
    | 0x0C => "\\f"
    | 0x0D => "\\r"
    | code =>
      if code < 0x20 || code = 0x7F then "\\x" ++ hexPadded 2 code
      else if code < 0x10000 then "\\u" ++ hexPadded 4 code
      else "\\U" ++ hexPadded 8 code

/-- A text between double quotes, with escapes for what cannot be shown. -/
def quoted (text : String) : String :=
  "\"" ++ String.join (text.toList.map quotedChar) ++ "\""

end RiscBackend.Text
