/-
# Reading UTF-8

Source files are bytes. A well-formed UTF-8 sequence gives its character; every
byte that neither starts nor continues one gives a replacement character of its
own. Overlong forms, surrogates and values above U+10FFFF are not well formed.
-/

namespace RiscBackend.Text

/-- The character that stands for a byte that is not part of any character. -/
def replacementChar : Char := '�'

/-- Whether a byte continues a multi-byte sequence. -/
def isContinuation (b : UInt8) : Bool :=
  0x80 ≤ b && b ≤ 0xBF

/-- The payload of a continuation byte. -/
def continuationBits (b : UInt8) : Nat :=
  b.toNat % 0x40

/-- Whether `second` may follow the lead byte `lead` of a three- or four-byte
sequence. The limits exclude overlong forms, surrogates and too large values. -/
def secondAllowed (lead second : UInt8) : Bool :=
  let low : UInt8 := if lead = 0xE0 then 0xA0 else if lead = 0xF0 then 0x90 else 0x80
  let high : UInt8 := if lead = 0xED then 0x9F else if lead = 0xF4 then 0x8F else 0xBF
  low ≤ second && second ≤ high

/-- Split the character that starts with byte `lead` off a byte sequence. -/
def decodeChar (lead : UInt8) (rest : List UInt8) : Char × List UInt8 :=
  if lead < 0x80 then (Char.ofNat lead.toNat, rest)
  else if 0xC2 ≤ lead && lead ≤ 0xDF then
    match rest with
    | b :: tail =>
      if isContinuation b then
        (Char.ofNat (lead.toNat % 0x20 * 0x40 + continuationBits b), tail)
      else (replacementChar, rest)
    | [] => (replacementChar, rest)
  else if 0xE0 ≤ lead && lead ≤ 0xEF then
    match rest with
    | b :: c :: tail =>
      if secondAllowed lead b && isContinuation c then
        (Char.ofNat ((lead.toNat % 0x10 * 0x40 + continuationBits b) * 0x40 +
          continuationBits c), tail)
      else (replacementChar, rest)
    | _ => (replacementChar, rest)
  else if 0xF0 ≤ lead && lead ≤ 0xF4 then
    match rest with
    | b :: c :: d :: tail =>
      if secondAllowed lead b && isContinuation c && isContinuation d then
        (Char.ofNat (((lead.toNat % 0x08 * 0x40 + continuationBits b) * 0x40 +
          continuationBits c) * 0x40 + continuationBits d), tail)
      else (replacementChar, rest)
    | _ => (replacementChar, rest)
  else (replacementChar, rest)

/-- Decoding a character gives back no bytes. -/
theorem decodeChar_length_le (lead : UInt8) (rest : List UInt8) :
    (decodeChar lead rest).2.length ≤ rest.length := by
  unfold decodeChar
  repeat' split
  all_goals simp only [List.length_cons]; omega

/-- The characters of a byte sequence. -/
def decodeUtf8 : List UInt8 → List Char
  | [] => []
  | lead :: rest => (decodeChar lead rest).1 :: decodeUtf8 (decodeChar lead rest).2
termination_by bytes => bytes.length
decreasing_by
  have bound := decodeChar_length_le lead rest
  simp only [List.length_cons]
  omega

/-- The text of a file, read as UTF-8. -/
def ofBytes (bytes : ByteArray) : String :=
  String.ofList (decodeUtf8 bytes.data.toList)

end RiscBackend.Text
