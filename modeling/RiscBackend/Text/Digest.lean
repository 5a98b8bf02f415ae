/-
# Content digests

The digest of a byte sequence is its 64-bit xxHash with seed 0. Thirty-two-byte
stripes are absorbed into four lanes; the lanes are merged, the remaining bytes
are folded in by eights, by four and singly, and a final mixing spreads every
input bit over the result.
-/

import RiscBackend.Text.Quoted

namespace RiscBackend.Text.Digest

/-- The first of the five odd multipliers of the hash. -/
def prime1 : UInt64 := 0x9E3779B185EBCA87

/-- The second multiplier. -/
def prime2 : UInt64 := 0xC2B2AE3D27D4EB4F

/-- The third multiplier. -/
def prime3 : UInt64 := 0x165667B19E3779F9

/-- The fourth multiplier. -/
def prime4 : UInt64 := 0x85EBCA77C2B2AE63

/-- The fifth multiplier. -/
def prime5 : UInt64 := 0x27D4EB2F165667C5

/-- Rotate a word to the left by fewer than 64 bits. -/
def rotateLeft (word count : UInt64) : UInt64 :=
  (word <<< count) ||| (word >>> (64 - count))

/-- The word whose bytes, least significant first, are given. -/
def littleEndian (bytes : List UInt8) : UInt64 :=
  bytes.foldr (fun byte word => (word <<< 8) ||| byte.toUInt64) 0

/-- Absorb one word into a lane. -/
def round (lane input : UInt64) : UInt64 :=
  rotateLeft (lane + input * prime2) 31 * prime1

/-- The four lanes that absorb whole stripes. -/
structure Lanes where
  a : UInt64
  b : UInt64
  c : UInt64
  d : UInt64

/-- The lanes before the first stripe. -/
def Lanes.initial : Lanes where
  a := prime1 + prime2
  b := prime2
  c := 0
  d := 0 - prime1

/-- Absorb one stripe of thirty-two bytes. -/
def Lanes.absorb (lanes : Lanes) (stripe : List UInt8) : Lanes where
  a := round lanes.a (littleEndian (stripe.take 8))
  b := round lanes.b (littleEndian ((stripe.drop 8).take 8))
  c := round lanes.c (littleEndian ((stripe.drop 16).take 8))
  d := round lanes.d (littleEndian ((stripe.drop 24).take 8))

/-- Fold one lane into the merged hash. -/
def mergeLane (hash lane : UInt64) : UInt64 :=
  (hash ^^^ round 0 lane) * prime1 + prime4

/-- Merge the four lanes into one word. -/
def Lanes.merge (lanes : Lanes) : UInt64 :=
  let sum := rotateLeft lanes.a 1 + rotateLeft lanes.b 7 +
    rotateLeft lanes.c 12 + rotateLeft lanes.d 18
  mergeLane (mergeLane (mergeLane (mergeLane sum lanes.a) lanes.b) lanes.c) lanes.d

/-- Absorb a number of stripes; the bytes after them are left over. -/
def absorbStripes : Nat → Lanes → List UInt8 → Lanes × List UInt8
  | 0, lanes, bytes => (lanes, bytes)
  | count + 1, lanes, bytes =>
    absorbStripes count (lanes.absorb (bytes.take 32)) (bytes.drop 32)

/-- Fold a number of eight-byte words into the hash. -/
def foldWords : Nat → UInt64 → List UInt8 → UInt64 × List UInt8
  | 0, hash, bytes => (hash, bytes)
  | count + 1, hash, bytes =>
    let mixed := hash ^^^ round 0 (littleEndian (bytes.take 8))
    foldWords count (rotateLeft mixed 27 * prime1 + prime4) (bytes.drop 8)

/-- Fold a remaining four-byte word, if there is one, into the hash. -/
def foldHalfWord (hash : UInt64) (bytes : List UInt8) : UInt64 × List UInt8 :=
  if bytes.length < 4 then (hash, bytes)
  else
    let mixed := hash ^^^ (littleEndian (bytes.take 4) * prime1)
    (rotateLeft mixed 23 * prime2 + prime3, bytes.drop 4)

/-- Fold the last bytes into the hash one by one. -/
def foldBytes (hash : UInt64) (bytes : List UInt8) : UInt64 :=
  bytes.foldl (fun hash byte => rotateLeft (hash ^^^ (byte.toUInt64 * prime5)) 11 * prime1) hash

/-- Spread every bit of the hash over the whole word. -/
def avalanche (hash : UInt64) : UInt64 :=
  let hash := (hash ^^^ (hash >>> 33)) * prime2
  let hash := (hash ^^^ (hash >>> 29)) * prime3
  hash ^^^ (hash >>> 32)

/-- The digest of a byte sequence. -/
def ofBytes (bytes : ByteArray) : UInt64 :=
  let all := bytes.data.toList
  let size := all.length
  let (lanes, rest) := absorbStripes (size / 32) Lanes.initial all
  let start := if size < 32 then prime5 else lanes.merge
  let (hash, rest) := foldWords (rest.length / 8) (start + size.toUInt64) rest
  let (hash, rest) := foldHalfWord hash rest
  avalanche (foldBytes hash rest)

/-- The digest of a text in UTF-8. -/
def ofText (text : String) : UInt64 :=
  ofBytes text.toUTF8

/-- A digest in sixteen lower-case hexadecimal digits. -/
def render (digest : UInt64) : String :=
  hexPadded 16 digest.toNat

end RiscBackend.Text.Digest
