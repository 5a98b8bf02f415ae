/-
# Differences of texts

How two texts differ is shown as a text that is empty if they are equal, and only then.
Texts are bytes, and they are compared line by line.
-/

import RiscBackend.Text.Cut
import RiscBackend.Text.Utf8

namespace RiscBackend.Text

/-- A line as bytes, without its end. -/
abbrev ByteLine := List UInt8

/-- The lines of a text. The last one is what follows the last line end. -/
def byteLines (bytes : ByteArray) : List ByteLine :=
  runs 0x0A bytes.data.toList

/-- A way to show how two texts differ. -/
structure Differ where
  text : List ByteLine → List ByteLine → String
  /-- Nothing is shown of equal texts, and something of all others. -/
  text_eq_empty_iff : ∀ want got, text want got = "" ↔ want = got

/-- Lines as they are shown, each behind a mark. -/
def markedLines (mark : Char) (lines : List ByteLine) : List Char :=
  lines.flatMap fun line => mark :: decodeUtf8 line ++ ['\n']

/-- What texts have behind the lines that they have in common at the front: the expected
lines with a minus, and then the others with a plus. -/
def markedDifference : List ByteLine → List ByteLine → List Char
  | [], got => markedLines '+' got
  | want, [] => markedLines '-' want
  | w :: want, g :: got =>
    if w = g then markedDifference want got
    else markedLines '-' (w :: want) ++ markedLines '+' (g :: got)

theorem markedLines_eq_nil_iff (mark : Char) (lines : List ByteLine) :
    markedLines mark lines = [] ↔ lines = [] := by
  cases lines <;> simp [markedLines]

theorem markedDifference_eq_nil_iff (want got : List ByteLine) :
    markedDifference want got = [] ↔ want = got := by
  fun_induction markedDifference want got with
  | case1 got => rw [markedLines_eq_nil_iff, eq_comm]
  | case2 want nonempty => rw [markedLines_eq_nil_iff]
  | case3 want g got ih => simpa using ih
  | case4 w want g got differ => simp [differ, markedLines_eq_nil_iff]

/-- The difference that is shown by default. -/
def Differ.marked : Differ where
  text want got := String.ofList (markedDifference want got)
  text_eq_empty_iff want got := by
    rw [← markedDifference_eq_nil_iff, String.ofList_eq_empty_iff]

end RiscBackend.Text
