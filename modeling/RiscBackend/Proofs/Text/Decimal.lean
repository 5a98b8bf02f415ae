/-
# Written integers

An integer is written with its decimal digits, after a minus sign if it is negative, and
is read back from them.
-/

import RiscBackend.Text.Decimal

namespace RiscBackend.Text

theorem isDigit_of_mem_toDigits {k : Nat} {c : Char} (isDigit : c ∈ Nat.toDigits 10 k) :
    c.isDigit = true :=
  Nat.isDigit_of_mem_toDigits (by decide) (by decide) isDigit

theorem toList_toString_ofNat (k : Nat) :
    (toString (Int.ofNat k)).toList = Nat.toDigits 10 k :=
  Nat.toList_repr

theorem toList_toString_negSucc (k : Nat) :
    (toString (Int.negSucc k)).toList = '-' :: Nat.toDigits 10 (k + 1) := by
  show ("-" ++ (k + 1).repr).toList = _
  rw [String.toList_append, Nat.toList_repr]
  rfl

theorem readDigits_toDigits (k : Nat) : readDigits (Nat.toDigits 10 k) = some k := by
  have isDigits : (Nat.toDigits 10 k).all Char.isDigit = true := by
    rw [List.all_eq_true]
    exact fun c inDigits => isDigit_of_mem_toDigits inDigits
  have nonempty : (Nat.toDigits 10 k).isEmpty = false := by simp
  rw [readDigits, isDigits, nonempty, if_neg (by decide)]
  exact congrArg some (Nat.ofDigitChars_toDigits (by decide) (by decide))

/-- An integer is read as it was written. -/
theorem readInt_toString (n : Int) : readInt (toString n) = some n := by
  cases n with
  | ofNat k =>
    have isDigit {c : Char} {rest : List Char} (digits_eq : Nat.toDigits 10 k = c :: rest) :
        c.isDigit = true :=
      isDigit_of_mem_toDigits (digits_eq ▸ List.mem_cons_self)
    rw [readInt, toList_toString_ofNat]
    split
    · rename_i digits_eq
      cases isDigit digits_eq
    · rename_i digits_eq
      cases isDigit digits_eq
    · rw [readDigits_toDigits]
      rfl
  | negSucc k =>
    rw [readInt, toList_toString_negSucc]
    simp [readDigits_toDigits, Int.negSucc_eq]

end RiscBackend.Text
