/-
# Filling lines greedily

Lines are filled from the left: a word joins the line under construction while it fits. `fillRows`
does the same with the words of a line in place of its text, so that what holds of each line can be
said of its words.

No other way of breaking the words needs fewer lines. The number of lines depends on the line under
construction only through its size: a shorter line never leads to more lines, and a line that is
started afresh saves at most one.
-/

import RiscBackend.Proofs.Text.Words

namespace RiscBackend.Text

/-- Fill rows with words, the first of them with those of `row` at its start. -/
def fillRows (width : Int) (row : List String) : List String → List (List String)
  | [] => [row]
  | word :: rest =>
    if width < ((spaced row).utf8ByteSize + 1 + word.utf8ByteSize : Nat) then
      row :: fillRows width [word] rest
    else
      fillRows width (row ++ [word]) rest

/-- A row of more than one word takes at most `width` bytes. -/
def Fits (width : Int) (row : List String) : Prop :=
  1 < row.length → (spaced row).utf8ByteSize ≤ width

/-- The first word of the next row would not fit into a row. -/
def Full (width : Int) (row next : List String) : Prop :=
  ∃ word, next.head? = some word ∧ width < (spaced row).utf8ByteSize + 1 + word.utf8ByteSize

section Rows

variable {width : Int} {row : List String}

theorem fillLines_spaced (nonempty : row ≠ []) (rest : List String) :
    fillLines width (spaced row) rest = (fillRows width row rest).map spaced := by
  induction rest generalizing row with
  | nil => rfl
  | cons word rest ih =>
    have started := ih (List.cons_ne_nil word [])
    rw [spaced_singleton] at started
    rw [fillLines, fillRows, started, ← spaced_snoc nonempty, ih (by simp)]
    split <;> rfl

theorem flatten_fillRows (row rest : List String) :
    (fillRows width row rest).flatten = row ++ rest := by
  fun_induction fillRows width row rest with
  | case1 row => simp
  | case2 row word rest tooLong ih => rw [List.flatten_cons, ih, List.singleton_append]
  | case3 row word rest fits ih => rw [ih, List.append_assoc, List.singleton_append]

theorem ne_nil_of_mem_fillRows (nonempty : row ≠ []) (rest : List String) :
    ∀ r ∈ fillRows width row rest, r ≠ [] := by
  fun_induction fillRows width row rest with
  | case1 row => simpa using nonempty
  | case2 row word rest tooLong ih =>
    exact List.forall_mem_cons.mpr ⟨nonempty, ih (List.cons_ne_nil _ _)⟩
  | case3 row word rest fits ih => exact ih (by simp)

theorem fits_singleton (word : String) : Fits width [word] :=
  fun several => absurd several (Nat.lt_irrefl 1)

theorem fits_of_mem_fillRows (nonempty : row ≠ []) (fits : Fits width row) (rest : List String) :
    ∀ r ∈ fillRows width row rest, Fits width r := by
  fun_induction fillRows width row rest with
  | case1 row => simpa using fits
  | case2 row word rest tooLong ih =>
    exact List.forall_mem_cons.mpr ⟨fits, ih (List.cons_ne_nil _ _) (fits_singleton word)⟩
  | case3 row word rest roomy ih =>
    apply ih (by simp)
    intro _
    rw [spaced_snoc nonempty, size_append_space]
    omega

/-- The first row starts with the words that it is given. -/
theorem exists_fillRows_eq (width : Int) (row rest : List String) :
    ∃ more rows, fillRows width row rest = (row ++ more) :: rows := by
  fun_induction fillRows width row rest with
  | case1 row => exact ⟨[], [], by simp⟩
  | case2 row word rest => exact ⟨[], fillRows width [word] rest, by simp⟩
  | case3 row word rest fits ih =>
    obtain ⟨more, rows, found⟩ := ih
    exact ⟨word :: more, rows, by simpa using found⟩

theorem isChain_fillRows (row rest : List String) :
    (fillRows width row rest).IsChain (Full width) := by
  fun_induction fillRows width row rest with
  | case1 row => exact List.isChain_singleton row
  | case2 row word rest tooLong ih =>
    obtain ⟨more, rows, found⟩ := exists_fillRows_eq width [word] rest
    rw [found] at ih ⊢
    exact List.isChain_cons_cons.mpr ⟨⟨word, rfl, by omega⟩, ih⟩
  | case3 row word rest fits ih => exact ih

end Rows

/-- The lines of words that are filled from the start. -/
def fillWords (width : Int) : List String → List String
  | [] => []
  | word :: rest => fillLines width word rest

theorem wrap_eq_fillWords (width : Int) (text : String) :
    wrap width text = fillWords width (words text) := by
  rw [wrap]
  cases words text <;> rfl

section Fewest

variable {width : Int} {line other : String} {rest : List String}

/-- **The size of the line under construction decides.** The longer of two lines leads to as many
lines as the shorter one, or to one more. -/
theorem length_fillLines_of_size_le (le : line.utf8ByteSize ≤ other.utf8ByteSize) :
    (fillLines width line rest).length ≤ (fillLines width other rest).length ∧
      (fillLines width other rest).length ≤ (fillLines width line rest).length + 1 := by
  induction rest generalizing line other with
  | nil => simp [fillLines]
  | cons word rest ih =>
    rw [fillLines, fillLines]
    by_cases tooLong : width < (line.utf8ByteSize + 1 + word.utf8ByteSize : Nat)
    · rw [if_pos tooLong, if_pos (by omega)]
      exact ⟨le_rfl, Nat.le_succ _⟩
    · rw [if_neg tooLong]
      by_cases otherTooLong : width < (other.utf8ByteSize + 1 + word.utf8ByteSize : Nat)
      · -- The other line is broken here, and its next one is the shorter of the two.
        have overtakes := @ih word (line ++ " " ++ word) (by rw [size_append_space]; omega)
        rw [if_pos otherTooLong, List.length_cons]
        omega
      · rw [if_neg otherTooLong]
        apply ih
        rw [size_append_space, size_append_space]
        omega

/-- Breaking a line early costs nothing beyond that line. -/
theorem length_fillLines_le (line : String) (rest : List String) :
    (fillLines width line rest).length ≤ (fillWords width rest).length + 1 := by
  cases rest with
  | nil => exact le_rfl
  | cons word rest =>
    rw [fillLines, fillWords]
    split
    · exact le_rfl
    · apply (length_fillLines_of_size_le _).2
      rw [size_append_space]
      omega

/-- Words that fit on one line are put on one line. -/
theorem fillLines_of_fits {row more : List String} (nonempty : row ≠ [])
    (fits : Fits width (row ++ more)) (rest : List String) :
    fillLines width (spaced row) (more ++ rest) = fillLines width (spaced (row ++ more)) rest := by
  induction more generalizing row with
  | nil => rw [List.append_nil, List.nil_append]
  | cons word more ih =>
    rw [List.append_cons] at fits ⊢
    have joins : (spaced (row ++ [word])).utf8ByteSize ≤ width := by
      have several : 1 < (row ++ [word] ++ more).length := by
        have length_pos := List.length_pos_iff.mpr nonempty
        simp only [List.length_append, List.length_singleton]
        omega
      have whole := fits several
      have part := size_spaced_le_append (row ++ [word]) more
      omega
    rw [spaced_snoc nonempty, size_append_space] at joins
    rw [List.cons_append, fillLines, if_neg (by omega), ← spaced_snoc nonempty, ih (by simp) fits]

/-- **No rows that fit are fewer than the lines that are filled.** -/
theorem length_fillWords_le {rows : List (List String)} (fits : ∀ row ∈ rows, Fits width row) :
    (fillWords width rows.flatten).length ≤ rows.length := by
  induction rows with
  | nil => exact le_rfl
  | cons row rows ih =>
    obtain ⟨fitsFirst, fitsLater⟩ := List.forall_mem_cons.mp fits
    have later := ih fitsLater
    cases row with
    | nil => exact Nat.le_succ_of_le later
    | cons word more =>
      have filled :=
        @fillLines_of_fits width [word] more (List.cons_ne_nil _ _) fitsFirst rows.flatten
      rw [spaced_singleton] at filled
      calc (fillWords width ((word :: more) :: rows).flatten).length
          = (fillLines width (spaced ([word] ++ more)) rows.flatten).length := by rw [← filled]; rfl
        _ ≤ (fillWords width rows.flatten).length + 1 := length_fillLines_le _ _
        _ ≤ rows.length + 1 := Nat.succ_le_succ later

end Fewest

/-- The lines of a text are rows of its words, filled greedily. -/
theorem exists_rows_wrap (width : Int) (text : String) :
    ∃ rows : List (List String), wrap width text = rows.map spaced ∧ rows.flatten = words text ∧
      (∀ row ∈ rows, row ≠ [] ∧ Fits width row) ∧ rows.IsChain (Full width) := by
  rw [wrap_eq_fillWords]
  cases words text with
  | nil => exact ⟨[], rfl, rfl, by simp, .nil⟩
  | cons word rest =>
    have first : [word] ≠ [] := List.cons_ne_nil _ _
    refine ⟨fillRows width [word] rest, ?_, flatten_fillRows _ _, ?_, isChain_fillRows _ _⟩
    · rw [← fillLines_spaced first, spaced_singleton, fillWords]
    · intro row isRow
      exact ⟨ne_nil_of_mem_fillRows first rest row isRow,
        fits_of_mem_fillRows first (fits_singleton word) rest row isRow⟩

/-- **Wrapping loses no word, wastes no line and no space.** The lines have the words of the text in
order and no needless blanks; a line of several words fits; a line ends only where the next word
would not fit; and no lines with these words, set with whatever blanks, are fewer if those of
several words fit. -/
theorem wrap_is_greedy_and_fewest (width : Int) (text : String) :
    (wrap width text).flatMap words = words text ∧
      (∀ line ∈ wrap width text, WellSpaced line) ∧
      (∀ line ∈ wrap width text, 1 < (words line).length → line.utf8ByteSize ≤ width) ∧
      (wrap width text).IsChain (fun line next => ∃ word, (words next).head? = some word ∧
        width < line.utf8ByteSize + 1 + word.utf8ByteSize) ∧
      ∀ lines : List String, lines.flatMap words = words text →
        (∀ line ∈ lines, 1 < (words line).length → line.utf8ByteSize ≤ width) →
        (wrap width text).length ≤ lines.length := by
  obtain ⟨rows, wrap_eq, whole, filled, full⟩ := exists_rows_wrap width text
  have areWords : ∀ row ∈ rows, ∀ word ∈ row, IsWord word := by
    intro row isRow word inRow
    apply isWord_of_mem_words
    rw [← whole]
    exact List.mem_flatten.mpr ⟨row, isRow, inRow⟩
  have words_eq : ∀ row ∈ rows, words (spaced row) = row :=
    fun row isRow => words_spaced (areWords row isRow)
  refine ⟨?_, ?_, ?_, ?_, ?_⟩
  · rw [wrap_eq, List.flatMap_map, List.flatMap_congr words_eq, List.flatMap_id', whole]
  · rw [wrap_eq, List.forall_mem_map]
    exact fun row isRow => wellSpaced_spaced (filled row isRow).1 (areWords row isRow)
  · rw [wrap_eq, List.forall_mem_map]
    intro row isRow several
    rw [words_eq row isRow] at several
    exact (filled row isRow).2 several
  · rw [wrap_eq, List.isChain_map]
    apply full.imp_of_mem_imp
    intro row next _ isNext isFull
    rw [words_eq next isNext]
    exact isFull
  · intro lines sameWords fits
    have rowsFit : ∀ row ∈ lines.map words, Fits width row := by
      rw [List.forall_mem_map]
      intro line isLine several
      have bound := fits line isLine several
      have shortest := size_spaced_words_le line
      omega
    have fewest := length_fillWords_le rowsFit
    rwa [← List.flatMap_def, sameWords, ← wrap_eq_fillWords, List.length_map] at fewest

example : wrap 9 " one two\tthree  four" = ["one two", "three", "four"] := by decide +kernel

example : wrap (-1) "one two" = ["one", "two"] := by decide +kernel

end RiscBackend.Text
