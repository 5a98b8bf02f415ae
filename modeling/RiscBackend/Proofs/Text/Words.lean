/-
# Words and the blanks between them

`HasWords` says by rules what the words of a text are, without saying how they are found. The words
that are read from a text are the only ones it can have by these rules. So a line set from words
with single spaces has just these words, and no line with the same words takes fewer bytes.
-/

import Mathlib.Data.List.Chain
import RiscBackend.Proofs.Text.Cut
import RiscBackend.Text.Layout

namespace RiscBackend.Text

/-- Characters that can make up a word. -/
structure IsRun (run : List Char) : Prop where
  nonempty : run ≠ []
  solid : ∀ c ∈ run, isBlank c = false

/-- A text and its words, in order. -/
inductive HasWords : List Char → List (List Char) → Prop
  | nil : HasWords [] []
  | blank {c : Char} {cs : List Char} {ws : List (List Char)} (isBlank : isBlank c = true)
      (later : HasWords cs ws) : HasWords (c :: cs) ws
  | last {run : List Char} (isRun : IsRun run) : HasWords run [run]
  | run {run : List Char} {c : Char} {cs : List Char} {ws : List (List Char)} (isRun : IsRun run)
      (isBlank : isBlank c = true) (later : HasWords cs ws) : HasWords (run ++ c :: cs) (run :: ws)

section Reading

variable {run cs : List Char} {ws : List (List Char)} {c : Char}

theorem charWords_nil : charWords [] = [] := by
  rw [charWords]
  rfl

theorem charWords_blank (isBlank : isBlank c = true) : charWords (c :: cs) = charWords cs := by
  have skipped : (c :: cs).dropWhile Text.isBlank = cs.dropWhile Text.isBlank :=
    List.dropWhile_cons_of_pos isBlank
  rw [charWords, charWords, skipped]

/-- What is read at the start of a run is the run up to the next blank. -/
theorem charWords_append (isRun : IsRun run) (ends : ∀ c ∈ cs.head?, isBlank c = true) :
    charWords (run ++ cs) = run :: charWords cs := by
  obtain ⟨nonempty, solid⟩ := isRun
  cases run with
  | nil => exact absurd rfl nonempty
  | cons c run =>
    obtain ⟨isFirst, later⟩ := List.forall_mem_cons.mp solid
    have found : (c :: run ++ cs).dropWhile isBlank = c :: (run ++ cs) :=
      List.dropWhile_cons_of_neg (by simp [isFirst])
    obtain ⟨kept, rest⟩ := @span_of_ends (fun d => !isBlank d) run cs (by simpa using later)
      (by simpa using ends)
    rw [charWords]
    split
    · rename_i none
      cases found.symm.trans none
    · rename_i d others isFound
      obtain ⟨rfl, rfl⟩ := List.cons.inj (found.symm.trans isFound)
      rw [kept, rest]

/-- The words of a text by the rules are those that are read from it. -/
theorem HasWords.charWords_eq (hasWords : HasWords cs ws) : charWords cs = ws := by
  induction hasWords with
  | nil => exact charWords_nil
  | blank isBlank _ ih => rw [charWords_blank isBlank, ih]
  | @last run isRun =>
    have alone := @charWords_append run [] isRun (by simp)
    rwa [List.append_nil, charWords_nil] at alone
  | run isRun isBlank _ ih =>
    rw [charWords_append isRun (by simpa using isBlank), charWords_blank isBlank, ih]

/-- A character that is not blank makes a run longer. -/
theorem IsRun.cons (isSolid : isBlank c = false) (solid : ∀ d ∈ run, isBlank d = false) :
    IsRun (c :: run) :=
  ⟨List.cons_ne_nil c run, List.forall_mem_cons.mpr ⟨isSolid, solid⟩⟩

/-- Every text has words. The character in front of a text is a blank, starts a word of its own, or
goes on with the first word of the text. -/
theorem exists_hasWords (cs : List Char) : ∃ ws, HasWords cs ws := by
  induction cs with
  | nil => exact ⟨[], .nil⟩
  | cons c cs ih =>
    obtain ⟨ws, later⟩ := ih
    by_cases isBlank : Text.isBlank c = true
    · exact ⟨ws, .blank isBlank later⟩
    · rw [Bool.not_eq_true] at isBlank
      cases later with
      | nil => exact ⟨[[c]], .last (.cons isBlank (by simp))⟩
      | @blank b cs ws ends later =>
        exact ⟨[c] :: ws, @HasWords.run [c] b cs ws (.cons isBlank (by simp)) ends later⟩
      | last isRun => exact ⟨[c :: cs], .last (.cons isBlank isRun.solid)⟩
      | @run run b cs ws isRun ends later =>
        exact ⟨(c :: run) :: ws,
          @HasWords.run (c :: run) b cs ws (.cons isBlank isRun.solid) ends later⟩

/-- **What is read from a text are its words.** -/
theorem hasWords_iff : HasWords cs ws ↔ charWords cs = ws := by
  constructor
  · exact HasWords.charWords_eq
  · rintro rfl
    obtain ⟨ws, hasWords⟩ := exists_hasWords cs
    rwa [hasWords.charWords_eq]

theorem HasWords.isRun_of_mem (hasWords : HasWords cs ws) : ∀ run ∈ ws, IsRun run := by
  induction hasWords with
  | nil => simp
  | blank _ _ ih => exact ih
  | last isRun => simpa using isRun
  | run isRun _ _ ih => exact List.forall_mem_cons.mpr ⟨isRun, ih⟩

end Reading

/-- Words set on one line. -/
def spaced (row : List String) : String :=
  " ".intercalate row

/-- A text that is one word: it is not empty and holds no blanks. -/
def IsWord (word : String) : Prop :=
  IsRun word.toList

section Spaced

variable {row more : List String} {word : String}

theorem size_append_space (line word : String) :
    (line ++ " " ++ word).utf8ByteSize = line.utf8ByteSize + 1 + word.utf8ByteSize := by
  rw [String.utf8ByteSize_append, String.utf8ByteSize_append]
  rfl

theorem spaced_append (nonempty : row ≠ []) (nonempty' : more ≠ []) :
    spaced (row ++ more) = spaced row ++ " " ++ spaced more :=
  String.intercalate_append_of_ne_nil nonempty nonempty'

theorem spaced_singleton (word : String) : spaced [word] = word :=
  String.intercalate_singleton

theorem spaced_cons (word : String) (nonempty : row ≠ []) :
    spaced (word :: row) = word ++ " " ++ spaced row :=
  String.intercalate_cons_of_ne_nil nonempty

theorem spaced_snoc (nonempty : row ≠ []) (word : String) :
    spaced (row ++ [word]) = spaced row ++ " " ++ word := by
  rw [spaced_append nonempty (List.cons_ne_nil _ _), spaced_singleton]

theorem size_spaced_le_append (row more : List String) :
    (spaced row).utf8ByteSize ≤ (spaced (row ++ more)).utf8ByteSize := by
  by_cases isEmpty : row = []
  · subst isEmpty
    exact Nat.zero_le _
  · by_cases isLast : more = []
    · rw [isLast, List.append_nil]
    · rw [spaced_append isEmpty isLast, size_append_space]
      omega

/-- The words of a text are not empty and hold no blanks. -/
theorem isWord_of_mem_words {text : String} (isMember : word ∈ words text) : IsWord word := by
  obtain ⟨run, inText, rfl⟩ := List.mem_map.mp isMember
  rw [IsWord, String.toList_ofList]
  exact (hasWords_iff.mpr rfl).isRun_of_mem run inText

theorem hasWords_spaced (areWords : ∀ word ∈ row, IsWord word) :
    HasWords (spaced row).toList (row.map String.toList) := by
  induction row with
  | nil => exact .nil
  | cons word row ih =>
    obtain ⟨isWord, later⟩ := List.forall_mem_cons.mp areWords
    by_cases isLast : row = []
    · subst isLast
      exact .last isWord
    · have chars : (spaced (word :: row)).toList = word.toList ++ ' ' :: (spaced row).toList := by
        simp [spaced_cons word isLast]
      rw [chars]
      exact .run isWord (by decide) (ih later)

/-- **A line has the words that it is set from.** -/
theorem words_spaced (areWords : ∀ word ∈ row, IsWord word) : words (spaced row) = row := by
  rw [words, (hasWords_spaced areWords).charWords_eq, List.map_map]
  simp [Function.comp_def]

/-- Blanks take room: the words of a text with single spaces between them take no more than the
text. -/
theorem HasWords.size_spaced_le {cs : List Char} {ws : List (List Char)}
    (hasWords : HasWords cs ws) :
    (spaced (ws.map String.ofList)).utf8ByteSize ≤ (String.ofList cs).utf8ByteSize := by
  induction hasWords with
  | nil => exact Nat.le_refl _
  | blank _ _ ih =>
    rw [String.ofList_cons, String.utf8ByteSize_append]
    omega
  | last _ => exact Nat.le_refl _
  | @run run c cs ws _ _ _ ih =>
    have room := c.utf8Size_pos
    rw [String.ofList_append, String.ofList_cons, String.utf8ByteSize_append,
      String.utf8ByteSize_append, String.utf8ByteSize_singleton]
    by_cases isLast : ws = []
    · subst isLast
      rw [List.map_singleton, spaced_singleton]
      omega
    · rw [List.map_cons, spaced_cons _ (by simpa using isLast), size_append_space]
      omega

theorem size_spaced_words_le (text : String) :
    (spaced (words text)).utf8ByteSize ≤ text.utf8ByteSize := by
  have bound := (hasWords_iff.mpr (Eq.refl (charWords text.toList))).size_spaced_le
  rwa [String.ofList_toList] at bound

end Spaced

/-- A line without needless blanks: it is not empty, it neither starts nor ends with a blank, and
the blanks inside are single spaces. -/
structure WellSpaced (line : String) : Prop where
  nonempty : line ≠ ""
  leading : ∀ c ∈ line.toList.head?, isBlank c = false
  trailing : ∀ c ∈ line.toList.getLast?, isBlank c = false
  single : line.toList.IsChain fun c d => isBlank c = false ∨ isBlank d = false
  plain : ∀ c ∈ line.toList, isBlank c = true → c = ' '

theorem IsWord.wellSpaced {word : String} (isWord : IsWord word) : WellSpaced word := by
  obtain ⟨nonempty, solid⟩ := isWord
  constructor
  · rintro rfl
    exact nonempty rfl
  · exact fun c isHead => solid c (List.mem_of_mem_head? isHead)
  · exact fun c isLast => solid c (List.mem_of_mem_getLast? isLast)
  · apply List.Pairwise.isChain
    exact List.pairwise_of_forall_mem_list fun c isMember d _ => .inl (solid c isMember)
  · intro c isMember isBlank
    cases (solid c isMember).symm.trans isBlank

theorem WellSpaced.cons {word line : String} (isWord : IsWord word) (later : WellSpaced line) :
    WellSpaced (word ++ " " ++ line) := by
  have first := isWord.wellSpaced
  have chars : (word ++ " " ++ line).toList = word.toList ++ ' ' :: line.toList := by simp
  have occupied : line.toList ≠ [] := by simpa using later.nonempty
  constructor
  · intro isEmpty
    simp [isEmpty] at chars
  · intro c isHead
    rw [chars, List.head?_append_of_ne_nil _ isWord.nonempty] at isHead
    exact first.leading c isHead
  · intro c isLast
    rw [chars, List.getLast?_append_of_ne_nil _ (List.cons_ne_nil _ _),
      List.getLast?_cons_of_ne_nil occupied] at isLast
    exact later.trailing c isLast
  · rw [chars, List.isChain_append, List.isChain_cons]
    refine ⟨first.single, ⟨fun d isHead => .inr (later.leading d isHead), later.single⟩, ?_⟩
    exact fun c isLast _ _ => .inl (first.trailing c isLast)
  · intro c isMember isBlank
    rw [chars, List.mem_append, List.mem_cons] at isMember
    rcases isMember with inWord | isSpace | inLine
    · exact first.plain c inWord isBlank
    · exact isSpace
    · exact later.plain c inLine isBlank

theorem wellSpaced_spaced {row : List String} (nonempty : row ≠ [])
    (areWords : ∀ word ∈ row, IsWord word) : WellSpaced (spaced row) := by
  induction row with
  | nil => exact absurd rfl nonempty
  | cons word row ih =>
    obtain ⟨isWord, later⟩ := List.forall_mem_cons.mp areWords
    by_cases isLast : row = []
    · subst isLast
      exact isWord.wellSpaced
    · rw [spaced_cons word isLast]
      exact .cons isWord (ih isLast later)

end RiscBackend.Text
