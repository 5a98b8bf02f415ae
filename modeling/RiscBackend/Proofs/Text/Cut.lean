/-
# Beginnings, runs and separators

What is put in front of a text is found there and can be taken off again. A run at the start of a
text ends where the text does not go on with it. A text is cut at the first occurrence of the
separator, and not at all without one. Cut at all occurrences it can be put together again, so that
two texts are equal if their lines are.
-/

import Mathlib.Data.List.TakeWhile
import RiscBackend.Text.Cut
import RiscBackend.Text.Difference

namespace RiscBackend.Text

theorem hasStart_append_append (start a b : String) :
    hasStart (start ++ a) (start ++ b) = hasStart a b := by
  unfold hasStart
  rw [String.toList_append, String.toList_append]
  induction start.toList with
  | nil => rfl
  | cons c cs ih => rw [List.cons_append, List.cons_append, List.isPrefixOf_cons_cons_self, ih]

theorem hasStart_append (start text : String) : hasStart start (start ++ text) = true := by
  simp [hasStart]

theorem hasStart_of_head_ne {start text : String} {c d : Char} (first : start.toList.head? = some c)
    (other : text.toList.head? = some d) (ne : c ≠ d) : hasStart start text = false := by
  obtain ⟨cs, start_eq⟩ := List.head?_eq_some_iff.mp first
  obtain ⟨ds, text_eq⟩ := List.head?_eq_some_iff.mp other
  rw [hasStart, start_eq, text_eq, List.isPrefixOf, beq_false_of_ne ne, Bool.false_and]

theorem dropStart_append (start text : String) : dropStart start (start ++ text) = text := by
  rw [dropStart, if_pos (hasStart_append start text), String.toList_append, ← String.length_toList,
    List.drop_left, String.ofList_toList]

theorem dropStart_of_not_hasStart {start text : String} (other : hasStart start text = false) :
    dropStart start text = text :=
  if_neg (by simp [other])

/-- A text with a beginning is that beginning and what is left without it. -/
theorem append_dropStart {start text : String} (starts : hasStart start text = true) :
    start ++ dropStart start text = text := by
  obtain ⟨rest, found⟩ := List.isPrefixOf_iff_prefix.mp starts
  have text_eq : text = start ++ String.ofList rest := by
    rw [← String.toList_inj, String.toList_append, String.toList_ofList, found]
  rw [text_eq, dropStart_append]

/-- A run ends where the text does not go on with it. -/
theorem span_of_ends {test : Char → Bool} {run cs : List Char}
    (holds : ∀ c ∈ run, test c = true) (ends : ∀ c ∈ cs.head?, test c = false) :
    (run ++ cs).takeWhile test = run ∧ (run ++ cs).dropWhile test = cs := by
  rw [List.takeWhile_append_of_pos holds, List.dropWhile_append_of_pos holds]
  cases cs with
  | nil => exact ⟨List.append_nil run, rfl⟩
  | cons c rest =>
    have stops : ¬ test c = true := by simp [ends c rfl]
    rw [List.takeWhile_cons_of_neg stops, List.dropWhile_cons_of_neg stops]
    exact ⟨List.append_nil run, rfl⟩

/-- What follows a longest run does not belong to it. -/
theorem ends_dropWhile (test : Char → Bool) (cs : List Char) :
    ∀ x ∈ (cs.dropWhile test).head?, test x = false := by
  intro x isHead
  have stops := List.head?_dropWhile_not test cs
  rw [Option.mem_def.mp isHead] at stops
  exact stops

theorem bne_of_not_mem {separator : Char} {cs : List Char} (absent : separator ∉ cs) :
    ∀ c ∈ cs, (c != separator) = true := by
  intro c isMember
  rw [bne_iff_ne]
  rintro rfl
  exact absent isMember

/-- Nothing is cut off a text in which the separator does not occur. -/
theorem cut_of_not_mem {separator : Char} {text : String} (absent : separator ∉ text.toList) :
    cut separator text = (text, none) := by
  have whole := bne_of_not_mem absent
  have kept : text.toList.takeWhile (· != separator) = text.toList :=
    List.takeWhile_eq_self_iff.mpr whole
  have rest : text.toList.dropWhile (· != separator) = [] := List.dropWhile_eq_nil_iff.mpr whole
  rw [cut, rest, kept, String.ofList_toList]

/-- A text is cut at the first occurrence of the separator. -/
theorem cut_append {separator : Char} {front : String} (absent : separator ∉ front.toList)
    (back : String) : cut separator (front ++ separator.toString ++ back) = (front, some back) := by
  have chars : (front ++ separator.toString ++ back).toList =
      front.toList ++ separator :: back.toList := by simp
  have ends : ∀ c ∈ (separator :: back.toList).head?, (c != separator) = false := by simp
  obtain ⟨kept, rest⟩ := span_of_ends (bne_of_not_mem absent) ends
  simp only [cut, chars, kept, rest, String.ofList_toList]

/-- Another character in front stays in front of the cut. -/
theorem cut_cons_fst {separator c : Char} (ne : c ≠ separator) (text : String) :
    (cut separator (String.ofList (c :: text.toList))).1 = c.toString ++ (cut separator text).1 := by
  have fst_eq (text : String) :
      (cut separator text).1 = String.ofList (text.toList.takeWhile (· != separator)) := by
    rw [cut]
    split <;> rfl
  rw [fst_eq, fst_eq, String.toList_ofList, List.takeWhile_cons_of_pos (by simpa using ne),
    ← String.toList_inj]
  simp

theorem cut_separator_fst (separator : Char) (text : String) :
    (cut separator (String.ofList (separator :: text.toList))).1 = "" := by
  simp [cut]

theorem runs_ne_nil {α : Type} [DecidableEq α] (separator : α) (l : List α) :
    runs separator l ≠ [] := by
  cases l with
  | nil => exact List.cons_ne_nil _ _
  | cons a rest =>
    unfold runs
    split
    · exact List.cons_ne_nil _ _
    · split <;> exact List.cons_ne_nil _ _

/-- The runs with the separators between them are the whole. -/
theorem intercalate_runs {α : Type} [DecidableEq α] (separator : α) (l : List α) :
    [separator].intercalate (runs separator l) = l := by
  induction l with
  | nil => rfl
  | cons a rest ih =>
    obtain ⟨run, later, rest_eq⟩ := List.exists_cons_of_ne_nil (runs_ne_nil separator rest)
    rw [rest_eq] at ih
    unfold runs
    rw [rest_eq]
    split
    · rename_i same
      simp [same, ih]
    · rw [← ih]
      cases later <;> simp

/-- Texts with the same lines are equal. -/
theorem byteLines_inj {a b : ByteArray} : byteLines a = byteLines b ↔ a = b := by
  constructor
  · intro same
    have joined := congrArg (List.intercalate [0x0A]) same
    rw [byteLines, byteLines, intercalate_runs, intercalate_runs] at joined
    exact ByteArray.ext (Array.toList_inj.mp joined)
  · rintro rfl
    rfl

end RiscBackend.Text
