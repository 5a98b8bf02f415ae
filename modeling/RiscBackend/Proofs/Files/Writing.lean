/-
# What a written file changes

A file that is put into a directory is found there, and nothing else changes: other files keep their
contents, and a path that led to a directory or to nothing still does, if the new file lies beside
one that was there before. Putting the same content once more changes nothing at all.
-/

import RiscBackend.Files.Directory

namespace RiscBackend.Files.Directory

section Put

variable {d e : Directory} {path other file : Path} {content : ByteArray}

/-- An entry with the content of its file replaced, if it is the file of the path. -/
def renewed (path : Path) (content : ByteArray) (entry : Path × ByteArray) : Path × ByteArray :=
  (entry.1, if entry.1 = path then content else entry.2)

theorem put_of_isSome (known : (d.files.lookup path).isSome = true) :
    d.put path content = { files := d.files.map (renewed path content) } := by
  rw [put, if_pos known]
  congr 2
  funext ⟨key, old⟩
  by_cases isKey : key = path <;> simp [renewed, isKey]

theorem put_of_none (unknown : d.files.lookup path = none) :
    d.put path content = { files := d.files ++ [(path, content)] } := by
  rw [put, unknown]
  rfl

theorem lookup_map_renewed (files : List (Path × ByteArray)) :
    (files.map (renewed path content)).lookup other =
      (files.lookup other).map fun old => if other = path then content else old := by
  induction files with
  | nil => rfl
  | cons entry rest ih =>
    rw [List.map_cons, renewed, List.lookup_cons, List.lookup_cons]
    by_cases isKey : other = entry.1
    · simp [isKey]
    · rw [beq_false_of_ne isKey]
      exact ih

/-- The file that was put is found, and every other file is as it was. -/
theorem lookup_put (d : Directory) (path other : Path) (content : ByteArray) :
    (d.put path content).files.lookup other =
      if other = path then some content else d.files.lookup other := by
  cases known : d.files.lookup path with
  | some old =>
    rw [put_of_isSome (by rw [known, Option.isSome_some]), lookup_map_renewed]
    by_cases isPath : other = path
    · simp [isPath, known]
    · simp [isPath]
  | none =>
    rw [put_of_none known, List.lookup_append]
    by_cases isPath : other = path
    · simp [isPath, known]
    · rw [if_neg isPath, List.lookup_cons, beq_false_of_ne isPath]
      simp

theorem mem_files_of_lookup (found : d.files.lookup file = some content) :
    (file, content) ∈ d.files := by
  obtain ⟨before, after, files_eq, -⟩ := List.lookup_eq_some_iff.mp found
  rw [files_eq]
  simp

/-- Below a path lie the files that lay there before, and the file that was put. -/
theorem any_isPrefixOf_put (d : Directory) (path other : Path) (content : ByteArray) :
    ((d.put path content).files.any fun entry => other.isPrefixOf entry.1) =
      ((d.files.any fun entry => other.isPrefixOf entry.1) || other.isPrefixOf path) := by
  cases known : d.files.lookup path with
  | some old =>
    have isThere := mem_files_of_lookup known
    rw [put_of_isSome (by rw [known, Option.isSome_some]), List.any_map]
    cases below : other.isPrefixOf path with
    | false => rw [Bool.or_false]; rfl
    | true =>
      rw [Bool.or_true, List.any_eq_true]
      exact ⟨(path, old), isThere, below⟩
  | none => simp [put_of_none known]

/-- A file that is put beside another one leaves what every other path leads to. -/
theorem entry?_put_of_ne (isThere : (d.files.lookup file).isSome = true)
    (beside : path.dropLast = file.dropLast) (ne : other ≠ path) (content : ByteArray) :
    Directory.entry? (d.put path content) other = d.entry? other := by
  have below : other.isPrefixOf path = true →
      (d.files.any fun entry => other.isPrefixOf entry.1) = true := by
    intro isBelow
    obtain ⟨rest, path_eq⟩ := List.isPrefixOf_iff_prefix.mp isBelow
    obtain ⟨old, found⟩ := Option.isSome_iff_exists.mp isThere
    have proper : rest ≠ [] := by
      rintro rfl
      exact ne (by simpa using path_eq)
    have front : other <+: file.dropLast := by
      rw [← beside, ← path_eq, List.dropLast_append_of_ne_nil proper]
      exact List.prefix_append _ _
    refine List.any_eq_true.mpr ⟨(file, old), mem_files_of_lookup found, ?_⟩
    exact List.isPrefixOf_iff_prefix.mpr (front.trans (List.dropLast_prefix file))
  have same : ((d.put path content).files.any fun entry => other.isPrefixOf entry.1) =
      d.files.any fun entry => other.isPrefixOf entry.1 := by
    rw [any_isPrefixOf_put]
    cases isBelow : other.isPrefixOf path with
    | false => rw [Bool.or_false]
    | true => rw [below isBelow, Bool.true_or]
  unfold entry?
  rw [lookup_put, if_neg ne]
  cases d.files.lookup other with
  | some => rfl
  | none =>
    show (if other.isEmpty || (d.put path content).files.any fun entry => other.isPrefixOf entry.1
      then some Entry.directory else none) = _
    rw [same]

theorem entry?_put_self (d : Directory) (path : Path) (content : ByteArray) :
    Directory.entry? (d.put path content) path = some (.file content) := by
  rw [ entry?, lookup_put, if_pos rfl]

end Put

section Access

variable {d e : Directory} {path : Path} {content : ByteArray} {text : String}

/-- What is read depends on what the path leads to only. -/
theorem readAt_congr (same : e.entry? path = d.entry? path) (text : String) :
    e.readAt (.inside path) text = d.readAt (.inside path) text := by
  have entry_eq : e.entryAt? (.inside path) = d.entryAt? (.inside path) := same
  rw [readAt, readAt, entry_eq]

theorem isDirectory_congr (same : e.entry? path = d.entry? path) :
    e.isDirectory path = d.isDirectory path := by
  rw [isDirectory, isDirectory, same]

theorem lookup_of_readAt (read : d.readAt (.inside path) text = .ok content) :
    d.files.lookup path = some content := by
  unfold readAt at read
  split at read
  · cases read
  · have entry_eq : d.entry? path = some (.file content) := by
      split at read
      · next found =>
        cases read
        exact found
      · cases read
      · cases read
    unfold entry? at entry_eq
    split at entry_eq
    · next found =>
      cases entry_eq
      exact found
    · split at entry_eq <;> cases entry_eq

/-- A file can be written unless its name is too long or belongs to a directory. -/
theorem writeAt_inside (d : Directory) (path : Path) (text : String) (content : ByteArray) :
    d.writeAt (.inside path) text content =
      if path.endsTooLong then .error { verb := .open, path := text, cause := .nameTooLong }
      else if d.isDirectory path then .error { verb := .open, path := text, cause := .isDirectory }
      else .ok (d.put path content) := by
  have entry_eq : d.entryAt? (.inside path) = d.entry? path := rfl
  have path_eq : (Place.inside path).path = path := rfl
  rw [writeAt, entry_eq, path_eq, isDirectory]
  congr 1
  rcases d.entry? path with _ | _ | _ <;> rfl

end Access

/-- All that a directory has at a path is one content. -/
structure Keeps (d : Directory) (path : Path) (content : ByteArray) : Prop where
  found : d.files.lookup path = some content
  only : ∀ entry ∈ d.files, entry.1 = path → entry.2 = content

section Keeps

variable {d : Directory} {path other : Path} {content new : ByteArray}

theorem keeps_put (d : Directory) (path : Path) (content : ByteArray) :
    (d.put path content).Keeps path content where
  found := by rw [lookup_put, if_pos rfl]
  only entry isEntry isPath := by
    cases known : d.files.lookup path with
    | some old =>
      rw [put_of_isSome (by rw [known, Option.isSome_some])] at isEntry
      obtain ⟨before, -, rfl⟩ := List.mem_map.mp isEntry
      exact if_pos isPath
    | none =>
      rw [put_of_none known] at isEntry
      rcases List.mem_append.mp isEntry with isOld | isNew
      · have absent := List.lookup_eq_none_iff.mp known entry isOld
        simp [isPath] at absent
      · rw [List.mem_singleton.mp isNew]

/-- Another file does not touch what is kept. -/
theorem Keeps.put (keeps : d.Keeps path content) (ne : path ≠ other) (new : ByteArray) :
    (d.put other new).Keeps path content where
  found := by rw [lookup_put, if_neg ne, keeps.found]
  only entry isEntry isPath := by
    cases known : d.files.lookup other with
    | some old =>
      rw [put_of_isSome (by rw [known, Option.isSome_some])] at isEntry
      obtain ⟨before, isBefore, rfl⟩ := List.mem_map.mp isEntry
      have isBeforePath : before.1 = path := isPath
      rw [renewed, if_neg (by rwa [isBeforePath])]
      exact keeps.only before isBefore isPath
    | none =>
      rw [put_of_none known] at isEntry
      rcases List.mem_append.mp isEntry with isOld | isNew
      · exact keeps.only entry isOld isPath
      · rw [List.mem_singleton.mp isNew] at isPath
        exact absurd isPath.symm ne

/-- Putting what is kept changes nothing. -/
theorem Keeps.put_eq (keeps : d.Keeps path content) : d.put path content = d := by
  rw [put_of_isSome (by rw [keeps.found, Option.isSome_some])]
  have same : ∀ entry ∈ d.files, renewed path content entry = entry := by
    intro entry isEntry
    rw [renewed]
    split
    · next isPath => rw [← keeps.only entry isEntry isPath]
    · rfl
  rw [List.map_congr_left same, List.map_id']

theorem Keeps.entry?_eq (keeps : d.Keeps path content) : d.entry? path = some (.file content) := by
  rw [ entry?, keeps.found]

theorem Keeps.readAt_eq (keeps : d.Keeps path content) (short : path.endsTooLong = false)
    (text : String) : d.readAt (.inside path) text = .ok content := by
  rw [readAt]
  simp only [Place.inside, entryAt?, keeps.entry?_eq, short]
  rfl

end Keeps

end RiscBackend.Files.Directory
