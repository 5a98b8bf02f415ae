/-
# Checks after a renewal

A golden run that renews writes the assembly of a source file beside it. The file it writes is not a
source file, and it belongs to one source file only, so in whatever order the workers write, no test
notices the others, and at the end every file that was written has the assembly of its source.

A check that follows therefore passes where the renewal did, with the same digest, and says of every
other file what the renewal said. A second renewal writes what is there already and leaves the
directory as it is.
-/

import RiscBackend.Proofs.Files.Writing
import RiscBackend.Proofs.Golden.Schedules

namespace RiscBackend.Golden

open Files (Directory Path)
open Progress (isSkipped)

/-- The last component of a path ends as the names of source files do. -/
def IsSource (file : Path) : Prop :=
  ∃ stem : String, file.base = stem ++ ".ll"

section Paths

variable {file other : Path}

theorem dropExtension_source (stem : String) : Files.dropExtension (stem ++ ".ll") = stem := by
  unfold Files.dropExtension
  simp

theorem IsSource.eq_concat (source : IsSource file) :
    ∃ stem : String, file = file.dropLast ++ [stem ++ ".ll"] ∧
      goldenPath file = file.dropLast ++ [stem ++ ".s"] := by
  obtain ⟨stem, base_eq⟩ := source
  refine ⟨stem, ?_, ?_⟩
  · have nonempty : file ≠ [] := by
      rintro rfl
      have lengths := congrArg (fun text => text.toList.length) base_eq
      simp [Path.base] at lengths
    have last_eq : file.getLast nonempty = stem ++ ".ll" := by
      rw [← base_eq, Path.base, List.getLastD_eq_getLast?, List.getLast?_eq_some_getLast nonempty,
        Option.getD_some]
    rw [← last_eq, List.dropLast_concat_getLast]
  · rw [goldenPath, base_eq, dropExtension_source]

theorem dropLast_goldenPath (file : Path) : (goldenPath file).dropLast = file.dropLast := by
  rw [goldenPath, List.dropLast_concat]

/-- Different source files have different expected assembly. -/
theorem IsSource.goldenPath_inj (source : IsSource file) (sourceOther : IsSource other)
    (same : goldenPath file = goldenPath other) : file = other := by
  obtain ⟨stem, file_eq, golden_eq⟩ := source.eq_concat
  obtain ⟨stemOther, other_eq, goldenOther_eq⟩ := sourceOther.eq_concat
  rw [golden_eq, goldenOther_eq] at same
  obtain ⟨fronts_eq, names_eq⟩ := List.append_inj' same rfl
  have stems_eq : stem = stemOther := by
    have texts_eq := congrArg String.toList (List.singleton_inj.mp names_eq)
    rw [String.toList_append, String.toList_append] at texts_eq
    exact String.toList_inj.mp (List.append_cancel_right texts_eq)
  rw [file_eq, other_eq, fronts_eq, stems_eq]

/-- Expected assembly is not a source file. -/
theorem IsSource.ne_goldenPath (source : IsSource file) (sourceOther : IsSource other) :
    file ≠ goldenPath other := by
  obtain ⟨stem, file_eq, -⟩ := source.eq_concat
  obtain ⟨stemOther, -, goldenOther_eq⟩ := sourceOther.eq_concat
  intro same
  rw [file_eq, goldenOther_eq] at same
  obtain ⟨-, names_eq⟩ := List.append_inj' same rfl
  have texts_eq := congrArg (fun text => text.toList.getLast?) (List.singleton_inj.mp names_eq)
  simp at texts_eq

end Paths

/-- A file can be written at a path. -/
def Writable (d : Directory) (path : Path) : Prop :=
  path.endsTooLong = false ∧ d.isDirectory path = false

instance (d : Directory) (path : Path) : Decidable (Writable d path) :=
  inferInstanceAs (Decidable (_ ∧ _))

section Settling

variable {settings : Settings} {d e : Directory} {file : Path}

theorem settle_of_writable (renewing : settings.update = true)
    (writable : Writable d (goldenPath file)) (program : Asm.Program) :
    settle settings d file program =
      ({ file, status := .pass, message := "golden file updated", digest := some program.digest },
        d.put (goldenPath file) program.text.toUTF8) := by
  unfold settle
  simp [renewing, Directory.writeAt_inside, writable.1, writable.2]

theorem settle_of_not_writable (renewing : settings.update = true)
    (unwritable : ¬ Writable d (goldenPath file)) (program : Asm.Program) :
    (settle settings d file program).1.status = .error ∧ (settle settings d file program).2 = d := by
  unfold settle
  simp only [renewing, if_true, Directory.writeAt_inside]
  by_cases tooLong : (goldenPath file).endsTooLong = true
  · simp [tooLong]
  · have isDirectory : d.isDirectory (goldenPath file) = true := by
      by_contra notDirectory
      exact unwritable ⟨by simpa using tooLong, by simpa using notDirectory⟩
    simp [tooLong, isDirectory]

theorem settle_fst_congr (renewing : settings.update = true)
    (same : e.isDirectory (goldenPath file) = d.isDirectory (goldenPath file))
    (program : Asm.Program) :
    (settle settings e file program).1 = (settle settings d file program).1 := by
  unfold settle
  simp only [renewing, if_true, Directory.writeAt_inside, same]
  by_cases tooLong : (goldenPath file).endsTooLong = true
  · simp [tooLong]
  · by_cases isDirectory : d.isDirectory (goldenPath file) = true
    · simp [tooLong, isDirectory]
    · simp [tooLong, isDirectory]

end Settling

/-- Two directories differ in the expected assembly of some files only, and can be written in the same
places. -/
structure Undisturbed (files : List Path) (d e : Directory) : Prop where
  elsewhere : ∀ path, (∀ file ∈ files, path ≠ goldenPath file) → e.entry? path = d.entry? path
  directories : ∀ file ∈ files, e.isDirectory (goldenPath file) = d.isDirectory (goldenPath file)

/-- The expected assembly of a file is kept, if the file has one that can be written. -/
def Renewed (settings : Settings) (d e : Directory) (file : Path) : Prop :=
  ∀ program, compileFile settings d file = .ok program → Writable d (goldenPath file) →
    e.Keeps (goldenPath file) program.text.toUTF8

section Undisturbed

variable {settings : Settings} {files : List Path} {d e : Directory} {file : Path}

theorem Undisturbed.readAt_eq (undisturbed : Undisturbed files d e)
    (sources : ∀ file ∈ files, IsSource file) (isFile : file ∈ files) :
    e.readAt (.inside file) file.text = d.readAt (.inside file) file.text := by
  apply Directory.readAt_congr
  apply undisturbed.elsewhere
  intro other isOther
  exact (sources file isFile).ne_goldenPath (sources other isOther)

theorem Undisturbed.writable_iff (undisturbed : Undisturbed files d e) (isFile : file ∈ files) :
    Writable e (goldenPath file) ↔ Writable d (goldenPath file) := by
  rw [Writable, Writable, undisturbed.directories file isFile]

theorem readAt_of_compileFile {program : Asm.Program}
    (compiled : compileFile settings d file = .ok program) :
    ∃ content, d.readAt (.inside file) file.text = .ok content := by
  unfold compileFile at compiled
  cases reading : d.readAt (.inside file) file.text with
  | error fault =>
    rw [reading] at compiled
    cases compiled
  | ok content => exact ⟨content, rfl⟩

/-- Renewing the expected assembly of a file disturbs nothing else. -/
theorem Undisturbed.put (undisturbed : Undisturbed files d e) (isFile : file ∈ files)
    (isThere : (e.files.lookup file).isSome = true) (writable : Writable e (goldenPath file))
    (content : ByteArray) : Undisturbed files d (e.put (goldenPath file) content) where
  elsewhere path apart := by
    rw [← undisturbed.elsewhere path apart]
    exact Directory.entry?_put_of_ne isThere (dropLast_goldenPath file) (apart file isFile) content
  directories other isOther := by
    rw [← undisturbed.directories other isOther]
    by_cases same : goldenPath other = goldenPath file
    · rw [same, writable.2, Directory.isDirectory, Directory.entry?_put_self]
    · apply Directory.isDirectory_congr
      exact Directory.entry?_put_of_ne isThere (dropLast_goldenPath file) same content

/-- A renewal of source files does not disturb its tests. -/
theorem steady_of_renewing (renewing : settings.update = true)
    (sources : ∀ file ∈ files, IsSource file) :
    Steady settings d files (Undisturbed files d) (Renewed settings d) where
  start := ⟨fun _ _ => rfl, fun _ _ => rfl⟩
  reads e calm file isFile := calm.readAt_eq sources isFile
  settles e file program calm offered compiled := by
    have isFile := offered.mem
    refine ⟨settle_fst_congr renewing (calm.directories file isFile) program, ?_, ?_⟩
    · by_cases writable : Writable e (goldenPath file)
      · obtain ⟨content, reading⟩ := readAt_of_compileFile compiled
        rw [← calm.readAt_eq sources isFile] at reading
        have found := Directory.lookup_of_readAt reading
        rw [settle_of_writable renewing writable]
        exact calm.put isFile (by rw [found, Option.isSome_some]) writable _
      · rw [(settle_of_not_writable renewing writable program).2]
        exact calm
    · intro again compiledAgain writable
      obtain rfl : program = again := Except.ok.inj (compiled.symm.trans compiledAgain)
      rw [settle_of_writable renewing ((calm.writable_iff isFile).mpr writable)]
      exact Directory.keeps_put e _ _
  keeps e file program calm offered compiled other isOther renewed := by
    intro again compiledOther writable
    have keeps := renewed again compiledOther writable
    by_cases writableFile : Writable e (goldenPath file)
    · rw [settle_of_writable renewing writableFile]
      by_cases same : goldenPath other = goldenPath file
      · -- only the file itself writes there, and it writes what is kept
        obtain rfl := (sources other isOther).goldenPath_inj (sources file offered.mem) same
        obtain rfl : program = again := Except.ok.inj (compiled.symm.trans compiledOther)
        exact Directory.keeps_put e _ _
      · exact keeps.put same _
    · rw [(settle_of_not_writable renewing writableFile program).2]
      exact keeps

end Undisturbed

/-- No write failed: only a file with an assembly has a digest, and all that can go wrong with it in a
renewal is the write. -/
def NoWriteFailed (p : Progress) : Prop :=
  ∀ result ∈ p.results, result.status = .error → result.digest = none

instance (p : Progress) : Decidable (NoWriteFailed p) :=
  inferInstanceAs (Decidable (∀ result ∈ p.results, _ → _))

/-- What a check says of a file after a renewal has said something of it. -/
def Result.checked (result : Result) : Result :=
  if result.status = .pass then
    { result with message := s!"assembly matches {(goldenPath result.file).base}" }
  else result

section Renewal

variable {settings : Settings} {d e : Directory} {files before after : List Path} {file : Path}
  {schedule : List Move}

theorem file_checked (result : Result) : result.checked.file = result.file := by
  unfold Result.checked
  split <;> rfl

theorem direct?_congr {κ : Type} [DecidableEq κ] {key : ByteArray → κ} {changed : Settings}
    (skips : ∀ file, isSkipped changed file = isSkipped settings file)
    (reads : ∀ other ∈ before ++ [file],
      e.readAt (.inside other) other.text = d.readAt (.inside other) other.text) :
    direct? key changed e before file = direct? key settings d before file := by
  have twin_eq (k : κ) : twin? key changed e before k = twin? key settings d before k := by
    apply List.find?_congr
    intro earlier isEarlier
    rw [skips, contentOf?, reads earlier (List.mem_append_left _ isEarlier), contentOf?]
  unfold direct?
  rw [skips, reads file (by simp)]
  simp only [twin_eq]

theorem undisturbed_renewal (renewing : settings.update = true)
    (sources : ∀ file ∈ files, IsSource file) (schedule : List Move) :
    Undisturbed files d (runSchedule settings d files schedule).directory := by
  obtain ⟨looked, sound⟩ := (steady_of_renewing renewing sources).sound schedule
  exact sound.calm

/-- The result of every test is among the results of a complete renewal, and what the test was to
write is kept. -/
theorem tested_renewal (renewing : settings.update = true)
    (sources : ∀ file ∈ files, IsSource file)
    (complete : (runSchedule settings d files schedule).isComplete = true)
    (offered : Offered settings d files file) {program : Asm.Program}
    (compiled : compileFile settings d file = .ok program) :
    (settle settings d file program).1 ∈ (runSchedule settings d files schedule).results ∧
      Renewed settings d (runSchedule settings d files schedule).directory file := by
  obtain ⟨looked, sound⟩ := (steady_of_renewing renewing sources).sound schedule
  obtain ⟨before, after, files_eq, direct⟩ := offered
  have isResult : (settle settings d file program).1 ∈
      (runSchedule settings d files schedule).results := by
    apply (sound.results_perm complete).mem_iff.mpr
    apply mem_verdictsFrom.mpr
    refine ⟨before, file, after, files_eq, ?_⟩
    rw [List.nil_append, verdict, direct, Option.getD_none, tested, compiled]
  obtain ⟨names_file, names_assembly⟩ := file_digest_settle settings d file program
  have renewed := sound.done _ isResult (by rw [names_assembly, Option.isSome_some])
  rw [names_file] at renewed
  exact ⟨isResult, renewed⟩

/-- After a renewal the desk decides as it did before. -/
theorem direct?_renewal (renewing : settings.update = true)
    (sources : ∀ file ∈ files, IsSource file) (schedule : List Move) {changed : Settings}
    (skips : ∀ file, isSkipped changed file = isSkipped settings file)
    (files_eq : files = before ++ file :: after) :
    direct? Text.Digest.ofBytes changed (runSchedule settings d files schedule).directory before
      file = direct? Text.Digest.ofBytes settings d before file := by
  apply direct?_congr skips
  intro other isOther
  apply (undisturbed_renewal renewing sources schedule).readAt_eq sources
  rw [files_eq]
  rcases List.mem_append.mp isOther with isBefore | isLast
  · exact List.mem_append_left _ isBefore
  · simp [List.mem_singleton.mp isLast]

theorem compileFile_renewal (renewing : settings.update = true)
    (sources : ∀ file ∈ files, IsSource file) (schedule : List Move) (isFile : file ∈ files) :
    compileFile settings (runSchedule settings d files schedule).directory file =
      compileFile settings d file := by
  have undisturbed := undisturbed_renewal (d := d) renewing sources schedule
  rw [compileFile, compileFile, undisturbed.readAt_eq sources isFile]

/-- The verdict of a check after a complete renewal without failed writes. -/
theorem verdict_renewal (renewing : settings.update = true)
    (sources : ∀ file ∈ files, IsSource file)
    (complete : (runSchedule settings d files schedule).isComplete = true)
    (written : NoWriteFailed (runSchedule settings d files schedule))
    (files_eq : files = before ++ file :: after) :
    verdict Text.Digest.ofBytes { settings with update := false }
        (runSchedule settings d files schedule).directory before file =
      (verdict Text.Digest.ofBytes settings d before file).checked := by
  have isFile : file ∈ files := by simp [files_eq]
  have skips : ∀ file, isSkipped { settings with update := false } file = isSkipped settings file :=
    fun _ => rfl
  rw [verdict, verdict, direct?_renewal renewing sources schedule skips files_eq]
  cases direct : direct? Text.Digest.ofBytes settings d before file with
  | some result =>
    rw [Option.getD_some, Option.getD_some, Result.checked, if_neg (direct?_eq_some direct).2.2]
  | none =>
    have compile_eq : compileFile { settings with update := false }
        (runSchedule settings d files schedule).directory file = compileFile settings d file :=
      compileFile_renewal renewing sources schedule isFile
    rw [Option.getD_none, Option.getD_none, tested, tested, compile_eq]
    cases compiled : compileFile settings d file with
    | error message => rfl
    | ok program =>
      have offered : Offered settings d files file := ⟨before, after, files_eq, direct⟩
      obtain ⟨isResult, renewed⟩ := tested_renewal renewing sources complete offered compiled
      -- a failed write would have left an error with a digest
      have writable : Writable d (goldenPath file) := by
        by_contra unwritable
        have noDigest := written _ isResult (settle_of_not_writable renewing unwritable program).1
        rw [(file_digest_settle settings d file program).2] at noDigest
        cases noDigest
      have keeps := renewed program compiled writable
      dsimp only
      rw [settle_of_writable renewing writable,
        settle_of_expected rfl (keeps.readAt_eq writable.1 _)]
      rfl

/-- A second renewal changes nothing, in whatever order its moves are made. -/
theorem directory_second_renewal (renewing : settings.update = true)
    (sources : ∀ file ∈ files, IsSource file)
    (complete : (runSchedule settings d files schedule).isComplete = true) (again : List Move) :
    (runSchedule settings (runSchedule settings d files schedule).directory files again).directory =
      (runSchedule settings d files schedule).directory := by
  have undisturbed := undisturbed_renewal (d := d) renewing sources schedule
  have steady : Steady settings (runSchedule settings d files schedule).directory files
      (· = (runSchedule settings d files schedule).directory) fun _ _ => True := by
    apply steady_of_settled
    intro file program offered compiled
    have isFile := offered.mem
    obtain ⟨before, after, files_eq, direct⟩ := offered
    rw [direct?_renewal renewing sources schedule (fun _ => rfl) files_eq] at direct
    rw [compileFile_renewal renewing sources schedule isFile] at compiled
    have renewed := (tested_renewal renewing sources complete ⟨before, after, files_eq, direct⟩
      compiled).2
    by_cases writable :
        Writable (runSchedule settings d files schedule).directory (goldenPath file)
    · rw [settle_of_writable renewing writable]
      exact (renewed program compiled ((undisturbed.writable_iff isFile).mp writable)).put_eq
    · exact (settle_of_not_writable renewing writable program).2
  obtain ⟨looked, sound⟩ := steady.sound again
  exact sound.calm

end Renewal

/-- A run that renews the expected assembly. -/
def renewal (settings : Settings) (d : Directory) (files : List Path) (schedule : List Move) :
    Progress :=
  runSchedule { settings with update := true } d files schedule

/-- A run that compares with the expected assembly. -/
def check (settings : Settings) (d : Directory) (files : List Path) (schedule : List Move) :
    Progress :=
  runSchedule { settings with update := false } d files schedule

/-- After a renewal of source files in which no write failed, every check with the same settings
reports for every file what the renewal reported, with the same digest; only where the renewal said
that it wrote the expected assembly, the check says that the assembly matches. The check leaves the
directory as it is and can be brought to its end. A further renewal leaves the directory as it is too,
at every moment. All this holds in whatever order the desk and the workers move in the three runs.
The directory has no links, so that the expected assembly of one file is never that of another and
never a source. -/
theorem check_after_renewal_passes (settings : Settings) (d : Directory) (files : List Path)
    (distinct : (files.map Path.text).Nodup) (sources : ∀ file ∈ files, IsSource file)
    (first : List Move) (complete : (renewal settings d files first).isComplete = true)
    (written : NoWriteFailed (renewal settings d files first)) :
    (∀ second : List Move,
      ((check settings (renewal settings d files first).directory files second).isComplete = true →
        sortedResults (check settings (renewal settings d files first).directory files second) =
          (sortedResults (renewal settings d files first)).map Result.checked) ∧
      (check settings (renewal settings d files first).directory files second).directory =
        (renewal settings d files first).directory ∧
      ∃ more, (check settings (renewal settings d files first).directory files
        (second ++ more)).isComplete = true) ∧
    ∀ again : List Move,
      (renewal settings (renewal settings d files first).directory files again).directory =
        (renewal settings d files first).directory := by
  have renewing : ({ settings with update := true } : Settings).update = true := rfl
  have checking : ({ settings with update := false } : Settings).update = false := rfl
  refine ⟨?_, directory_second_renewal renewing sources complete⟩
  intro second
  refine ⟨?_, directory_of_checking checking second, exists_runSchedule_complete second⟩
  intro completeSecond
  have check_perm := results_perm_of_checking checking completeSecond
  have verdicts_eq : verdictsFrom Text.Digest.ofBytes { settings with update := false }
      (renewal settings d files first).directory [] files =
        (verdictsFrom Text.Digest.ofBytes { settings with update := true } d [] files).map
          Result.checked := by
    apply verdictsFrom_eq_map
    intro front file back files_eq
    exact verdict_renewal renewing sources complete written files_eq
  have renewal_perm : ((sortedResults (renewal settings d files first)).map Result.checked).Perm
      (verdictsFrom Text.Digest.ofBytes { settings with update := false }
        (renewal settings d files first).directory [] files) := by
    obtain ⟨looked, sound⟩ := (steady_of_renewing renewing sources).sound first
    rw [verdicts_eq]
    exact ((sortedResults_perm _).trans (sound.results_perm complete)).map _
  have sorted_perm := (sortedResults_perm _).trans check_perm
  apply eq_of_perm_of_sorted (sorted_perm.trans renewal_perm.symm)
  · exact nodup_text_results sorted_perm distinct
  · exact sortedResults_pairwise _
  · apply List.pairwise_map.mpr
    simpa only [file_checked] using sortedResults_pairwise (renewal settings d files first)

/-- Three source files, one of which is broken, and an old expected assembly for the first. -/
def workshop : Directory :=
  { files := [
      (["a.ll"], "define i32 @main() \x7b\nentry:\n  ret i32 7\n\x7d\n".toUTF8),
      (["b.ll"], "define i32 @main() \x7b\nentry:\n  ret i32 8\n\x7d\n".toUTF8),
      (["c.ll"], "define".toUTF8),
      (["a.s"], "stale\n".toUTF8)] }

/-- Two workers take turns, and the second is done first. -/
def crossed : List Move :=
  [.desk, .take 0, .desk, .take 1, .desk, .work 1, .work 0, .work 1, .work 0, .work 1, .work 0,
    .work 1, .take 1, .work 0, .work 1, .work 1]

theorem check_after_renewal_passes_crossed :
    (((renewal {} workshop [["a.ll"], ["b.ll"], ["c.ll"]] crossed).results.map fun result =>
        (result.file, result.status)) =
      [(["b.ll"], .pass), (["a.ll"], .pass), (["c.ll"], .error)] ∧
      NoWriteFailed (renewal {} workshop [["a.ll"], ["b.ll"], ["c.ll"]] crossed)) ∧
    (∀ second : List Move,
      (check {} (renewal {} workshop [["a.ll"], ["b.ll"], ["c.ll"]] crossed).directory
        [["a.ll"], ["b.ll"], ["c.ll"]] second).isComplete = true →
      sortedResults (check {} (renewal {} workshop [["a.ll"], ["b.ll"], ["c.ll"]] crossed).directory
        [["a.ll"], ["b.ll"], ["c.ll"]] second) =
      (sortedResults (renewal {} workshop [["a.ll"], ["b.ll"], ["c.ll"]] crossed)).map
        Result.checked) ∧
    ∀ again : List Move,
      (renewal {} (renewal {} workshop [["a.ll"], ["b.ll"], ["c.ll"]] crossed).directory
        [["a.ll"], ["b.ll"], ["c.ll"]] again).directory =
      (renewal {} workshop [["a.ll"], ["b.ll"], ["c.ll"]] crossed).directory := by
  have sources : ∀ file ∈ [["a.ll"], ["b.ll"], ["c.ll"]], IsSource file := by
    intro file isFile
    rcases List.mem_cons.mp isFile with rfl | isFile
    · exact ⟨"a", by decide⟩
    rcases List.mem_cons.mp isFile with rfl | isFile
    · exact ⟨"b", by decide⟩
    · obtain rfl := List.mem_singleton.mp isFile
      exact ⟨"c", by decide⟩
  have ran : (renewal {} workshop [["a.ll"], ["b.ll"], ["c.ll"]] crossed).isComplete = true ∧
      NoWriteFailed (renewal {} workshop [["a.ll"], ["b.ll"], ["c.ll"]] crossed) ∧
      ((renewal {} workshop [["a.ll"], ["b.ll"], ["c.ll"]] crossed).results.map fun result =>
          (result.file, result.status)) =
        [(["b.ll"], .pass), (["a.ll"], .pass), (["c.ll"], .error)] := by
    decide +kernel
  obtain ⟨complete, written, results_eq⟩ := ran
  obtain ⟨checks, renewals⟩ := check_after_renewal_passes {} workshop [["a.ll"], ["b.ll"], ["c.ll"]]
    (by decide +kernel) sources crossed complete written
  exact ⟨⟨results_eq, written⟩, fun second => (checks second).1, renewals⟩

end RiscBackend.Golden
