/-
# The report of a check

A golden run that compares and does not renew leaves the directory as it is, so no test disturbs
another. In whatever order the desk and the workers move, and however many workers there are, such a
run comes to an end with one and the same report: a result for each file, in the order of the file
names, and each result is the verdict on its file after the files before it. As long as no two
contents share a digest, the verdict compares the contents themselves.

A file with the content of a skipped file is tested all the same, for what is remembered are the
contents that were offered to the workers.
-/

import Mathlib.Data.List.Find
import Mathlib.Data.List.Nodup
import RiscBackend.Proofs.Golden.Verdicts

namespace RiscBackend.Golden

open Files (Directory Path)
open Progress (isSkipped)

section Sorting

theorem sortedResults_perm (p : Progress) : (sortedResults p).Perm p.results :=
  List.mergeSort_perm _ _

theorem sortedResults_pairwise (p : Progress) :
    (sortedResults p).Pairwise fun a b => a.file.text ≤ b.file.text := by
  have sorted : (sortedResults p).Pairwise fun a b =>
      decide (a.file.text ≤ b.file.text) = true := by
    apply List.pairwise_mergeSort
    · intro a b c ab bc
      rw [decide_eq_true_eq] at ab bc ⊢
      exact String.le_trans ab bc
    · intro a b
      rw [Bool.or_eq_true, decide_eq_true_eq, decide_eq_true_eq]
      exact String.le_total a.file.text b.file.text
  simpa using sorted

/-- Results in the order of their file names are determined by the results in any order, if no two
of them have one file name. -/
theorem eq_of_perm_of_sorted {one other : List Result} (perm : one.Perm other)
    (distinct : (one.map fun result => result.file.text).Nodup)
    (sortedOne : one.Pairwise fun a b => a.file.text ≤ b.file.text)
    (sortedOther : other.Pairwise fun a b => a.file.text ≤ b.file.text) : one = other := by
  refine perm.eq_of_pairwise ?_ sortedOne sortedOther
  intro a b isOne isOther ab ba
  apply List.inj_on_of_nodup_map distinct isOne (perm.mem_iff.mpr isOther)
  exact String.le_antisymm ab ba

variable {κ : Type} [DecidableEq κ] {key : ByteArray → κ} {settings : Settings} {d : Directory}
  {files : List Path} {results : List Result}

theorem pairwise_lt_of_sorted (distinct : (results.map fun result => result.file.text).Nodup)
    (sorted : results.Pairwise fun a b => a.file.text ≤ b.file.text) :
    results.Pairwise fun a b => a.file.text < b.file.text := by
  have apart : results.Pairwise fun a b => a.file.text ≠ b.file.text :=
    List.pairwise_map.mp distinct
  apply (sorted.and apart).imp
  rintro a b ⟨ab, ne⟩
  rw [← String.not_le]
  intro ba
  exact ne (String.le_antisymm ab ba)

theorem map_file_perm (perm : results.Perm (verdictsFrom key settings d [] files)) :
    (results.map (·.file)).Perm files := by
  have files_eq : (verdictsFrom key settings d [] files).map (·.file) = files :=
    map_file_verdictsFrom [] files
  have mapped := perm.map (·.file)
  rwa [files_eq] at mapped

theorem nodup_text_results (perm : results.Perm (verdictsFrom key settings d [] files))
    (distinct : (files.map Path.text).Nodup) :
    (results.map fun result => result.file.text).Nodup := by
  have texts := ((map_file_perm perm).map Path.text).nodup_iff.mpr distinct
  rwa [List.map_map] at texts

end Sorting

section Checking

variable {settings : Settings} {d : Directory} {files : List Path}

theorem settle_snd_of_checking (checking : settings.update = false) (d : Directory) (file : Path)
    (program : Asm.Program) : (settle settings d file program).2 = d := by
  unfold settle
  simp only [checking, Bool.false_eq_true, if_false]
  split
  · rfl
  · split <;> rfl

/-- A run whose tests all leave the directory as it is. -/
theorem steady_of_settled
    (settled : ∀ file program, Offered settings d files file →
      compileFile settings d file = .ok program → (settle settings d file program).2 = d) :
    Steady settings d files (· = d) fun _ _ => True where
  start := rfl
  reads := by
    rintro e rfl file -
    rfl
  settles := by
    rintro e file program rfl offered compiled
    exact ⟨rfl, settled file program offered compiled, trivial⟩
  keeps := by simp

theorem steady_of_checking (checking : settings.update = false) :
    Steady settings d files (· = d) fun _ _ => True :=
  steady_of_settled fun file program _ _ => settle_snd_of_checking checking d file program

/-- A check leaves the directory as it is. -/
theorem directory_of_checking (checking : settings.update = false) (schedule : List Move) :
    (runSchedule settings d files schedule).directory = d := by
  obtain ⟨looked, sound⟩ := (steady_of_checking checking).sound schedule
  exact sound.calm

theorem results_perm_of_checking (checking : settings.update = false) {schedule : List Move}
    (complete : (runSchedule settings d files schedule).isComplete = true) :
    (runSchedule settings d files schedule).results.Perm
      (verdictsFrom Text.Digest.ofBytes settings d [] files) := by
  obtain ⟨looked, sound⟩ := (steady_of_checking checking).sound schedule
  exact sound.results_perm complete

end Checking

section Verdict

variable {κ ι : Type} [DecidableEq κ] [DecidableEq ι] {key : ByteArray → κ} {other : ByteArray → ι}
  {settings changed : Settings} {d e : Directory} {files : List Path}

/-- Verdicts that are related one by one are related as lists. -/
theorem verdictsFrom_eq_map {f : Result → Result} {before : List Path}
    (each : ∀ front file back, files = front ++ file :: back →
      verdict key settings d (before ++ front) file =
        f (verdict other changed e (before ++ front) file)) :
    verdictsFrom key settings d before files =
      (verdictsFrom other changed e before files).map f := by
  induction files generalizing before with
  | nil => rfl
  | cons file rest ih =>
    have first := each [] file rest rfl
    rw [List.append_nil] at first
    rw [verdictsFrom, verdictsFrom, List.map_cons, first]
    congr 1
    apply ih
    intro front next back rest_eq
    have later := each (file :: front) next back (by rw [rest_eq]; rfl)
    rwa [List.append_assoc]

/-- The number of workers has no part in the verdicts. -/
theorem verdictsFrom_jobs (key : ByteArray → κ) (settings : Settings) (jobs : Int) (d : Directory)
    (before files : List Path) :
    verdictsFrom key { settings with jobs } d before files =
      verdictsFrom key settings d before files := by
  have related : verdictsFrom key { settings with jobs } d before files =
      (verdictsFrom key settings d before files).map id := by
    apply verdictsFrom_eq_map
    intro front file back _
    rfl
  rwa [List.map_id] at related

/-- No two contents among the files share a digest. -/
def CollisionFree (d : Directory) (files : List Path) : Prop :=
  ∀ one ∈ files, ∀ other ∈ files,
    (contentOf? d one).map Text.Digest.ofBytes = (contentOf? d other).map Text.Digest.ofBytes →
      (contentOf? d one).map ByteArray.data = (contentOf? d other).map ByteArray.data

instance (d : Directory) (files : List Path) : Decidable (CollisionFree d files) :=
  inferInstanceAs (Decidable (∀ one ∈ files, ∀ other ∈ files, _ → _))

theorem direct?_digest_eq (collisionFree : CollisionFree d files) {before : List Path} {file : Path}
    (areFiles : ∀ earlier ∈ before, earlier ∈ files) (isFile : file ∈ files) :
    direct? Text.Digest.ofBytes settings d before file =
      direct? ByteArray.data settings d before file := by
  unfold direct?
  split
  · rfl
  · split
    · rfl
    · next content content_eq =>
      have file_eq : contentOf? d file = some content := by
        rw [contentOf?, content_eq, Except.toOption]
      have twin_eq : twin? Text.Digest.ofBytes settings d before (Text.Digest.ofBytes content) =
          twin? ByteArray.data settings d before content.data := by
        apply List.find?_congr
        intro earlier isEarlier
        congr 1
        rw [decide_eq_decide]
        constructor
        · intro sameDigest
          have same := collisionFree earlier (areFiles earlier isEarlier) file isFile
            (by rw [sameDigest, file_eq, Option.map_some])
          rw [same, file_eq, Option.map_some]
        · intro sameBytes
          obtain ⟨other, earlier_eq, data_eq⟩ := Option.map_eq_some_iff.mp sameBytes
          rw [earlier_eq, Option.map_some, ByteArray.ext data_eq]
      rw [twin_eq]

theorem verdictsFrom_digest_eq (collisionFree : CollisionFree d files) :
    verdictsFrom Text.Digest.ofBytes settings d [] files =
      verdictsFrom ByteArray.data settings d [] files := by
  have related : verdictsFrom Text.Digest.ofBytes settings d [] files =
      (verdictsFrom ByteArray.data settings d [] files).map id := by
    apply verdictsFrom_eq_map
    intro front file back files_eq
    rw [List.nil_append, verdict, direct?_digest_eq collisionFree]
    · rfl
    · intro earlier isEarlier
      rw [files_eq]
      exact List.mem_append_left _ isEarlier
    · simp [files_eq]
  rwa [List.map_id] at related

/-- A file has the content of an earlier file that is not to be skipped. -/
def Copies (settings : Settings) (d : Directory) (before : List Path) (file : Path) : Prop :=
  ∃ earlier ∈ before, isSkipped settings earlier = false ∧
    ∃ content, contentOf? d earlier = some content ∧ contentOf? d file = some content

/-- A file that is to be skipped, or that is a copy, needs no test. -/
theorem status_verdict_of_skipped_or_copies {before : List Path} {file : Path}
    (needless : isSkipped settings file = true ∨ Copies settings d before file) :
    (verdict ByteArray.data settings d before file).status = .skip := by
  unfold verdict direct?
  by_cases skipped : isSkipped settings file = true
  · rw [if_pos skipped]
    rfl
  · obtain ⟨earlier, isEarlier, kept, content, earlier_eq, file_eq⟩ := needless.resolve_left skipped
    have read : d.readAt (.inside file) file.text = .ok content := by
      unfold contentOf? at file_eq
      cases reading : d.readAt (.inside file) file.text with
      | error fault =>
        rw [reading] at file_eq
        cases file_eq
      | ok other =>
        rw [reading] at file_eq
        cases file_eq
        rfl
    have found : (twin? ByteArray.data settings d before content.data).isSome = true := by
      apply List.find?_isSome.mpr
      exact ⟨earlier, isEarlier, by simp [kept, earlier_eq]⟩
    obtain ⟨first, first_eq⟩ := Option.isSome_iff_exists.mp found
    rw [if_neg skipped, read]
    dsimp only
    rw [first_eq]
    rfl

end Verdict

/-- A check has one report, in whatever order the desk and the workers move and however many workers
there are. It has one result for each file, in the order of the file names, and each is the verdict
on its file, with the difference from the expected assembly as the settings show it; files that are
to be skipped and copies are marked so. Every check comes to its end after at most six moves for
each file, and the order in which one worker does everything leads there. -/
theorem report_independent_of_schedule (settings : Settings) (d : Directory) (files : List Path)
    (distinct : (files.map Path.text).Nodup) (checking : settings.update = false)
    (collisionFree : CollisionFree d files) :
    ∃ report : List Result,
      (report.map (·.file)).Perm files ∧
      (report.Pairwise fun a b => a.file.text < b.file.text) ∧
      (∀ before file after, files = before ++ file :: after →
        verdict ByteArray.data settings d before file ∈ report ∧
          (isSkipped settings file = true ∨ Copies settings d before file →
            (verdict ByteArray.data settings d before file).status = .skip)) ∧
      ∀ jobs : Int,
        sortedResults (runSchedule { settings with jobs } d files (oneByOne files)) = report ∧
        ∀ schedule : List Move,
          (runSchedule { settings with jobs } d files schedule).directory = d ∧
          ((runSchedule { settings with jobs } d files schedule).isComplete = true →
            sortedResults (runSchedule { settings with jobs } d files schedule) = report) ∧
          (Progress.Possible { settings with jobs } { directory := d, pending := files } schedule →
            schedule.length ≤ 6 * files.length) ∧
          ∃ more,
            (runSchedule { settings with jobs } d files (schedule ++ more)).isComplete = true := by
  have stillChecking (jobs : Int) : ({ settings with jobs } : Settings).update = false := checking
  have sorted_perm (jobs : Int) (schedule : List Move)
      (complete : (runSchedule { settings with jobs } d files schedule).isComplete = true) :
      (sortedResults (runSchedule { settings with jobs } d files schedule)).Perm
        (verdictsFrom ByteArray.data settings d [] files) := by
    have perm := results_perm_of_checking (stillChecking jobs) complete
    rw [verdictsFrom_jobs, verdictsFrom_digest_eq collisionFree] at perm
    exact (sortedResults_perm _).trans perm
  have report_perm := sorted_perm settings.jobs _ (isComplete_oneByOne settings d files)
  have report_eq (jobs : Int) (schedule : List Move)
      (complete : (runSchedule { settings with jobs } d files schedule).isComplete = true) :
      sortedResults (runSchedule { settings with jobs } d files schedule) =
        sortedResults (runSchedule settings d files (oneByOne files)) := by
    have perm := sorted_perm jobs schedule complete
    exact eq_of_perm_of_sorted (perm.trans report_perm.symm) (nodup_text_results perm distinct)
      (sortedResults_pairwise _) (sortedResults_pairwise _)
  refine ⟨sortedResults (runSchedule settings d files (oneByOne files)), map_file_perm report_perm,
    ?_, ?_, ?_⟩
  · exact pairwise_lt_of_sorted (nodup_text_results report_perm distinct) (sortedResults_pairwise _)
  · intro before file after files_eq
    refine ⟨report_perm.mem_iff.mpr ?_, status_verdict_of_skipped_or_copies⟩
    exact mem_verdictsFrom.mpr ⟨before, file, after, files_eq, rfl⟩
  · intro jobs
    refine ⟨report_eq jobs _ (isComplete_oneByOne _ d files), ?_⟩
    intro schedule
    exact ⟨directory_of_checking (stillChecking jobs) schedule, report_eq jobs schedule,
      length_le_of_possible, exists_runSchedule_complete schedule⟩

/-- Two files with one content, and an old expected assembly for the second of them. -/
def twins : Directory :=
  let source := "define i32 @main() \x7b\nentry:\n  ret i32 7\n\x7d\n".toUTF8
  { files := [(["a.ll"], source), (["b.ll"], source), (["b.s"], "stale\n".toUTF8)] }

theorem report_independent_of_schedule_twins :
    (([["lost.ll"], ["b.ll"], ["a.ll"]].map Path.text).Nodup ∧
      CollisionFree twins [["lost.ll"], ["b.ll"], ["a.ll"]]) ∧
    ∃ report : List Result,
      { file := ["lost.ll"], status := .skip, message := "skipped on request" } ∈ report ∧
      { file := ["a.ll"], status := .skip, message := "same content as b.ll" } ∈ report ∧
      (∃ result ∈ report, result.file = ["b.ll"] ∧ result.status = .fail ∧
        Text.hasStart "-stale\n" result.diff = true) ∧
      ∀ (jobs : Int) (schedule : List Move),
        (runSchedule { skipFiles := "lost.ll", jobs } twins [["lost.ll"], ["b.ll"], ["a.ll"]]
          schedule).isComplete = true →
        sortedResults (runSchedule { skipFiles := "lost.ll", jobs } twins
          [["lost.ll"], ["b.ll"], ["a.ll"]] schedule) = report := by
  have distinct : ([["lost.ll"], ["b.ll"], ["a.ll"]].map Path.text).Nodup := by decide +kernel
  have collisionFree : CollisionFree twins [["lost.ll"], ["b.ll"], ["a.ll"]] := by decide +kernel
  obtain ⟨report, -, -, verdicts, runs⟩ := report_independent_of_schedule
    { skipFiles := "lost.ll" } twins [["lost.ll"], ["b.ll"], ["a.ll"]] distinct rfl collisionFree
  refine ⟨⟨distinct, collisionFree⟩, report, ?_, ?_, ?_, ?_⟩
  · have skipped := (verdicts [] ["lost.ll"] [["b.ll"], ["a.ll"]] rfl).1
    have verdict_eq : verdict ByteArray.data { skipFiles := "lost.ll" } twins [] ["lost.ll"] =
        { file := ["lost.ll"], status := .skip, message := "skipped on request" } := by
      decide +kernel
    rwa [verdict_eq] at skipped
  · have copied := (verdicts [["lost.ll"], ["b.ll"]] ["a.ll"] [] rfl).1
    have verdict_eq : verdict ByteArray.data { skipFiles := "lost.ll" } twins
        [["lost.ll"], ["b.ll"]] ["a.ll"] =
        { file := ["a.ll"], status := .skip, message := "same content as b.ll" } := by
      decide +kernel
    rwa [verdict_eq] at copied
  · exact ⟨_, (verdicts [["lost.ll"]] ["b.ll"] [["a.ll"]] rfl).1, by decide +kernel⟩
  · intro jobs schedule complete
    exact ((runs jobs).2 schedule).2.1 complete

/-- A copy of a file that was skipped on request is tested, and may fail. -/
theorem copy_of_skipped_file_is_tested :
    contentOf? twins ["b.ll"] = contentOf? twins ["a.ll"] ∧
      (contentOf? twins ["a.ll"]).isSome = true ∧
      ((runSchedule { skipFiles := "a.ll" } twins [["a.ll"], ["b.ll"]]
          (oneByOne [["a.ll"], ["b.ll"]])).results.map fun result => (result.file, result.status)) =
        [(["a.ll"], .skip), (["b.ll"], .fail)] := by
  decide +kernel

end RiscBackend.Golden
