/-
# The verdict on a file

What a golden run says about a file can be told from the files before it, without the run: a file to
be skipped, a file that cannot be read and a file with the content of an earlier one have their
results, and every other file has the result of its test. Here a run is related to these verdicts
for any way of disturbing the directory that the tests do not notice: at every moment the results so
far, the business of the desk and the files in the hands of workers make up, in some order, the
verdicts on the files that the desk has looked at.
-/

import RiscBackend.Proofs.Golden.Moves
import RiscBackend.Proofs.Text.Cut

namespace RiscBackend.Golden

open Files (Directory Path)
open Progress (isSkipped)

/-- The result of a test during which the directory does not change. -/
def tested (settings : Settings) (d : Directory) (file : Path) : Result :=
  match compileFile settings d file with
  | .error message => { file, status := .error, message }
  | .ok program => (settle settings d file program).1

/-- The result of a test names the file and the assembly. -/
theorem file_digest_settle (settings : Settings) (d : Directory) (file : Path)
    (program : Asm.Program) :
    (settle settings d file program).1.file = file ∧
      (settle settings d file program).1.digest = some program.digest := by
  unfold settle
  dsimp only
  split
  · split <;> exact ⟨rfl, rfl⟩
  · split
    · exact ⟨rfl, rfl⟩
    · split <;> exact ⟨rfl, rfl⟩

theorem file_tested (settings : Settings) (d : Directory) (file : Path) :
    (tested settings d file).file = file := by
  unfold tested
  split
  · rfl
  · exact (file_digest_settle settings d file _).1

/-- A check finds nothing to show if the expected assembly is there. -/
theorem settle_of_expected {settings : Settings} {d : Directory} {file : Path}
    {program : Asm.Program} (checking : settings.update = false)
    (expected : d.readAt (.inside (goldenPath file)) (goldenPath file).text =
      .ok program.text.toUTF8) :
    settle settings d file program =
      ({ file, status := .pass, message := s!"assembly matches {(goldenPath file).base}",
         digest := some program.digest }, d) := by
  have noDifference :=
    (settings.differ.text_eq_empty_iff (Text.byteLines program.text.toUTF8) _).mpr rfl
  rw [settle, checking, expected]
  dsimp only
  rw [if_pos noDifference]
  rfl

/-- However differences are shown, a check passes a file exactly if the expected assembly is there,
byte for byte. -/
theorem status_settle_eq_pass_iff {settings : Settings} {d : Directory} {file : Path}
    {program : Asm.Program} (checking : settings.update = false) :
    (settle settings d file program).1.status = .pass ↔
      d.readAt (.inside (goldenPath file)) (goldenPath file).text = .ok program.text.toUTF8 := by
  constructor
  · intro passes
    rw [settle, checking] at passes
    cases found : d.readAt (.inside (goldenPath file)) (goldenPath file).text with
    | error fault =>
      rw [found] at passes
      cases passes
    | ok want =>
      rw [found, if_neg Bool.false_ne_true] at passes
      dsimp only at passes
      split at passes
      · rename_i noDifference
        rw [settings.differ.text_eq_empty_iff, Text.byteLines_inj] at noDifference
        rw [noDifference]
      · cases passes
  · intro expected
    rw [settle_of_expected checking expected]

/-- The content of a file, if it can be read. -/
def contentOf? (d : Directory) (file : Path) : Option ByteArray :=
  (d.readAt (.inside file) file.text).toOption

section Verdict

variable {κ : Type} [DecidableEq κ] (key : ByteArray → κ) (settings : Settings) (d : Directory)

/-- The first of some files that is not to be skipped and whose content has a given key. -/
def twin? (before : List Path) (k : κ) : Option Path :=
  before.find? fun file => !isSkipped settings file && decide ((contentOf? d file).map key = some k)

/-- The result that a file has without a test, if it needs none, after the files before it. Contents
are compared by a key. -/
def direct? (before : List Path) (file : Path) : Option Result :=
  if isSkipped settings file then some { file, status := .skip, message := "skipped on request" }
  else match d.readAt (.inside file) file.text with
    | .error fault => some { file, status := .error, message := fault.message }
    | .ok content =>
      (twin? key settings d before (key content)).map fun first =>
        { file, status := .skip, message := "same content as " ++ first.base }

/-- The verdict on a file after the files before it. -/
def verdict (before : List Path) (file : Path) : Result :=
  (direct? key settings d before file).getD (tested settings d file)

/-- The verdicts on files that come after others. -/
def verdictsFrom : List Path → List Path → List Result
  | _, [] => []
  | before, file :: rest =>
    verdict key settings d before file :: verdictsFrom (before ++ [file]) rest

variable {key settings d} {before : List Path} {file : Path} {result : Result}

theorem direct?_eq_some (direct : direct? key settings d before file = some result) :
    result.file = file ∧ result.digest = none ∧ result.status ≠ .pass := by
  unfold direct? at direct
  split at direct
  · cases direct
    exact ⟨rfl, rfl, nofun⟩
  · split at direct
    · cases direct
      exact ⟨rfl, rfl, nofun⟩
    · obtain ⟨first, -, rfl⟩ := Option.map_eq_some_iff.mp direct
      exact ⟨rfl, rfl, nofun⟩

theorem file_verdict (before : List Path) (file : Path) :
    (verdict key settings d before file).file = file := by
  unfold verdict
  cases direct : direct? key settings d before file with
  | none => exact file_tested settings d file
  | some result => exact (direct?_eq_some direct).1

theorem map_file_verdictsFrom (before files : List Path) :
    (verdictsFrom key settings d before files).map (·.file) = files := by
  induction files generalizing before with
  | nil => rfl
  | cons file rest ih => rw [verdictsFrom, List.map_cons, file_verdict, ih]

theorem verdictsFrom_append (before files later : List Path) :
    verdictsFrom key settings d before (files ++ later) =
      verdictsFrom key settings d before files ++
        verdictsFrom key settings d (before ++ files) later := by
  induction files generalizing before with
  | nil => simp [verdictsFrom]
  | cons file rest ih => simp [verdictsFrom, ih]

theorem mem_verdictsFrom {files : List Path} :
    result ∈ verdictsFrom key settings d before files ↔
      ∃ front file back, files = front ++ file :: back ∧
        result = verdict key settings d (before ++ front) file := by
  constructor
  · intro isMember
    induction files generalizing before with
    | nil => cases isMember
    | cons file rest ih =>
      rcases List.mem_cons.mp isMember with rfl | isLater
      · exact ⟨[], file, rest, rfl, by rw [List.append_nil]⟩
      · obtain ⟨front, other, back, rest_eq, rfl⟩ := ih isLater
        exact ⟨file :: front, other, back, by rw [rest_eq]; rfl, by simp⟩
  · rintro ⟨front, file, back, rfl, rfl⟩
    rw [verdictsFrom_append, verdictsFrom]
    simp

end Verdict

/-- A file is offered to the workers. -/
def Offered (settings : Settings) (d : Directory) (files : List Path) (file : Path) : Prop :=
  ∃ before after, files = before ++ file :: after ∧
    direct? Text.Digest.ofBytes settings d before file = none

theorem Offered.mem {settings : Settings} {d : Directory} {files : List Path} {file : Path}
    (offered : Offered settings d files file) : file ∈ files := by
  obtain ⟨before, after, rfl, -⟩ := offered
  simp

/-- The directories that occur in a run do not disturb its tests: the files can be read as before,
and the last step of a test comes to the same as in the first directory. `Done` is what that step
leaves behind for good. -/
structure Steady (settings : Settings) (d : Directory) (files : List Path)
    (Calm : Directory → Prop) (Done : Directory → Path → Prop) : Prop where
  start : Calm d
  reads : ∀ e, Calm e → ∀ file ∈ files,
    e.readAt (.inside file) file.text = d.readAt (.inside file) file.text
  settles : ∀ e file program, Calm e → Offered settings d files file →
    compileFile settings d file = .ok program →
      (settle settings e file program).1 = (settle settings d file program).1 ∧
        Calm (settle settings e file program).2 ∧ Done (settle settings e file program).2 file
  keeps : ∀ e file program, Calm e → Offered settings d files file →
    compileFile settings d file = .ok program →
      ∀ other ∈ files, Done e other → Done (settle settings e file program).2 other

/-- A test is on its way to its result. -/
def Job.OnTrack (settings : Settings) (d : Directory) (Done : Path → Prop) (job : Job) : Prop :=
  match job.stage with
  | .taken => True
  | .compiled program => compileFile settings d job.file = .ok program
  | .confirmed program => compileFile settings d job.file = .ok program
  | .finished result =>
    result = tested settings d job.file ∧ (result.digest.isSome = true → Done job.file)

section Steady

variable {settings : Settings} {d e : Directory} {files : List Path} {Calm : Directory → Prop}
  {Done : Directory → Path → Prop}

theorem Steady.compileFile_eq (steady : Steady settings d files Calm Done) (calm : Calm e)
    {file : Path} (isFile : file ∈ files) :
    compileFile settings e file = compileFile settings d file := by
  rw [compileFile, compileFile, steady.reads e calm file isFile]

theorem Job.OnTrack.mono {job : Job} {Before After : Path → Prop}
    (onTrack : job.OnTrack settings d Before) (keeps : Before job.file → After job.file) :
    job.OnTrack settings d After := by
  unfold Job.OnTrack at onTrack ⊢
  split at onTrack
  · trivial
  · exact onTrack
  · exact onTrack
  · exact ⟨onTrack.1, fun hasDigest => keeps (onTrack.2 hasDigest)⟩

/-- A step of a test leads on, in a directory that stays calm and loses nothing of what was done. -/
theorem Steady.onTrack_step (steady : Steady settings d files Calm Done) (calm : Calm e) {job : Job}
    (offered : Offered settings d files job.file) (onTrack : job.OnTrack settings d (Done e)) :
    ({ job with stage := (job.step settings e).1 } : Job).OnTrack settings d
        (Done (job.step settings e).2) ∧
      Calm (job.step settings e).2 ∧
        ∀ other ∈ files, Done e other → Done (job.step settings e).2 other := by
  have compile_eq := steady.compileFile_eq calm offered.mem
  cases stage_eq : job.stage with
  | taken =>
    simp only [Job.step, stage_eq]
    cases compiled : compileFile settings e job.file with
    | error message =>
      rw [compiled] at compile_eq
      refine ⟨⟨?_, nofun⟩, calm, fun _ _ done => done⟩
      rw [tested, ← compile_eq]
    | ok program =>
      refine ⟨?_, calm, fun _ _ done => done⟩
      rw [Job.OnTrack, ← compile_eq, compiled]
  | compiled program =>
    rw [Job.OnTrack, stage_eq] at onTrack
    have again : compileFile settings e job.file = .ok program := compile_eq.trans onTrack
    simp only [Job.step, stage_eq, again, if_true]
    exact ⟨onTrack, calm, fun _ _ done => done⟩
  | confirmed program =>
    rw [Job.OnTrack, stage_eq] at onTrack
    obtain ⟨result_eq, calm', done⟩ := steady.settles e job.file program calm offered onTrack
    simp only [Job.step, stage_eq]
    refine ⟨⟨?_, fun _ => done⟩, calm', steady.keeps e job.file program calm offered onTrack⟩
    rw [tested, onTrack]
    exact result_eq
  | finished result =>
    rw [Job.OnTrack, stage_eq] at onTrack
    simp only [Job.step, stage_eq]
    exact ⟨onTrack, calm, fun _ _ done => done⟩

end Steady

section Look

variable {settings : Settings} {d e : Directory} {looked : List Path} {file : Path}
  {seen : List (UInt64 × Path)}

/-- What the desk remembers is the first file that was offered for each digest. -/
def Remembers (settings : Settings) (d : Directory) (looked : List Path)
    (seen : List (UInt64 × Path)) : Prop :=
  ∀ k, seen.lookup k = twin? Text.Digest.ofBytes settings d looked k

theorem twin?_append {κ : Type} [DecidableEq κ] (key : ByteArray → κ) (settings : Settings)
    (d : Directory) (looked : List Path) (file : Path) (k : κ) :
    twin? key settings d (looked ++ [file]) k =
      (twin? key settings d looked k).or
        (if !isSkipped settings file && decide ((contentOf? d file).map key = some k) then some file
          else none) := by
  rw [twin?, List.find?_append, twin?]
  congr 1
  rw [List.find?_singleton]

/-- The desk tells the result that needs no test, and offers the file if there is none. -/
theorem look_fst (remembers : Remembers settings d looked seen)
    (reads : e.readAt (.inside file) file.text = d.readAt (.inside file) file.text) :
    (Progress.look settings e seen file).1 =
      ((direct? Text.Digest.ofBytes settings d looked file).map Desk.telling).getD
        (.offering file) := by
  unfold Progress.look direct?
  rw [reads]
  by_cases skipped : isSkipped settings file = true
  · rw [if_pos skipped, if_pos skipped]
    rfl
  · rw [if_neg skipped, if_neg skipped]
    cases d.readAt (.inside file) file.text with
    | error fault => rfl
    | ok content =>
      dsimp only
      rw [remembers]
      cases twin? Text.Digest.ofBytes settings d looked (Text.Digest.ofBytes content) <;> rfl

/-- What the desk remembers after a file. -/
theorem remembers_look (remembers : Remembers settings d looked seen)
    (reads : e.readAt (.inside file) file.text = d.readAt (.inside file) file.text) :
    Remembers settings d (looked ++ [file]) (Progress.look settings e seen file).2 := by
  intro k
  rw [twin?_append, ← remembers]
  unfold Progress.look
  rw [reads]
  split
  · next isSkipped => simp [isSkipped]
  · next notSkipped =>
    split
    · next fault_eq => simp [contentOf?, fault_eq, Except.toOption]
    · next content content_eq =>
      have content?_eq : contentOf? d file = some content := by
        rw [contentOf?, content_eq, Except.toOption]
      have isSkipped_eq : isSkipped settings file = false := by simpa using notSkipped
      rw [isSkipped_eq, content?_eq]
      dsimp only
      split
      · next first known =>
        by_cases same : Text.Digest.ofBytes content = k
        · rw [← same, known, Option.some_or]
        · simp [same]
      · next unknown =>
        rw [List.lookup_append]
        by_cases same : Text.Digest.ofBytes content = k
        · simp [same]
        · simp [same, List.lookup_cons, beq_false_of_ne (Ne.symm same)]

end Look

/-- The result that the desk's present business leads to. -/
def Desk.expected (settings : Settings) (d : Directory) : Desk → List Result
  | .free => []
  | .offering file => [tested settings d file]
  | .telling result => [result]

/-- The results that a run has or will have for the files that the desk has looked at. -/
def Progress.expected (settings : Settings) (d : Directory) (p : Progress) : List Result :=
  p.results ++ p.desk.expected settings d ++ p.busy.map fun entry => tested settings d entry.2.file

/-- What holds at every moment of a run, after the desk has looked at some of the files. -/
structure Progress.Sound (settings : Settings) (d : Directory) (files : List Path)
    (Calm : Directory → Prop) (Done : Directory → Path → Prop) (looked : List Path)
    (p : Progress) : Prop where
  split : files = looked ++ p.pending
  calm : Calm p.directory
  remembers : Remembers settings d looked p.seen
  offering : ∀ file, p.desk = .offering file → Offered settings d files file
  /-- What the desk tells comes from no test. -/
  telling : ∀ result, p.desk = .telling result → result.digest = none
  offered : ∀ entry ∈ p.busy, Offered settings d files entry.2.file
  onTrack : ∀ entry ∈ p.busy, entry.2.OnTrack settings d (Done p.directory)
  /-- What a test was to leave behind is there from the moment its result is handed in. -/
  done : ∀ result ∈ p.results, result.digest.isSome = true → Done p.directory result.file
  expected : (p.expected settings d).Perm
    (verdictsFrom Text.Digest.ofBytes settings d [] looked)

namespace Progress

variable {settings : Settings} {d : Directory} {files looked : List Path}
  {Calm : Directory → Prop} {Done : Directory → Path → Prop} {p next : Progress}

theorem sound_start (steady : Steady settings d files Calm Done) :
    Sound settings d files Calm Done [] { directory := d, pending := files } where
  split := rfl
  calm := steady.start
  remembers _ := rfl
  offering _ impossible := by cases impossible
  telling _ impossible := by cases impossible
  offered := by simp
  onTrack := by simp
  done := by simp
  expected := .refl _

theorem Sound.file_mem (sound : Sound settings d files Calm Done looked p) {result : Result}
    (isResult : result ∈ p.results) : result.file ∈ files := by
  have isExpected : result ∈ p.expected settings d := by simp [Progress.expected, isResult]
  have isVerdict := List.mem_map_of_mem (f := Result.file) (sound.expected.mem_iff.mp isExpected)
  rw [map_file_verdictsFrom] at isVerdict
  rw [sound.split]
  exact List.mem_append_left _ isVerdict

theorem Sound.tell (sound : Sound settings d files Calm Done looked p) {result : Result}
    (telling : p.desk = .telling result) :
    Sound settings d files Calm Done looked
      { p with desk := .free, results := p.results ++ [result] } :=
  { sound with
    offering := by simp
    telling := by simp
    done := by
      intro other isResult hasDigest
      rcases List.mem_append.mp isResult with isOld | isNew
      · exact sound.done other isOld hasDigest
      · rw [List.mem_singleton.mp isNew, sound.telling result telling] at hasDigest
        cases hasDigest
    expected := by
      have expected := sound.expected
      simp only [Progress.expected, telling, Desk.expected] at expected
      simpa [Progress.expected, Desk.expected] using expected }

theorem Sound.look (steady : Steady settings d files Calm Done)
    (sound : Sound settings d files Calm Done looked p) {file : Path} {pending : List Path}
    (free : p.desk = .free) (pending_eq : p.pending = file :: pending) :
    Sound settings d files Calm Done (looked ++ [file])
      { p with
        pending
        desk := (Progress.look settings p.directory p.seen file).1
        seen := (Progress.look settings p.directory p.seen file).2 } := by
  have files_eq : files = looked ++ file :: pending := by rw [sound.split, pending_eq]
  have isFile : file ∈ files := by simp [files_eq]
  have reads := steady.reads p.directory sound.calm file isFile
  have desk_eq := look_fst sound.remembers reads
  refine
    { sound with
      split := by simp [files_eq]
      remembers := remembers_look sound.remembers reads
      offering := ?_
      telling := ?_
      expected := ?_ }
  · intro offer offering
    rw [desk_eq] at offering
    cases direct : direct? Text.Digest.ofBytes settings d looked file with
    | some result =>
      rw [direct] at offering
      cases offering
    | none =>
      rw [direct] at offering
      cases offering
      exact ⟨looked, pending, files_eq, direct⟩
  · intro result telling
    rw [desk_eq] at telling
    cases direct : direct? Text.Digest.ofBytes settings d looked file with
    | some told =>
      rw [direct] at telling
      cases telling
      exact (direct?_eq_some direct).2.1
    | none =>
      rw [direct] at telling
      cases telling
  · -- whatever the desk makes of the file leads to the verdict on it
    have business : (Progress.look settings p.directory p.seen file).1.expected settings d =
        [verdict Text.Digest.ofBytes settings d looked file] := by
      rw [desk_eq, verdict]
      cases direct? Text.Digest.ofBytes settings d looked file <;> rfl
    have expected := sound.expected.append_right
      [verdict Text.Digest.ofBytes settings d looked file]
    simp only [Progress.expected, free, Desk.expected, List.append_nil] at expected
    rw [verdictsFrom_append, List.nil_append, verdictsFrom, verdictsFrom]
    simp only [Progress.expected, business]
    refine List.Perm.trans ?_ expected
    rw [List.append_assoc, List.append_assoc]
    exact (List.perm_append_comm).append_left _

theorem Sound.take (sound : Sound settings d files Calm Done looked p) {file : Path} (worker : Nat)
    (offering : p.desk = .offering file) :
    Sound settings d files Calm Done looked
      { p with desk := .free, busy := p.busy ++ [(worker, { file })] } :=
  { sound with
    offering := by simp
    telling := by simp
    offered := by
      intro entry isBusy
      rcases List.mem_append.mp isBusy with isOld | isNew
      · exact sound.offered entry isOld
      · rw [List.mem_singleton.mp isNew]
        exact sound.offering file offering
    onTrack := by
      intro entry isBusy
      rcases List.mem_append.mp isBusy with isOld | isNew
      · exact sound.onTrack entry isOld
      · rw [List.mem_singleton.mp isNew]
        trivial
    expected := by
      refine List.Perm.trans ?_ sound.expected
      simp only [Progress.expected, offering, Desk.expected, List.map_append, List.append_nil,
        List.map_cons, List.map_nil, List.append_assoc]
      exact (List.perm_append_comm).append_left _ }

theorem Sound.work (steady : Steady settings d files Calm Done)
    (sound : Sound settings d files Calm Done looked p) {worker : Nat} {job : Job}
    {others : List (Nat × Job)} (held : p.busy.Perm ((worker, job) :: others)) :
    Sound settings d files Calm Done looked
      { p with
        directory := (job.step settings p.directory).2
        busy := others ++ [(worker, { job with stage := (job.step settings p.directory).1 })] } := by
  have isBusy : (worker, job) ∈ p.busy := held.mem_iff.mpr List.mem_cons_self
  have areBusy : ∀ entry ∈ others, entry ∈ p.busy := fun entry isOther =>
    held.mem_iff.mpr (List.mem_cons_of_mem _ isOther)
  have offered := sound.offered _ isBusy
  obtain ⟨onTrack, calm, keeps⟩ := steady.onTrack_step sound.calm offered (sound.onTrack _ isBusy)
  refine
    { sound with
      calm := calm
      offered := ?_
      onTrack := ?_
      done := ?_
      expected := ?_ }
  · intro entry isEntry
    rcases List.mem_append.mp isEntry with isOther | isSame
    · exact sound.offered entry (areBusy entry isOther)
    · rw [List.mem_singleton.mp isSame]
      exact offered
  · intro entry isEntry
    rcases List.mem_append.mp isEntry with isOther | isSame
    · have isOld := areBusy entry isOther
      exact (sound.onTrack entry isOld).mono (keeps _ (sound.offered entry isOld).mem)
    · rw [List.mem_singleton.mp isSame]
      exact onTrack
  · -- what earlier tests left behind outlasts the step
    intro result isResult hasDigest
    exact keeps _ (sound.file_mem isResult) (sound.done result isResult hasDigest)
  · refine List.Perm.trans ?_ sound.expected
    have moved := held.map fun entry => tested settings d entry.2.file
    rw [List.map_cons] at moved
    simp only [Progress.expected, List.map_append, List.map_cons, List.map_nil]
    refine List.Perm.append_left _ ?_
    exact (List.perm_append_singleton _ _).trans moved.symm

theorem Sound.handIn (sound : Sound settings d files Calm Done looked p) {worker : Nat} {job : Job}
    {others : List (Nat × Job)} {result : Result} (held : p.busy.Perm ((worker, job) :: others))
    (finished : job.stage = .finished result) :
    Sound settings d files Calm Done looked
      { p with busy := others, results := p.results ++ [result] } := by
  have isBusy : (worker, job) ∈ p.busy := held.mem_iff.mpr List.mem_cons_self
  have areBusy : ∀ entry ∈ others, entry ∈ p.busy := fun entry isOther =>
    held.mem_iff.mpr (List.mem_cons_of_mem _ isOther)
  obtain ⟨result_eq, done⟩ : result = tested settings d job.file ∧
      (result.digest.isSome = true → Done p.directory job.file) := by
    have onTrack := sound.onTrack _ isBusy
    rw [Job.OnTrack, finished] at onTrack
    exact onTrack
  refine
    { sound with
      offered := fun entry isOther => sound.offered entry (areBusy entry isOther)
      onTrack := fun entry isOther => sound.onTrack entry (areBusy entry isOther)
      done := ?_
      expected := ?_ }
  · intro other isResult hasDigest
    rcases List.mem_append.mp isResult with isOld | isNew
    · exact sound.done other isOld hasDigest
    · rw [List.mem_singleton.mp isNew] at hasDigest ⊢
      rw [result_eq, file_tested]
      exact done hasDigest
  · refine List.Perm.trans ?_ sound.expected
    have moved := held.map fun entry => tested settings d entry.2.file
    rw [List.map_cons, ← result_eq] at moved
    simp only [Progress.expected, List.append_assoc]
    refine List.Perm.append_left _ ?_
    refine List.Perm.trans ?_ (moved.symm.append_left _)
    rw [List.singleton_append]
    exact List.perm_middle.symm

/-- Every step keeps a run sound. -/
theorem Sound.step (steady : Steady settings d files Calm Done)
    (sound : Sound settings d files Calm Done looked p) (step : Step settings p next) :
    ∃ looked, Sound settings d files Calm Done looked next := by
  cases step with
  | tell telling => exact ⟨looked, sound.tell telling⟩
  | @look file _ free pending_eq => exact ⟨looked ++ [file], sound.look steady free pending_eq⟩
  | take worker offering => exact ⟨looked, sound.take worker offering⟩
  | work held _ => exact ⟨looked, sound.work steady held⟩
  | handIn held finished => exact ⟨looked, sound.handIn held finished⟩

/-- When a run has come to its end its results are the verdicts on the files. -/
theorem Sound.results_perm (sound : Sound settings d files Calm Done looked p)
    (complete : p.isComplete = true) :
    p.results.Perm (verdictsFrom Text.Digest.ofBytes settings d [] files) := by
  unfold isComplete at complete
  split at complete
  · next free nonePending noneBusy =>
    have expected := sound.expected
    simp only [Progress.expected, free, Desk.expected, noneBusy, List.map_nil, List.append_nil]
      at expected
    rwa [sound.split, nonePending, List.append_nil]
  · cases complete

end Progress

/-- A run is sound at every moment, in whatever order its moves are made. -/
theorem Steady.sound {settings : Settings} {d : Directory} {files : List Path}
    {Calm : Directory → Prop} {Done : Directory → Path → Prop}
    (steady : Steady settings d files Calm Done) (schedule : List Move) :
    ∃ looked, (runSchedule settings d files schedule).Sound settings d files Calm Done looked := by
  refine runSchedule_induction
    (I := fun p => ∃ looked, p.Sound settings d files Calm Done looked)
    ⟨[], Progress.sound_start steady⟩ ?_ schedule
  rintro p next ⟨looked, sound⟩ step
  exact sound.step steady step

end RiscBackend.Golden
