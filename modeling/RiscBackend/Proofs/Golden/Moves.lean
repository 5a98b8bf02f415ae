/-
# The moves of a golden run

A move is one of five steps: the desk hands in a result or looks at the next file, a worker takes the
offered file, goes on with its test, or hands in its result. Every step brings the end nearer, by a
count of the steps that a file can still take, and as long as something is left to do some step is
possible. So a run whose moves are all possible comes to an end, in whatever order they are made. The
order in which one worker does everything is one that comes to an end.
-/

import Mathlib.Algebra.GroupWithZero.Nat
import Mathlib.Data.List.Perm.Basic
import RiscBackend.Golden.Run

namespace RiscBackend.Golden

open Files (Directory Path)

namespace Progress

variable {settings : Settings} {p next : Progress}

/-- What one move can do. -/
inductive Step (settings : Settings) (p : Progress) : Progress → Prop
  | tell {result : Result} (telling : p.desk = .telling result) :
      Step settings p { p with desk := .free, results := p.results ++ [result] }
  | look {file : Path} {pending : List Path} (free : p.desk = .free)
      (pending_eq : p.pending = file :: pending) :
      Step settings p
        { p with
          pending
          desk := (Progress.look settings p.directory p.seen file).1
          seen := (Progress.look settings p.directory p.seen file).2 }
  | take {file : Path} (worker : Nat) (offering : p.desk = .offering file) :
      Step settings p { p with desk := .free, busy := p.busy ++ [(worker, { file })] }
  | work {worker : Nat} {job : Job} {others : List (Nat × Job)}
      (held : p.busy.Perm ((worker, job) :: others))
      (unfinished : ∀ result, job.stage ≠ .finished result) :
      Step settings p
        { p with
          directory := (job.step settings p.directory).2
          busy := others ++ [(worker, { job with stage := (job.step settings p.directory).1 })] }
  | handIn {worker : Nat} {job : Job} {others : List (Nat × Job)} {result : Result}
      (held : p.busy.Perm ((worker, job) :: others)) (finished : job.stage = .finished result) :
      Step settings p { p with busy := others, results := p.results ++ [result] }

theorem step_of_deskMove? (moved : p.deskMove? settings = some next) : Step settings p next := by
  unfold deskMove? at moved
  split at moved
  · next telling =>
    cases moved
    exact .tell telling
  · next free pending_eq =>
    cases moved
    exact .look free pending_eq
  · cases moved

theorem step_of_take? {worker : Nat} (moved : p.take? settings worker = some next) :
    Step settings p next := by
  unfold take? at moved
  split at moved
  · next offering =>
    split at moved
    · cases moved
      exact .take worker offering
    · cases moved
  · cases moved

theorem perm_of_lookup {busy : List (Nat × Job)} {worker : Nat} {job : Job}
    (found : busy.lookup worker = some job) :
    busy.Perm ((worker, job) :: busy.eraseP fun entry => entry.1 = worker) := by
  obtain ⟨before, after, busy_eq, others⟩ := List.lookup_eq_some_iff.mp found
  have kept : ∀ entry ∈ before, ¬ (decide (entry.1 = worker)) = true := by
    intro entry isEntry same
    have ne := others entry isEntry
    simp_all
  rw [busy_eq, List.eraseP_append_right _ kept, List.eraseP_cons_of_pos (by simp)]
  exact List.perm_middle

theorem step_of_work? {worker : Nat} (moved : p.work? settings worker = some next) :
    Step settings p next := by
  obtain ⟨job, found, next_eq⟩ := Option.map_eq_some_iff.mp moved
  have held := perm_of_lookup found
  cases stage_eq : job.stage with
  | finished result =>
    simp only [stage_eq] at next_eq
    rw [← next_eq]
    exact .handIn held stage_eq
  | _ =>
    simp only [stage_eq] at next_eq
    rw [← next_eq]
    exact .work held (by simp [stage_eq])

/-- Every move is one of the steps. -/
theorem step_of_move? {m : Move} (moved : p.move? settings m = some next) :
    Step settings p next := by
  cases m with
  | desk => exact step_of_deskMove? moved
  | take worker => exact step_of_take? moved
  | work worker => exact step_of_work? moved

/-- The number of moves that a test still takes at most, the last of which hands in its result. -/
def stagesLeft : Stage → Nat
  | .taken => 4
  | .compiled _ => 3
  | .confirmed _ => 2
  | .finished _ => 1

/-- The number of moves that the desk's present business takes at most, tests included. -/
def deskLeft : Desk → Nat
  | .free => 0
  | .offering _ => 5
  | .telling _ => 1

/-- The number of moves that a run still takes at most. -/
def movesLeft (p : Progress) : Nat :=
  6 * p.pending.length + deskLeft p.desk + (p.busy.map fun entry => stagesLeft entry.2.stage).sum

theorem stagesLeft_step (settings : Settings) (d : Directory) {job : Job}
    (unfinished : ∀ result, job.stage ≠ .finished result) :
    stagesLeft (job.step settings d).1 < stagesLeft job.stage := by
  unfold Job.step
  split
  · next stage_eq =>
    rw [stage_eq]
    split <;> simp [stagesLeft]
  · next stage_eq =>
    rw [stage_eq]
    split
    · simp [stagesLeft]
    · split <;> simp [stagesLeft]
  · next stage_eq =>
    rw [stage_eq]
    simp [stagesLeft]
  · next result stage_eq => exact absurd stage_eq (unfinished result)

theorem deskLeft_look (settings : Settings) (d : Directory) (seen : List (UInt64 × Path))
    (file : Path) : deskLeft (look settings d seen file).1 ≤ 5 := by
  unfold look
  split
  · simp [deskLeft]
  · split
    · simp [deskLeft]
    · dsimp only
      split <;> simp [deskLeft]

/-- Every step brings the end nearer. -/
theorem Step.movesLeft_lt (step : Step settings p next) : next.movesLeft < p.movesLeft := by
  cases step with
  | tell telling => simp [movesLeft, telling, deskLeft]
  | @look file pending free pending_eq =>
    have bound := deskLeft_look settings p.directory p.seen file
    have nothing : deskLeft p.desk = 0 := by rw [free, deskLeft]
    simp only [movesLeft, pending_eq, nothing, List.length_cons]
    omega
  | take worker offering =>
    simp only [movesLeft, offering, deskLeft, List.map_append, List.sum_append, List.map_cons,
      List.map_nil, List.sum_cons, List.sum_nil, stagesLeft]
    omega
  | @work worker job others held unfinished =>
    have total := (held.map fun entry => stagesLeft entry.2.stage).sum_nat
    have less := stagesLeft_step settings p.directory unfinished
    simp only [List.map_cons, List.sum_cons] at total
    simp only [movesLeft, List.map_append, List.sum_append, List.map_cons, List.map_nil,
      List.sum_cons, List.sum_nil]
    omega
  | @handIn worker job others result held finished =>
    have total := (held.map fun entry => stagesLeft entry.2.stage).sum_nat
    have last : stagesLeft job.stage = 1 := by rw [finished, stagesLeft]
    simp only [List.map_cons, List.sum_cons, last] at total
    simp only [movesLeft]
    omega

/-- As long as something is left to do, someone can move. -/
theorem exists_move? (settings : Settings) (incomplete : p.isComplete = false) :
    ∃ m, (p.move? settings m).isSome = true := by
  have someoneWorks {worker : Nat} {job : Job} (found : p.busy.lookup worker = some job) :
      ∃ m, (p.move? settings m).isSome = true :=
    ⟨.work worker, by rw [move?, work?, found, Option.map_some, Option.isSome_some]⟩
  cases desk_eq : p.desk with
  | telling result => exact ⟨.desk, by simp [move?, deskMove?, desk_eq]⟩
  | offering file =>
    -- either the first worker has nothing to do, or it can go on
    cases found : p.busy.lookup 0 with
    | some job => exact someoneWorks found
    | none =>
      have isWorker : (0 : Int) < max settings.jobs 1 := by omega
      exact ⟨.take 0, by simp [move?, take?, desk_eq, found, isWorker]⟩
  | free =>
    cases pending_eq : p.pending with
    | cons file pending => exact ⟨.desk, by simp [move?, deskMove?, desk_eq, pending_eq]⟩
    | nil =>
      cases busy_eq : p.busy with
      | nil => simp [isComplete, desk_eq, pending_eq, busy_eq] at incomplete
      | cons entry rest => exact someoneWorks (by rw [busy_eq, List.lookup_cons_self])

/-- A schedule whose moves are all possible when their turn comes. -/
def Possible (settings : Settings) : Progress → List Move → Prop
  | _, [] => True
  | p, m :: rest => ∃ next, p.move? settings m = some next ∧ Possible settings next rest

/-- What a possible schedule takes is no longer left. -/
theorem Possible.length_le {schedule : List Move} (possible : Possible settings p schedule) :
    schedule.length + (schedule.foldl (move settings) p).movesLeft ≤ p.movesLeft := by
  induction schedule generalizing p with
  | nil => simp
  | cons m rest ih =>
    obtain ⟨next, moved, later⟩ := possible
    have less := (step_of_move? moved).movesLeft_lt
    have bound := ih later
    rw [List.foldl_cons, move, moved, Option.getD_some, List.length_cons]
    omega

/-- From every state a run can be brought to its end. -/
theorem exists_complete (settings : Settings) (p : Progress) :
    ∃ more : List Move, (more.foldl (move settings) p).isComplete = true := by
  induction left_eq : p.movesLeft using Nat.strongRecOn generalizing p with
  | ind n ih =>
    cases complete : p.isComplete with
    | true => exact ⟨[], complete⟩
    | false =>
      obtain ⟨m, isPossible⟩ := exists_move? settings complete
      obtain ⟨next, moved⟩ := Option.isSome_iff_exists.mp isPossible
      have less := (step_of_move? moved).movesLeft_lt
      obtain ⟨more, ended⟩ := ih next.movesLeft (by omega) next rfl
      refine ⟨m :: more, ?_⟩
      rwa [List.foldl_cons, move, moved, Option.getD_some]

/-- Nobody has anything to do, apart from the files that the desk has not looked at. -/
structure IsIdle (pending : List Path) (p : Progress) : Prop where
  free : p.desk = .free
  noneBusy : p.busy = []
  pending_eq : p.pending = pending

theorem IsIdle.isComplete (idle : p.IsIdle []) : p.isComplete = true := by
  simp [Progress.isComplete, idle.free, idle.noneBusy, idle.pending_eq]

theorem move_work_of_lookup {worker : Nat} (absent : p.busy.lookup worker = none) :
    p.move settings (.work worker) = p := by
  rw [move, move?, work?, absent]
  rfl

theorem IsIdle.works {pending : List Path} (idle : p.IsIdle pending) (n : Nat) :
    ((List.replicate n (Move.work 0)).foldl (move settings) p).IsIdle pending := by
  induction n with
  | zero => exact idle
  | succ n ih =>
    rw [List.replicate_succ, List.foldl_cons, move_work_of_lookup (by rw [idle.noneBusy]; rfl)]
    exact ih

/-- A worker that has a file and goes on long enough hands in its result. -/
theorem isIdle_works (settings : Settings) (job : Job) {n : Nat} {pending : List Path}
    (free : p.desk = .free) (busy_eq : p.busy = [(0, job)]) (pending_eq : p.pending = pending)
    (enough : stagesLeft job.stage ≤ n) :
    ((List.replicate n (Move.work 0)).foldl (move settings) p).IsIdle pending := by
  induction n generalizing p job with
  | zero => cases stage_eq : job.stage <;> simp [stage_eq, stagesLeft] at enough
  | succ n ih =>
    have found : p.busy.lookup 0 = some job := by rw [busy_eq, List.lookup_cons_self]
    have others : (p.busy.eraseP fun entry => entry.1 = 0) = [] := by rw [busy_eq]; rfl
    rw [List.replicate_succ, List.foldl_cons, move, move?, work?, found, Option.map_some,
      Option.getD_some, others]
    cases stage_eq : job.stage with
    | finished result =>
      apply IsIdle.works
      exact ⟨free, rfl, pending_eq⟩
    | _ =>
      have unfinished : ∀ result, job.stage ≠ .finished result := by simp [stage_eq]
      have less := stagesLeft_step settings p.directory unfinished
      dsimp only
      apply ih { job with stage := (job.step settings p.directory).1 }
      · exact free
      · rfl
      · exact pending_eq
      · dsimp only
        omega

theorem look_ne_free (settings : Settings) (d : Directory) (seen : List (UInt64 × Path))
    (file : Path) : (look settings d seen file).1 ≠ .free := by
  unfold look
  split
  · simp
  · split
    · simp
    · dsimp only
      split <;> simp

theorem move_take_of_offering (settings : Settings) {file : Path} (offering : p.desk = .offering file)
    (noneBusy : p.busy = []) :
    (p.move settings .desk).move settings (.take 0) =
      { p with desk := .free, busy := [(0, { file })] } := by
  have isWorker : (0 : Int) < max settings.jobs 1 := by omega
  have waits : p.move settings .desk = p := by
    rw [move, move?, deskMove?, offering]
    rfl
  rw [waits, move, move?, take?, offering]
  simp [noneBusy, isWorker]

/-- The desk and one worker are done with a file after the moves that `oneByOne` has for it. -/
theorem IsIdle.oneFile (settings : Settings) {file : Path} {pending : List Path}
    (idle : p.IsIdle (file :: pending)) :
    (([Move.desk, .desk, .take 0] ++ List.replicate 4 (Move.work 0)).foldl (move settings) p).IsIdle
      pending := by
  have looked : p.move settings .desk = { p with
      pending
      desk := (look settings p.directory p.seen file).1
      seen := (look settings p.directory p.seen file).2 } := by
    rw [move, move?, deskMove?, idle.free, idle.pending_eq]
    rfl
  rw [List.foldl_append]
  simp only [List.foldl_cons, List.foldl_nil, looked]
  cases desk_eq : (look settings p.directory p.seen file).1 with
  | free => exact absurd desk_eq (look_ne_free settings p.directory p.seen file)
  | telling result =>
    apply IsIdle.works
    exact ⟨rfl, idle.noneBusy, rfl⟩
  | offering offered =>
    have taken := move_take_of_offering settings rfl idle.noneBusy (p := { p with
      pending
      desk := .offering offered
      seen := (look settings p.directory p.seen file).2 })
    rw [taken]
    apply isIdle_works settings { file := offered }
    · rfl
    · rfl
    · rfl
    · simp [stagesLeft]

end Progress

section Run

variable {settings : Settings} {d : Directory} {files : List Path}

/-- What the start has and every step keeps holds at every moment of a run. -/
theorem runSchedule_induction {I : Progress → Prop} (start : I { directory := d, pending := files })
    (keep : ∀ p next, I p → p.Step settings next → I next) (schedule : List Move) :
    I (runSchedule settings d files schedule) := by
  have fromState (p : Progress) (holds : I p) : I (schedule.foldl (Progress.move settings) p) := by
    induction schedule generalizing p with
    | nil => exact holds
    | cons m rest ih =>
      rw [List.foldl_cons, Progress.move]
      cases moved : p.move? settings m with
      | none => exact ih p holds
      | some next => exact ih next (keep p next holds (Progress.step_of_move? moved))
  exact fromState _ start

/-- Every run can be brought to its end. -/
theorem exists_runSchedule_complete (schedule : List Move) :
    ∃ more, (runSchedule settings d files (schedule ++ more)).isComplete = true := by
  obtain ⟨more, ended⟩ := Progress.exists_complete settings (runSchedule settings d files schedule)
  refine ⟨more, ?_⟩
  rwa [runSchedule, List.foldl_append]

/-- One worker that does everything comes to the end. -/
theorem isComplete_oneByOne (settings : Settings) (d : Directory) (files : List Path) :
    (runSchedule settings d files (oneByOne files)).isComplete = true := by
  have fromState (files : List Path) (p : Progress) (idle : p.IsIdle files) :
      ((oneByOne files).foldl (Progress.move settings) p).IsIdle [] := by
    induction files generalizing p with
    | nil => exact idle
    | cons file rest ih =>
      rw [oneByOne, List.flatMap_cons, List.foldl_append]
      exact ih _ (idle.oneFile settings)
  exact (fromState files _ ⟨rfl, rfl, rfl⟩).isComplete

/-- A run makes no more than six moves for a file. -/
theorem length_le_of_possible {schedule : List Move}
    (possible : Progress.Possible settings { directory := d, pending := files } schedule) :
    schedule.length ≤ 6 * files.length := by
  have bound := possible.length_le
  simp only [Progress.movesLeft, Progress.deskLeft, List.map_nil, List.sum_nil] at bound
  omega

end Run

end RiscBackend.Golden
