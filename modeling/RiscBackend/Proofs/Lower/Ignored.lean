/-
# Ignored instructions are ignored

An instruction that is not lowered occupies a position of its block, and nothing else. When
such instructions are left out, all positions behind them move, and with them the starts and
ends of the intervals, the evictions and the end of the block. The lowering compares
positions, and the ones at which anything happens keep their order. So it finds the same
intervals, gives them the same registers, and emits the same lines.

Two things hold this up. A block has to be so short that its positions stay below the one
that stands for an eviction that never comes. And diagnostics name positions, so what is
reported is the same up to the places.
-/

import Mathlib.Data.Nat.Cast.Order.Basic
import RiscBackend.Proofs.Alloc.Renumber
import RiscBackend.Proofs.IR.Thinning
import RiscBackend.Proofs.Lower.Lockstep

namespace RiscBackend

namespace Alloc

open IR (Instruction Block Func Thinning)
open IR.Thinning (rank rank_zero rank_succ_of_kept rank_succ_of_dropped)

/-- The count of positions after a thinning. -/
def recount (kept : ℕ → Bool) (position : Int) : Int :=
  if position < never then rank kept position.toNat else position

/-- The positions at which something can happen: those kept, and the one for an eviction
that never comes. -/
def keptPositions (kept : ℕ → Bool) : Set Int :=
  { position | position = never ∨
    ∃ p : ℕ, position = p ∧ (p : Int) < never ∧ kept p = true }

variable {kept : ℕ → Bool}

theorem recount_never (kept : ℕ → Bool) : recount kept never = never := by
  rw [recount, if_neg (lt_irrefl _)]

theorem recount_natCast {p : ℕ} (short : (p : Int) < never) : recount kept p = rank kept p := by
  rw [recount, if_pos short, Int.toNat_natCast]

theorem never_mem_keptPositions : never ∈ keptPositions kept := .inl rfl

theorem mem_keptPositions {p : ℕ} (short : (p : Int) < never) :
    (p : Int) ∈ keptPositions kept ↔ kept p = true := by
  constructor
  · rintro (isNever | ⟨q, same, -, isKept⟩)
    · omega
    · rwa [Nat.cast_injective same]
  · exact fun isKept => .inr ⟨p, rfl, short, isKept⟩

/-- The positions that are kept keep their order. -/
theorem strictMonoOn_recount (kept : ℕ → Bool) :
    StrictMonoOn (recount kept) (keptPositions kept) := by
  rintro first (rfl | ⟨p, rfl, shortP, keptP⟩) second (rfl | ⟨q, rfl, shortQ, keptQ⟩) before
  · exact absurd before (lt_irrefl _)
  · omega
  · rw [recount_never, recount_natCast shortP]
    have bound : rank kept p ≤ p := Nat.count_le _
    omega
  · rw [recount_natCast shortP, recount_natCast shortQ, Nat.cast_lt]
    exact Nat.count_strict_mono keptP (Nat.cast_lt.mp before)

theorem touches_of_ignored {i : Instruction} (ignored : i.opcode = .other)
    (isLocal : String → Bool) : touches isLocal i = [] := by
  rw [touches, if_pos ignored]

theorem declares_of_ignored {i : Instruction} (ignored : i.opcode = .other) : declares i = [] := by
  rw [declares, if_neg (by simp [ignored])]

/-- The occurrences are those of the kept instructions, at their new positions. -/
theorem occurrencesFrom_thinned {position : ℕ} {body body' : List Instruction}
    (along : Thinning.Along kept position body body')
    (short : ((position + body.length : ℕ) : Int) < never) (isGlobal : String → Bool)
    (declared : List String) :
    occurrencesFrom isGlobal (rank kept position) declared body' =
        (occurrencesFrom isGlobal position declared body).map (Occurrence.renumber (recount kept)) ∧
      ∀ o ∈ occurrencesFrom isGlobal position declared body, o.position ∈ keptPositions kept := by
  induction along generalizing declared with
  | nil => exact ⟨rfl, by simp [occurrencesFrom]⟩
  | @keep position i rest rest' isKept _ ih =>
    rw [List.length_cons] at short
    have shortHere : (position : Int) < never := by omega
    obtain ⟨same, inside⟩ := ih (by omega) (declares i ++ declared)
    rw [rank_succ_of_kept isKept] at same
    push_cast at same inside
    rw [occurrencesFrom, occurrencesFrom, same, List.map_append, List.map_map]
    constructor
    · refine congrArg₂ (· ++ ·) (List.map_congr_left fun touch _ => ?_) rfl
      rw [Function.comp_apply, Occurrence.renumber, recount_natCast shortHere]
    · intro o isOccurrence
      rcases List.mem_append.mp isOccurrence with isHere | isLater
      · obtain ⟨touch, -, rfl⟩ := List.mem_map.mp isHere
        exact (mem_keptPositions shortHere).mpr isKept
      · exact inside o isLater
  | @drop position i rest rest' isDropped ignored _ ih =>
    rw [List.length_cons] at short
    obtain ⟨same, inside⟩ := ih (by omega) declared
    rw [rank_succ_of_dropped isDropped] at same
    push_cast at same inside
    rw [occurrencesFrom, touches_of_ignored ignored, declares_of_ignored ignored]
    exact ⟨same, inside⟩

theorem flatMap_mentions_of_thinning {body body' : List Instruction}
    (thinning : Thinning body body') : body'.flatMap mentions = body.flatMap mentions := by
  induction thinning with
  | nil => rfl
  | keep i _ ih => rw [List.flatMap_cons, List.flatMap_cons, ih]
  | @drop i rest rest' ignored _ ih =>
    rw [ih, List.flatMap_cons, mentions, if_pos ignored, List.nil_append]

/-- The same names cross blocks. -/
theorem crossing_of_thins {f f' : Func} (thins : f.Thins f') : crossing f' = crossing f := by
  have blocks_eq {blocks blocks' : List Block} (thinned : List.Forall₂ Block.Thins blocks blocks')
      (scan : CrossScan) (index : Nat) : scan.blocks index blocks' = scan.blocks index blocks := by
    induction thinned generalizing scan index with
    | nil => rfl
    | cons first _ ih =>
      rw [CrossScan.blocks, CrossScan.blocks, flatMap_mentions_of_thinning first.body, ih]
  rw [crossing, crossing, blocks_eq thins.blocks]

/-- The analysis finds the same intervals at the new positions. -/
theorem analyze_thinned {b b' : Block} (along : Thinning.Along kept 0 b.body b'.body)
    (short : (b.body.length : Int) < never) (isGlobal : String → Bool) :
    analyze b' isGlobal = (analyze b isGlobal).renumber (recount kept) ∧
      (analyze b isGlobal).Within (keptPositions kept) := by
  obtain ⟨same, inside⟩ := occurrencesFrom_thinned along (by simpa using short) isGlobal []
  rw [rank_zero, Nat.cast_zero] at same
  rw [Nat.cast_zero] at inside
  have none : Table.Within (keptPositions kept) {} := by simp [Table.Within]
  rw [analyze_eq_record, analyze_eq_record, same]
  constructor
  · exact (Table.renumber_record (strictMonoOn_recount kept) (recount_never kept)
      never_mem_keptPositions inside none).symm
  · exact Table.Within.record never_mem_keptPositions inside none

end Alloc

/-- A diagnostic without its place. -/
def Diagnostic.unplaced (d : Diagnostic) : Diagnostic :=
  { d with place := "" }

theorem Diagnostics.hasErrors_unplaced (ds : Diagnostics) :
    Diagnostics.hasErrors (ds.map Diagnostic.unplaced) = ds.hasErrors := by
  rw [hasErrors, hasErrors, List.any_map]
  rfl

namespace Lower

open IR (Instruction Block Func Module Global Thinning)
open IR.Thinning (rank rank_succ_of_kept rank_succ_of_dropped)
open Alloc (Interval Table never recount keptPositions)
open Asm (Line)
open Emit

variable {kept : ℕ → Bool} {b b' : Block}

/-- A block falls through as before, unless nothing at all is left of it. -/
theorem fallsThrough_of_thins (thins : b.Thins b') (nonempty : b'.body ≠ []) :
    fallsThrough b' = fallsThrough b := by
  have nonempty' : b.body ≠ [] := by
    intro empty
    have thinning := thins.body
    rw [empty] at thinning
    generalize b'.body = body' at thinning nonempty
    cases thinning
    exact nonempty rfl
  rw [fallsThrough, fallsThrough, thins.terminates_eq, List.isEmpty_eq_false_iff.mpr nonempty,
    List.isEmpty_eq_false_iff.mpr nonempty']

theorem analyze_of_nil (empty : b.body = []) (isGlobal : String → Bool) :
    Alloc.analyze b isGlobal = {} := by
  rw [Alloc.analyze, empty]
  rfl

/-- The intervals of a thinned block are those of the block, at the new positions. -/
theorem blockTable_thinned (thins : b.Thins b') (along : Thinning.Along kept 0 b.body b'.body)
    (short : (b.body.length : Int) < never) (ends : kept b.body.length = true)
    (crossing : List String) (env : Env) :
    blockTable crossing env b' = (blockTable crossing env b).renumber (recount kept) ∧
      (blockTable crossing env b).Within (keptPositions kept) ∧
      (fallsThrough b' = fallsThrough b ∨ (blockTable crossing env b).intervals = []) := by
  obtain ⟨same, within⟩ := Alloc.analyze_thinned along short env.isGlobal
  have isPosition : (b.body.length : Int) ∈ keptPositions kept :=
    (Alloc.mem_keptPositions short).mpr ends
  have last : recount kept b.body.length = b'.body.length := by
    rw [Alloc.recount_natCast short, along.rank_length]
  by_cases empty : b'.body = []
  · have none : (Alloc.analyze b env.isGlobal).intervals = [] := by
      rw [analyze_of_nil empty] at same
      have intervals_eq := congrArg Table.intervals same
      exact (List.map_eq_nil_iff.mp intervals_eq.symm)
    have none' : (blockTable crossing env b).intervals = [] := by
      rw [blockTable]
      split
      · rw [Table.holdUntil, none]
        rfl
      · exact none
    refine ⟨?_, ?_, .inr none'⟩
    · rw [blockTable, analyze_of_nil empty, fallsThrough, empty, Table.renumber, none']
      rfl
    · intro iv isMember
      rw [none'] at isMember
      cases isMember
  · have falls := fallsThrough_of_thins thins empty
    rw [blockTable, blockTable, falls, same]
    split
    · refine ⟨?_, within.holdUntil isPosition crossing, .inl rfl⟩
      rw [Table.renumber_holdUntil (Alloc.strictMonoOn_recount kept) within isPosition, last]
    · exact ⟨rfl, within, .inl rfl⟩

/-- The accord of two lowerings that emit the same lines and report the same, at places that
may differ. -/
def Accord.displaced : Accord where
  line _ l l' := l' = l
  reports ds ds' := ds'.map Diagnostic.unplaced = ds.map Diagnostic.unplaced
  line_refl _ _ := rfl
  line_mono _ same := same
  reports_nil := rfl
  reports_append := by
    intro ds ds' es es' first second
    rw [List.map_append, List.map_append, first, second]

theorem map_unplaced_reports (site site' : Site) (config_eq : site'.config = site.config)
    (fault : PlacementFault) :
    (site'.reports fault).map Diagnostic.unplaced =
      (site.reports fault).map Diagnostic.unplaced := by
  rw [Site.reports, Site.reports, config_eq]
  split
  · rfl
  · split <;> rfl

theorem map_unplaced_warnings (on : Bool) (w : Warning) (first second message : String) :
    (warnings on w second message).map Diagnostic.unplaced =
      (warnings on w first message).map Diagnostic.unplaced := by
  cases on <;> rfl

namespace Site

open Accord

/-- A point of a block, as a point of the thinned block. -/
def thin (kept : ℕ → Bool) (site : Site) : Site :=
  { site with
    table := site.table.renumber (recount kept)
    position := rank kept site.position }

variable {site : Site} {env : Env}

/-- A point that is kept meets itself in the thinned block. -/
theorem meets_thin (within : site.table.Within (keptPositions kept))
    (short : (site.position : Int) < never) (isKept : kept site.position = true) :
    Accord.displaced.Meets site (site.thin kept) where
  function_eq := rfl
  block_eq := rfl
  crossing_eq := rfl
  scratch_eq := rfl
  returnRegister_eq := rfl
  stackRegister_eq := rfl
  entries := by
    have here := (Alloc.mem_keptPositions short).mpr isKept
    have position_eq : ((site.thin kept).position : Int) = recount kept site.position :=
      (Alloc.recount_natCast short).symm
    have mono := Alloc.strictMonoOn_recount kept
    rw [thin, Table.renumber, List.forall₂_map_right_iff, List.forall₂_same]
    intro iv isMember
    have inside := within iv isMember
    refine ⟨rfl, rfl, rfl, ?_, ?_, ?_⟩
    · exact decide_eq_decide.mpr (position_eq ▸ mono.lt_iff_lt here inside.spillAt)
    · exact position_eq ▸ mono.injOn.eq_iff inside.start here
    · exact position_eq ▸ mono.injOn.eq_iff inside.spillAt here
  moves _ := rfl
  unresolved fault := map_unplaced_reports site (site.thin kept) rfl fault
  warns message := map_unplaced_warnings _ _ _ _ message

/-- At an ignored instruction where nothing starts and nothing is evicted there is nothing to
do. -/
theorem step_of_ignored {i : Instruction} (ignored : i.opcode = .other)
    (idle : ∀ iv ∈ site.table.intervals,
      iv.start ≠ site.position ∧ iv.spillAt ≠ site.position) :
    site.step i = pure () := by
  have none : site.table.spillsAt site.position = [] := by
    rw [Table.spillsAt, List.filter_eq_nil_iff]
    intro iv isMember evicted
    exact (idle iv isMember).2 (of_decide_eq_true evicted)
  have skips {intervals : List Interval} (others : ∀ iv ∈ intervals, iv.start ≠ site.position) :
      forEach site.reload intervals = pure () := by
    induction intervals with
    | nil => rfl
    | cons iv rest ih =>
      rw [List.forall_mem_cons] at others
      have skip : site.reload iv = pure () := by
        rw [reload, if_pos]
        simp [others.1]
      rw [forEach, skip, pure_bind, ih others.2]
  rw [step, none, skips fun iv isMember => (idle iv isMember).1, select, ignored]
  rfl

/-- **A thinned block in step.** The instructions of a block and those that are kept are
lowered in step. -/
theorem inStep_steps_thin {body body' : List Instruction} (site : Site)
    (along : Thinning.Along kept site.position body body')
    (within : site.table.Within (keptPositions kept))
    (short : ((site.position + body.length : ℕ) : Int) < never) :
    Accord.displaced.InStep env (site.steps body) ((site.thin kept).steps body') := by
  generalize at_eq : site.position = position at along short
  induction along generalizing site env with
  | nil => exact inStep_pure ()
  | @keep position i rest rest' isKept _ ih =>
    subst at_eq
    rw [List.length_cons] at short
    have next := rank_succ_of_kept isKept
    refine inStep_bind (inStep_step (meets_thin within (by omega) isKept) i) fun _ _ => ?_
    have later := @ih (Emit.run (site.step i) env).env { site with position := site.position + 1 }
      within rfl (by omega)
    rw [thin, next] at later
    exact later
  | @drop position i rest rest' isDropped ignored _ ih =>
    subst at_eq
    rw [List.length_cons] at short
    have here : (site.position : Int) ∉ keptPositions kept := by
      rw [Alloc.mem_keptPositions (by omega), isDropped]
      exact Bool.false_ne_true
    have idle (iv : Interval) (isMember : iv ∈ site.table.intervals) :
        iv.start ≠ site.position ∧ iv.spillAt ≠ site.position := by
      constructor
      · exact fun starts => here (starts ▸ (within iv isMember).start)
      · exact fun evicted => here (evicted ▸ (within iv isMember).spillAt)
    have next := rank_succ_of_dropped isDropped
    have later := @ih env { site with position := site.position + 1 } within rfl
      (by omega)
    rw [thin, next] at later
    rw [steps, step_of_ignored ignored idle, pure_bind]
    exact later

end Site

open Accord

variable {config : Config} {env : Env} {f f' : Func} {m m' : Module}

/-- Blocks are lowered in step. -/
theorem inStep_lowerBlock_thinned (nonempty : config.registers ≠ []) (thins : b.Thins b')
    (short : (b.body.length : Int) < never) (function : String) (crossing : List String) :
    Accord.displaced.InStep env (lowerBlock config function crossing b)
      (lowerBlock config function crossing b') := by
  obtain ⟨kept, along, beyond⟩ := thins.body.exists_along 0
  have ends : kept b.body.length = true := beyond _ (by omega)
  obtain ⟨table_eq, within, falls⟩ := blockTable_thinned thins along short ends crossing env
  obtain ⟨placed, registers, registers', allocated, allocated', inside⟩ :=
    Alloc.allocate_renumber nonempty (Alloc.strictMonoOn_recount kept) within
  rw [lowerBlock, lowerBlock, thins.label_eq]
  refine inStep_bind (inStep_label _) fun _ _ => inStep_getEnv_bind ?_
  have env_eq : ((label b.label).run env).env = env := rfl
  rw [env_eq, table_eq, Table.renumber]
  dsimp only
  rw [allocated, allocated']
  let site : Site :=
    { config, function, block := b.label, table := { intervals := placed }, crossing }
  refine inStep_bind (site.inStep_steps_thin along inside (by simpa [site] using short))
    fun _ _ => ?_
  rcases falls with same | none
  · rw [same]
    split
    · let last : Site := { site with position := b.body.length }
      have meets := last.meets_thin inside short ends
      rw [Site.thin, along.rank_length] at meets
      exact inStep_forEach₂ (fun sees env => Site.inStep_writeBack meets sees) meets.entries _
    · exact inStep_pure ()
  · have noIntervals : placed = [] := by
      have same := Alloc.sameUse_of_allocate allocated
      rw [none] at same
      cases same
      rfl
    rw [noIntervals]
    split <;> split <;> exact inStep_pure ()

/-- Functions are lowered in step. -/
theorem joins_codeOf_thinned (nonempty : config.registers ≠ []) (thins : f.Thins f')
    (short : ∀ b ∈ f.blocks, (b.body.length : Int) < never) (globals : List Global) :
    Accord.displaced.Joins (startEnv config globals).beginFunction.frame
      (codeOf config globals f) (codeOf config globals f') := by
  have blocks := (List.forall₂_and_left _ _).mpr ⟨short, thins.blocks⟩
  rw [codeOf, codeOf, lowerFunc, lowerFunc, thins.name_eq, Alloc.crossing_of_thins thins]
  refine joins_modifyEnv_bind Env.beginFunction ?_
  refine inStep_bind (inStep_label _) fun _ _ => ?_
  refine inStep_bind (inStep_instr _) fun _ _ => ?_
  refine inStep_bind (inStep_forEach₂ (fun thinned env =>
    inStep_lowerBlock_thinned nonempty thinned.2 thinned.1 _ _) blocks _) fun _ _ => ?_
  refine inStep_bind (inStep_instr _) fun _ _ => ?_
  refine inStep_bind (inStep_instr _) fun _ _ => ?_
  refine inStep_bind (inStep_instr _) fun _ _ => ?_
  exact inStep_getEnv_bind (inStep_diagnose_if rfl)

/-- A code, with what it reports but not where. -/
def Code.unplaced (c : Code) : Code :=
  { c with diagnostics := c.diagnostics.map Diagnostic.unplaced }

theorem Code.row_map_unplaced (codes : List Code) :
    row (codes.map unplaced) = (row codes).unplaced := by
  induction codes with
  | nil => rfl
  | cons c rest ih =>
    rw [List.map_cons]
    cases outcome : c.outcome with
    | error fault =>
      rw [row_cons_of_error outcome]
      exact row_cons_of_error outcome
    | ok =>
      rw [row_cons_of_ok (c := c.unplaced) outcome, row_cons_of_ok outcome, ih]
      simp only [unplaced, List.map_append]

/-- Modules are lowered in step. -/
theorem moduleCode_thinned (nonempty : config.registers ≠ []) (thins : m.Thins m')
    (short : ∀ f ∈ m.funcs, ∀ b ∈ f.blocks, (b.body.length : Int) < never) :
    (moduleCode config m').unplaced = (moduleCode config m).unplaced := by
  have codes_eq : m'.funcs.map (fun f => (codeOf config m'.globals f).code.unplaced) =
      m.funcs.map fun f => (codeOf config m.globals f).code.unplaced := by
    apply Eq.symm
    rw [← List.forall₂_eq_eq_eq, List.forall₂_map_left_iff, List.forall₂_map_right_iff,
      thins.globals_eq]
    refine ((List.forall₂_and_left _ _).mpr ⟨short, thins.funcs⟩).imp fun f f' thinned => ?_
    have joins := joins_codeOf_thinned nonempty thinned.2 thinned.1 m.globals
    have lines_eq : (codeOf config m.globals f).lines = (codeOf config m.globals f').lines := by
      rw [← List.forall₂_eq_eq_eq]
      exact joins.lines.imp fun l l' same => same.symm
    have reports_eq : (codeOf config m.globals f').diagnostics.map Diagnostic.unplaced =
        (codeOf config m.globals f).diagnostics.map Diagnostic.unplaced := joins.reports
    simp only [Emission.code, Code.unplaced, lines_eq, reports_eq, joins.outcome_eq]
  rw [moduleCode, moduleCode, ← Code.row_map_unplaced, ← Code.row_map_unplaced, List.map_map,
    List.map_map]
  exact congrArg Code.row codes_eq

/-- Where something is reported has no part in the verdict. -/
theorem Code.verdict_unplaced_eq_ok (c : Code) (globals : List Global) (p : Asm.Program) :
    c.unplaced.verdict globals = .ok p ↔ c.verdict globals = .ok p := by
  cases outcome : c.outcome with
  | error fault =>
    rw [verdict_of_error (c := c.unplaced) outcome, verdict_of_error outcome]
  | ok =>
    rw [verdict_of_ok (c := c.unplaced) outcome, verdict_of_ok outcome]
    simp only [unplaced, Diagnostics.hasErrors_unplaced]
    split
    · simp
    · rfl

/-- **Ignored instructions are ignored.** Leaving out instructions that are not lowered
changes neither whether a valid module is lowered nor a line of the program, if no block has
so many instructions that a position reaches the one that stands for an eviction that never
comes. What is reported is the same too, up to the places. -/
theorem lowerModule_ignores_other (config : Config) (m m' : Module)
    (validated : m.validate = .ok ()) (thins : m.Thins m')
    (short : ∀ f ∈ m.funcs, ∀ b ∈ f.blocks, (b.body.length : Int) < never) :
    (∀ p, (lowerModule config m').1 = .ok p ↔ (lowerModule config m).1 = .ok p) ∧
      (lowerModule config m').2.map Diagnostic.unplaced =
        (lowerModule config m).2.map Diagnostic.unplaced := by
  have refusal_eq : refusal? config m' = refusal? config m := by
    rw [refusal?, refusal?, thins.validate validated, validated]
  cases refused : refusal? config m with
  | some fault =>
    rw [lowerModule_of_refused (refusal_eq.trans refused), lowerModule_of_refused refused]
    exact ⟨fun p => .rfl, rfl⟩
  | none =>
    have nonempty : config.registers ≠ [] := by
      intro empty
      simp [refusal?, validated, empty] at refused
    have code_eq := moduleCode_thinned nonempty thins short
    rw [lowerModule_of_admitted (refusal_eq.trans refused), lowerModule_of_admitted refused,
      thins.globals_eq]
    constructor
    · intro p
      rw [← Code.verdict_unplaced_eq_ok, code_eq, Code.verdict_unplaced_eq_ok]
    · exact congrArg Code.diagnostics code_eq

/-- An instruction that is not lowered, with names that others use. -/
def ignoredCall : Instruction where
  opcode := .other
  result := some "a"
  args := [.name "b", .name "c"]

/-- Two blocks with ignored instructions in the middle, at the end and at the start. -/
def sparse : Module where
  funcs :=
    [{ name := "main"
       blocks :=
        [{ label := "entry"
           body :=
            [.binary (.arith .add) "a" (.const 1) (.const 2), ignoredCall,
              .binary (.arith .add) "b" (.name "a") (.const 3),
              .binary (.arith .sub) "c" (.name "a") (.name "b"), ignoredCall] },
          { label := "next", body := [ignoredCall, .ret (.name "c")] }] }]

/-- The same blocks without them. -/
def dense : Module where
  funcs :=
    [{ name := "main"
       blocks :=
        [{ label := "entry"
           body :=
            [.binary (.arith .add) "a" (.const 1) (.const 2),
              .binary (.arith .add) "b" (.name "a") (.const 3),
              .binary (.arith .sub) "c" (.name "a") (.name "b")] },
          { label := "next", body := [.ret (.name "c")] }] }]

theorem sparse_thins_dense : sparse.Thins dense where
  globals_eq := rfl
  funcs := by
    have entry := Thinning.keep (.binary (.arith .add) "a" (.const 1) (.const 2))
      (.drop (i := ignoredCall) rfl
        (.keep (.binary (.arith .add) "b" (.name "a") (.const 3))
          (.keep (.binary (.arith .sub) "c" (.name "a") (.name "b"))
            (.drop (i := ignoredCall) rfl .nil))))
    have next := Thinning.drop (i := ignoredCall) rfl (.keep (.ret (.name "c")) .nil)
    exact .cons ⟨rfl, .cons ⟨rfl, entry, rfl⟩ (.cons ⟨rfl, next, rfl⟩ .nil)⟩ .nil

/-- With one register values are evicted, and one is written back at the end of a block that
ends in an ignored instruction. -/
theorem lowerModule_ignores_other_sparse :
    sparse.validate = .ok () ∧ sparse.Thins dense ∧
    ∃ p, (lowerModule { registers := ["s1"] } sparse).1 = .ok p ∧
      (lowerModule { registers := ["s1"] } dense).1 = .ok p := by
  have validated : sparse.validate = .ok () := by decide
  have short : ∀ f ∈ sparse.funcs, ∀ b ∈ f.blocks, (b.body.length : Int) < never := by decide
  obtain ⟨lines_eq, -⟩ := lowerModule_ignores_other { registers := ["s1"] } sparse dense
    validated sparse_thins_dense short
  have lowers : (lowerModule { registers := ["s1"] } sparse).1.toOption.isSome = true := by
    simp only [lowerModule, Lowering.addModule, sparse, forEach, lowerFunc, lowerBlock,
      Alloc.allocate, Alloc.assign, scanOrder_blockTable]
    decide +kernel
  refine ⟨validated, sparse_thins_dense, ?_⟩
  cases lowered : (lowerModule { registers := ["s1"] } sparse).1 with
  | error fault =>
    rw [lowered] at lowers
    cases lowers
  | ok p => exact ⟨p, rfl, (lines_eq p).mpr lowered⟩

/-- A block that computes a value and then holds a number of ignored instructions. -/
def paddedEntry (padding : ℕ) : Block where
  label := "entry"
  body := .binary (.arith .add) "x" (.const 1) (.const 2) ::
    List.replicate padding { opcode := .other }

/-- A function that hands the value on to a block that returns it. -/
def paddedMain (padding : ℕ) : Func where
  name := "main"
  blocks := [paddedEntry padding, { label := "next", body := [.ret (.name "x")] }]

/-- The module with this function. -/
def padded (padding : ℕ) : Module where
  funcs := [paddedMain padding]

section Padded

variable {padding : ℕ}

theorem terminates_paddedEntry (padding : ℕ) : (paddedEntry padding).terminates = false := by
  cases padding with
  | zero => rfl
  | succ padding =>
    rw [Block.terminates, paddedEntry, List.getLast?_cons, List.getLast?_replicate]
    rfl

theorem paddedMain_thins (padding : ℕ) : (paddedMain padding).Thins (paddedMain 0) where
  name_eq := rfl
  blocks := by
    have dropped : Thinning (List.replicate padding { opcode := .other }) [] := by
      induction padding with
      | zero => exact .nil
      | succ padding ih => exact .drop rfl ih
    have entry : (paddedEntry padding).Thins (paddedEntry 0) :=
      ⟨rfl, .keep _ dropped, by rw [terminates_paddedEntry, terminates_paddedEntry]⟩
    exact .cons entry (.cons ⟨rfl, .keep _ .nil, rfl⟩ .nil)

theorem padded_thins (padding : ℕ) : (padded padding).Thins (padded 0) :=
  ⟨rfl, .cons (paddedMain_thins padding) .nil⟩

theorem validate_padded (padding : ℕ) : (padded padding).validate = .ok () := by
  have checked : ∀ i ∈ (paddedEntry padding).body, i.check = .ok () := by
    intro i isMember
    rcases List.mem_cons.mp isMember with rfl | isPadding
    · rfl
    · rw [List.eq_of_mem_replicate isPadding]
      rfl
  have next : ∀ i ∈ [Instruction.ret (.name "x")], i.check = .ok () := by
    simp only [List.mem_singleton, forall_eq]
    rfl
  have labels : ["entry", "next"].Nodup := by decide
  refine IR.Module.validate_eq_ok_iff.mpr ⟨List.nodup_nil, by simp [padded], ?_, ?_⟩
  · exact List.nodup_singleton "main"
  · rw [padded, List.forall_mem_singleton]
    exact ⟨labels, List.forall_mem_cons.mpr ⟨checked, List.forall_mem_singleton.mpr next⟩⟩

theorem analyze_paddedEntry (isGlobal : String → Bool) :
    Alloc.analyze (paddedEntry padding) isGlobal =
      { intervals := [{ name := "x", start := 0, stop := 0 }] } := by
  have rest (position : Int) (declared : List String) (t : Table) :
      Alloc.analyzeFrom isGlobal position declared t
        (List.replicate padding { opcode := .other }) = t := by
    induction padding generalizing position with
    | zero => rfl
    | succ padding ih => exact ih (position + 1)
  exact rest 1 [] _

/-- A configuration without warnings. -/
def quiet : Config :=
  { warning := fun _ => false }

/-- The interval of the value, up to the position that stands for an eviction that never
comes. -/
def paddedInterval : Interval where
  name := "x"
  start := 0
  stop := never
  register := "t2"

/-- The point at which the value is computed. -/
def paddedSite : Site where
  config := quiet
  function := "main"
  block := "entry"
  table := { intervals := [paddedInterval] }
  crossing := ["x"]

/-- Nothing starts or is evicted in the padding. -/
theorem steps_padding {site : Site} (table_eq : site.table.intervals = [paddedInterval])
    (started : 0 < site.position) (short : (site.position + padding : Int) ≤ never) :
    site.steps (List.replicate padding { opcode := .other }) = pure () := by
  induction padding generalizing site with
  | zero => rfl
  | succ padding ih =>
    have idle : ∀ iv ∈ site.table.intervals,
        iv.start ≠ (site.position : Int) ∧ iv.spillAt ≠ (site.position : Int) := by
      intro iv isMember
      rw [table_eq, List.mem_singleton] at isMember
      rw [isMember, paddedInterval]
      dsimp only
      omega
    rw [List.replicate_succ, Site.steps, Site.step_of_ignored rfl idle, pure_bind]
    push_cast at short
    have next : (((site.position + 1 : ℕ) : Int) + padding) ≤ never := by
      push_cast
      omega
    exact @ih { site with position := site.position + 1 } table_eq (Nat.succ_pos _) next

/-- At the position that stands for an eviction that never comes nothing is written back. -/
theorem writeBack_padded {site : Site} (position_eq : (site.position : Int) = never) :
    forEach site.writeBack [paddedInterval] = pure () := by
  have skip : site.writeBack paddedInterval = pure () := by
    rw [Site.writeBack, Interval.inRegister, position_eq, paddedInterval]
    simp
  rw [forEach, skip, pure_bind, forEach]

/-- When a block ends there, the value that it computes is lost. -/
theorem lowerBlock_paddedEntry (full : (padding : Int) + 1 = never) :
    lowerBlock quiet "main" ["x"] (paddedEntry padding) =
      label "entry" >>= fun _ =>
        paddedSite.step (.binary (.arith .add) "x" (.const 1) (.const 2)) := by
  have falls : fallsThrough (paddedEntry padding) = true := by
    rw [fallsThrough, terminates_paddedEntry]
    rfl
  have length_eq : (((paddedEntry padding).body.length : ℕ) : Int) = never := by
    rw [paddedEntry, List.length_cons, List.length_replicate]
    push_cast
    exact full
  have table_eq (env : Env) : blockTable ["x"] env (paddedEntry padding) =
      { intervals := [{ name := "x", start := 0, stop := never }] } := by
    rw [blockTable, falls, analyze_paddedEntry, length_eq]
    rfl
  obtain ⟨registers, allocated⟩ : ∃ registers, Alloc.allocate (.ofNames quiet.registers)
      [{ name := "x", start := 0, stop := never }] = .ok ([paddedInterval], registers) := by
    rw [Alloc.allocate, Alloc.assign, Alloc.scanOrder, List.zipIdx_cons, List.zipIdx_nil,
      List.mergeSort_singleton]
    exact ⟨_, rfl⟩
  have steps_eq {site : Site} (table_eq : site.table.intervals = [paddedInterval])
      (position_eq : site.position = 0) : site.steps (paddedEntry padding).body =
        site.step (.binary (.arith .add) "x" (.const 1) (.const 2)) := by
    have later : Site.steps { site with position := site.position + 1 }
        (List.replicate padding { opcode := .other }) = pure () :=
      steps_padding table_eq (by simp [position_eq]) (by simp [position_eq]; omega)
    rw [paddedEntry, Site.steps, later]
    exact bind_pure_eq _
  rw [lowerBlock]
  congr 1
  funext _ env
  show Emit.run (getEnv >>= _) env = Emit.run (paddedSite.step _) env
  rw [run_getEnv_bind]
  dsimp only
  rw [table_eq, allocated]
  dsimp only
  rw [falls, if_pos rfl, steps_eq rfl rfl, writeBack_padded length_eq]
  rw [bind_pure_eq]
  rfl

end Padded

/-- The code of the padded function when the value is lost. -/
def lostMain : Emit Unit := do
  modifyEnv Env.beginFunction
  label "main"
  instr (.addi "sp" "sp" (-1024))
  label "entry"
  paddedSite.step (.binary (.arith .add) "x" (.const 1) (.const 2))
  lowerBlock quiet "main" ["x"] { label := "next", body := [.ret (.name "x")] }
  instr (.addi "sp" "sp" 1024)
  instr (.li "a7" 93)
  instr .ecall
  frameWarning quiet "main"

theorem lowerFunc_paddedMain {padding : ℕ} (full : (padding : Int) + 1 = never) :
    lowerFunc quiet (paddedMain padding) = lostMain := by
  have crossing_eq : Alloc.crossing (paddedMain padding) = ["x"] := by
    rw [← Alloc.crossing_of_thins (paddedMain_thins padding)]
    decide +kernel
  rw [lowerFunc, crossing_eq, paddedMain, forEach, forEach, forEach, lowerBlock_paddedEntry full]
  simp only [bind_assoc]
  rfl

/-- Nothing is stored by the code of the padded module. -/
theorem lowerModule_padded {padding : ℕ} (full : (padding : Int) + 1 = never) :
    (lowerModule quiet (padded padding)).1.toOption.map
      (fun p => p.lines.contains (.ofInstr (.sw "t2" 1020 "sp"))) = some false := by
  have admitted : refusal? quiet (padded padding) = none :=
    refusal?_eq_none (by decide) fun _ => validate_padded padding
  have code_eq : moduleCode quiet (padded padding) = (codeOf quiet [] (paddedMain padding)).code :=
    Code.row_singleton _
  rw [lowerModule_of_admitted admitted, code_eq, codeOf, lowerFunc_paddedMain full, padded]
  simp only [lostMain, lowerBlock, Alloc.allocate, Alloc.assign, scanOrder_blockTable]
  decide +kernel

/-- A block of 2147483647 instructions loses the value that it hands on, and without the
instructions that are not lowered it does not. -/
theorem long_block_loses_value :
    (padded 2147483646).validate = .ok () ∧ (padded 2147483646).Thins (padded 0) ∧
    ∃ p p', (lowerModule quiet (padded 2147483646)).1 = .ok p ∧
      (lowerModule quiet (padded 0)).1 = .ok p' ∧
      Line.ofInstr (.sw "t2" 1020 "sp") ∉ p.lines ∧
      Line.ofInstr (.sw "t2" 1020 "sp") ∈ p'.lines := by
  have stores : (lowerModule quiet (padded 0)).1.toOption.map
      (fun p => p.lines.contains (.ofInstr (.sw "t2" 1020 "sp"))) = some true := by
    simp only [lowerModule, Lowering.addModule, padded, paddedMain, forEach, lowerFunc, lowerBlock,
      Alloc.allocate, Alloc.assign, scanOrder_blockTable]
    decide +kernel
  have loses := @lowerModule_padded 2147483646 rfl
  refine ⟨validate_padded _, padded_thins _, ?_⟩
  cases lowered : (lowerModule quiet (padded 2147483646)).1 with
  | error fault =>
    rw [lowered] at loses
    cases loses
  | ok p =>
    cases lowered' : (lowerModule quiet (padded 0)).1 with
    | error fault =>
      rw [lowered'] at stores
      cases stores
    | ok p' =>
      rw [lowered] at loses
      rw [lowered'] at stores
      refine ⟨p, p', rfl, rfl, ?_, ?_⟩
      · simpa using Option.some.inj loses
      · simpa using Option.some.inj stores

end Lower

end RiscBackend
