/-
# Requests to a configuration

A program sets its configuration up by requests, and each of them changes the configuration in
place. A refusal can come at any point of a request, so what was assigned before it would stay;
the requests are therefore written out with their assignments, next to the functions that give a
new configuration. No request leaves anything behind when it is refused, and no sequence of
requests spoils the pool of registers or the size of the frames.
-/

import Mathlib.Tactic.Common
import RiscBackend.Proofs.Config.Configured
import RiscBackend.Proofs.Config.Switches
import RiscBackend.Proofs.Procedure

namespace RiscBackend.Config

open Procedure

/-! ### Changes in place -/

/-- Go through the names for a pool, and refuse one that is empty, that was `seen` before, or
that has a fixed role. -/
def admitNames (seen : List String) : List String → Procedure Config ConfigFault Unit
  | [] => pure ()
  | name :: rest => do
    refuseWhen (fun _ => name = "") .emptyRegister
    refuseWhen (fun _ => seen.contains name) (.repeatedRegister name)
    refuseWhen (fun c => c.isReserved name) (.reservedRegister name)
    admitNames (name :: seen) rest

/-- Assign the pool of registers. -/
def assignRegisters (names : List String) : Procedure Config ConfigFault Unit := do
  refuseWhen (fun _ => names.isEmpty) .emptyPool
  admitNames [] names
  modify fun c => { c with registers := names }

/-- Assign the size of the frames. -/
def assignFrameSize (size : Int64) : Procedure Config ConfigFault Unit := do
  refuseWhen (fun _ => size ≤ 0 || size % wordSize != 0) (.frameSize size)
  modify fun c => { c with frameSize := size }

/-- Assign the target, backend first. A machine for QBE that is left out is found from system and
processor. -/
def assignTarget (machineOf : String → String → String) (system processor target : String) :
    Procedure Config ConfigFault Unit :=
  let backend := (Text.cut '/' target).1
  let machine := (Text.cut '/' target).2.getD ""
  if backend = "" || backend = "rv32" then do
    refuseWhen (fun _ => machine ≠ "" && machine ≠ "rv32") (.noTarget machine)
    modify fun c => { c with backend := .rv32, target := "rv32", arch := "riscv32" }
  else if backend = "qbe" then do
    modify fun c => { c with backend := .qbe }
    modify fun c =>
      { c with target := if machine = "" then machineOf system processor else machine }
    modify fun c => { c with arch := processor }
  else throw (.unsupportedBackend backend)

/-- What a program can ask of its configuration. -/
inductive Request where
  | registers (names : List String)
  | frameSize (size : Int64)
  | target (system processor target : String)
  | feature (number : Int) (enabled : Bool)
  | warning (number : Int) (enabled : Bool)
  | flag (text : String)
  | flags (texts : List String)
  | groups (fs : Cli.FlagSet)

/-- Carry a request out. -/
def Request.perform (machineOf : String → String → String) :
    Request → Procedure Config ConfigFault Unit
  | registers names => assignRegisters names
  | frameSize size => assignFrameSize size
  | target system processor text => assignTarget machineOf system processor text
  | feature number enabled => modify fun c => c.setFeatureNumber number enabled
  | warning number enabled => modify fun c => c.setWarningNumber number enabled
  | flag text => modify fun c => (c.applyFlag? text).getD c
  | flags texts => modify fun c => (c.processFlags texts).1
  | groups fs => modify fun c => c.applyGroups fs

/-- The configuration after requests, whatever their answers. -/
def afterRequests (machineOf : String → String → String) (c : Config) (requests : List Request) :
    Config :=
  requests.foldl (fun c request => ((request.perform machineOf).run c).2) c

/-- What a new configuration or a refusal means for a configuration that is changed in place. -/
def settle (c : Config) : Except ConfigFault Config → Except ConfigFault Unit × Config
  | .ok c' => (.ok (), c')
  | .error fault => (.error fault, c)

/-! ### Refusals leave nothing behind -/

/-- Going through names assigns nothing and gives the answer of the check. -/
theorem run_admitNames (c : Config) (seen names : List String) :
    (admitNames seen names).run c = (c.checkRegisters seen names, c) := by
  induction names generalizing seen with
  | nil => rfl
  | cons name rest ih =>
    rw [admitNames, checkRegisters, run_refuseWhen_bind, run_refuseWhen_bind, run_refuseWhen_bind,
      ih]
    simp only [decide_eq_true_eq]
    split_ifs <;> rfl

theorem run_assignRegisters (c : Config) (names : List String) :
    (assignRegisters names).run c = settle c (c.setRegisters names) := by
  rw [assignRegisters, setRegisters, run_refuseWhen_bind]
  split_ifs
  · rfl
  · have admitted := run_admitNames c [] names
    rw [run_bind, admitted]
    cases c.checkRegisters [] names <;> rfl

theorem run_assignFrameSize (c : Config) (size : Int64) :
    (assignFrameSize size).run c = settle c (c.setFrameSize size) := by
  rw [assignFrameSize, setFrameSize, run_refuseWhen_bind]
  split_ifs <;> rfl

theorem run_assignTarget (machineOf : String → String → String) (c : Config)
    (system processor target : String) :
    (assignTarget machineOf system processor target).run c =
      settle c ((c.setTarget { system, processor, machineOf } target).map Prod.fst) := by
  unfold assignTarget setTarget
  dsimp only
  split
  · rw [run_refuseWhen_bind]
    generalize (Text.cut '/' target).2.getD "" = machine
    by_cases native : machine = "" ∨ machine = "rv32"
    · rw [if_neg (by grind), if_pos (by grind)]
      rfl
    · rw [if_pos (by grind), if_neg (by grind)]
      rfl
  · split_ifs <;> rfl

/-- The new configuration that a request asks for. -/
def Request.answer (machineOf : String → String → String) (c : Config) :
    Request → Except ConfigFault Config
  | registers names => c.setRegisters names
  | frameSize size => c.setFrameSize size
  | target system processor text => (c.setTarget { system, processor, machineOf } text).map Prod.fst
  | feature number enabled => .ok (c.setFeatureNumber number enabled)
  | warning number enabled => .ok (c.setWarningNumber number enabled)
  | flag text => .ok ((c.applyFlag? text).getD c)
  | flags texts => .ok (c.processFlags texts).1
  | groups fs => .ok (c.applyGroups fs)

/-- A request that is carried out in place leaves the configuration that it asks for. -/
theorem run_perform (machineOf : String → String → String) (request : Request) (c : Config) :
    (request.perform machineOf).run c = settle c (request.answer machineOf c) := by
  cases request with
  | registers names => exact run_assignRegisters c names
  | frameSize size => exact run_assignFrameSize c size
  | target system processor text => exact run_assignTarget machineOf c system processor text
  | _ => rfl

/-! ### What requests change -/

/-- Registers that can be given out: named, distinct, and without a fixed role. -/
structure Allocatable (c : Config) (names : List String) : Prop where
  nonempty : names ≠ []
  named : "" ∉ names
  distinct : names.Nodup
  first_not_mem : c.scratch.1 ∉ names
  second_not_mem : c.scratch.2 ∉ names
  stack_not_mem : c.stackRegister ∉ names
  syscall_not_mem : c.syscallRegister ∉ names

theorem Allocatable.of_roles {c c' : Config} {names : List String} (fit : c.Allocatable names)
    (scratch : c'.scratch = c.scratch) (stack : c'.stackRegister = c.stackRegister)
    (syscall : c'.syscallRegister = c.syscallRegister) : c'.Allocatable names where
  nonempty := fit.nonempty
  named := fit.named
  distinct := fit.distinct
  first_not_mem := scratch ▸ fit.first_not_mem
  second_not_mem := scratch ▸ fit.second_not_mem
  stack_not_mem := stack ▸ fit.stack_not_mem
  syscall_not_mem := syscall ▸ fit.syscall_not_mem

theorem isReserved_eq_false_iff {c : Config} {name : String} :
    c.isReserved name = false ↔
      name ≠ c.scratch.1 ∧ name ≠ c.scratch.2 ∧ name ≠ c.stackRegister ∧
        name ≠ c.syscallRegister := by
  simp [isReserved, and_assoc]

/-- The pool can be replaced by the registers that can be given out and by no others. -/
theorem setRegisters_eq_ok_iff {c c' : Config} {names : List String} :
    c.setRegisters names = .ok c' ↔ c.Allocatable names ∧ c' = { c with registers := names } := by
  have checked_iff := @checkRegisters_eq_ok_iff c [] names
  simp only [isReserved_eq_false_iff] at checked_iff
  rw [setRegisters]
  constructor
  · intro set
    split at set
    · cases set
    · rename_i nonempty
      split at set
      · cases set
      · rename_i checked
        cases set
        obtain ⟨distinct, fit⟩ := checked_iff.mp checked
        exact ⟨⟨by simpa using nonempty, fun isMember => (fit _ isMember).1 rfl, distinct,
          fun isMember => (fit _ isMember).2.2.1 rfl, fun isMember => (fit _ isMember).2.2.2.1 rfl,
          fun isMember => (fit _ isMember).2.2.2.2.1 rfl,
          fun isMember => (fit _ isMember).2.2.2.2.2 rfl⟩, rfl⟩
  · rintro ⟨allocatable, rfl⟩
    have checked : c.checkRegisters [] names = .ok () := by
      refine checked_iff.mpr ⟨allocatable.distinct, fun name isMember => ?_⟩
      have ne_of_not_mem {other : String} (absent : other ∉ names) : name ≠ other :=
        fun same => absent (same ▸ isMember)
      exact ⟨ne_of_not_mem allocatable.named, List.not_mem_nil,
        ne_of_not_mem allocatable.first_not_mem, ne_of_not_mem allocatable.second_not_mem,
        ne_of_not_mem allocatable.stack_not_mem, ne_of_not_mem allocatable.syscall_not_mem⟩
    rw [if_neg (by simpa using allocatable.nonempty), checked]

/-- What a request that is not refused can do. -/
inductive Change (c : Config) : Config → Prop
  | registers {names : List String} (fit : c.Allocatable names) :
      Change c { c with registers := names }
  | frameSize {size : Int64} (positive : 0 < size.toInt) (whole : wordSize.toInt ∣ size.toInt) :
      Change c { c with frameSize := size }
  | other {c' : Config} (resembles : Resembles c c') : Change c c'

/-- A request is refused and leaves nothing behind, or it makes one of the possible changes. -/
def Answers (c : Config) (outcome : Except ConfigFault Unit × Config) : Prop :=
  (∃ fault, outcome = (.error fault, c)) ∨ ∃ c', outcome = (.ok (), c') ∧ c.Change c'

theorem answers_settle {c : Config} {answer : Except ConfigFault Config}
    (change : ∀ c', answer = .ok c' → c.Change c') : c.Answers (settle c answer) := by
  cases answer with
  | ok c' => exact .inr ⟨c', rfl, change c' rfl⟩
  | error fault => exact .inl ⟨fault, rfl⟩

theorem answers_modify {c : Config} {f : Config → Config} (resembles : Resembles c (f c)) :
    c.Answers (Procedure.run (modify f) c) :=
  .inr ⟨f c, rfl, .other resembles⟩

theorem Resembles.setFeatureNumber (c : Config) (number : Int) (enabled : Bool) :
    Resembles c (c.setFeatureNumber number enabled) := by
  unfold Config.setFeatureNumber
  split
  · exact Resembles.setFeature c _ enabled
  · exact .refl c

theorem Resembles.setWarningNumber (c : Config) (number : Int) (enabled : Bool) :
    Resembles c (c.setWarningNumber number enabled) := by
  unfold Config.setWarningNumber
  split
  · exact Resembles.setWarning c _ enabled
  · exact .refl c

theorem answers_perform (machineOf : String → String → String) (request : Request) (c : Config) :
    c.Answers ((request.perform machineOf).run c) := by
  cases request with
  | registers names =>
    refine run_assignRegisters c names ▸ answers_settle fun c' set => ?_
    obtain ⟨fit, rfl⟩ := setRegisters_eq_ok_iff.mp set
    exact .registers fit
  | frameSize size =>
    refine run_assignFrameSize c size ▸ answers_settle fun c' set => ?_
    obtain ⟨rfl, positive, whole⟩ := setFrameSize_eq_ok set
    exact .frameSize positive whole
  | target system processor text =>
    refine run_assignTarget machineOf c system processor text ▸ answers_settle fun c' set => ?_
    cases chosen : c.setTarget { system, processor, machineOf } text with
    | ok result =>
      rw [chosen] at set
      cases set
      exact .other (.setTarget chosen)
    | error fault =>
      rw [chosen] at set
      cases set
  | feature number enabled => exact answers_modify (.setFeatureNumber c number enabled)
  | warning number enabled => exact answers_modify (.setWarningNumber c number enabled)
  | flag text =>
    refine answers_modify ?_
    cases applied : c.applyFlag? text with
    | none => exact .refl c
    | some c' => exact .applyFlag? applied
  | flags texts => exact answers_modify ((Resembles.applyFlags _ c).trans (.applyFlags _ _))
  | groups fs => exact answers_modify (.applyGroups c fs)

/-! ### What requests do to the tables of switches -/

/-- Carry a request out on the tables of switches. -/
def Request.switch (p : Panel) : Request → Panel
  | feature number enabled => { p with features := p.features.set number enabled }
  | warning number enabled => { p with warnings := p.warnings.set number enabled }
  | flag text => (p.applyFlag text).1
  | flags texts => (p.processFlags texts).1
  | groups fs => p.applyGroups fs
  | registers _ | frameSize _ | target _ _ _ => p

theorem panel_settle {c : Config} {answer : Except ConfigFault Config}
    (kept : ∀ c', answer = .ok c' → c'.panel = c.panel) : (settle c answer).2.panel = c.panel := by
  cases answer with
  | ok c' => exact kept c' rfl
  | error fault => rfl

theorem panel_assignTarget (machineOf : String → String → String)
    (system processor target : String) (c : Config) :
    ((assignTarget machineOf system processor target).run c).2.panel = c.panel := by
  unfold assignTarget
  dsimp only
  split
  · rw [run_refuseWhen_bind]
    split <;> rfl
  · split <;> rfl

/-- A request leaves the tables of the configuration that it leaves. -/
theorem panel_perform (machineOf : String → String → String) (request : Request) (c : Config) :
    ((request.perform machineOf).run c).2.panel = request.switch c.panel := by
  cases request with
  | registers names =>
    refine run_assignRegisters c names ▸ panel_settle fun c' set => ?_
    rw [(setRegisters_eq_ok_iff.mp set).2]
    rfl
  | frameSize size =>
    refine run_assignFrameSize c size ▸ panel_settle fun c' set => ?_
    rw [(setFrameSize_eq_ok set).1]
    rfl
  | target system processor text => exact panel_assignTarget machineOf system processor text c
  | feature number enabled => exact (panel_setFeatureNumber c number enabled).symm
  | warning number enabled => exact (panel_setWarningNumber c number enabled).symm
  | flag text =>
    rw [Request.switch, panel_applyFlag]
    rfl
  | flags texts =>
    rw [Request.switch, panel_processFlags]
    rfl
  | groups fs => exact (panel_applyGroups c fs).symm

theorem panel_afterRequests (machineOf : String → String → String) (requests : List Request)
    (c : Config) :
    (c.afterRequests machineOf requests).panel = requests.foldl Request.switch c.panel := by
  induction requests generalizing c with
  | nil => rfl
  | cons request rest ih =>
    rw [List.foldl_cons, ← panel_perform machineOf]
    exact ih _

/-! ### What requests keep -/

/-- A pool of registers that can be given out, and frames made of words. -/
structure InOrder (c : Config) : Prop where
  pool : c.Allocatable c.registers
  frameSize_pos : 0 < c.frameSize.toInt
  wordSize_dvd : wordSize.toInt ∣ c.frameSize.toInt

theorem inOrder_default : InOrder {} where
  pool := ⟨by decide, by decide, by decide, by decide, by decide, by decide, by decide⟩
  frameSize_pos := by decide
  wordSize_dvd := by decide

theorem Change.inOrder {c c' : Config} (change : c.Change c') (inOrder : c.InOrder) :
    c'.InOrder := by
  cases change with
  | registers fit => exact ⟨fit.of_roles rfl rfl rfl, inOrder.frameSize_pos, inOrder.wordSize_dvd⟩
  | frameSize positive whole => exact ⟨inOrder.pool.of_roles rfl rfl rfl, positive, whole⟩
  | other resembles =>
    rw [resembles]
    exact ⟨inOrder.pool.of_roles rfl rfl rfl, inOrder.frameSize_pos, inOrder.wordSize_dvd⟩

theorem Answers.inOrder {c : Config} {outcome : Except ConfigFault Unit × Config}
    (answers : c.Answers outcome) (inOrder : c.InOrder) : outcome.2.InOrder := by
  obtain ⟨fault, rfl⟩ | ⟨c', rfl, change⟩ := answers
  · exact inOrder
  · exact change.inOrder inOrder

theorem inOrder_afterRequests (machineOf : String → String → String) (requests : List Request)
    {c : Config} (inOrder : c.InOrder) : (c.afterRequests machineOf requests).InOrder := by
  induction requests generalizing c with
  | nil => exact inOrder
  | cons request rest ih => exact ih ((answers_perform machineOf request c).inOrder inOrder)

/-- Switching a number on can be seen, so it is the number of a feature. -/
def HasFeature (c : Config) (number : Int) : Prop :=
  (c.setFeatureNumber number true).isFeatureOn number = true

/-- Switching a number on can be seen, so it is the number of a warning. -/
def HasWarning (c : Config) (number : Int) : Prop :=
  (c.setWarningNumber number true).isWarningOn number = true

theorem isSome_numbered?_iff {α : Type} (members : List α) (number : Int) :
    (numbered? members number).isSome ↔ 0 ≤ number ∧ number < members.length := by
  unfold numbered?
  split
  · simp only [Option.isSome_none, Bool.false_eq_true, false_iff]
    omega
  · rw [isSome_getElem?]
    omega

theorem hasFeature_iff (c : Config) (number : Int) :
    c.HasFeature number ↔ 0 ≤ number ∧ number < Feature.all.length := by
  rw [← isSome_numbered?_iff, HasFeature, setFeatureNumber, isFeatureOn, Feature.ofNumber?]
  cases numbered? Feature.all number with
  | none => simp
  | some f => simp [setFeature]

theorem hasWarning_iff (c : Config) (number : Int) :
    c.HasWarning number ↔ 0 ≤ number ∧ number < Warning.all.length := by
  rw [← isSome_numbered?_iff, HasWarning, setWarningNumber, isWarningOn, Warning.ofNumber?]
  cases numbered? Warning.all number with
  | none => simp
  | some w => simp [setWarning]

/-- The names that flags can switch do not depend on the configuration. -/
theorem isSome_applyFlag? (c c' : Config) (flag : String) :
    (c.applyFlag? flag).isSome = (c'.applyFlag? flag).isSome := by
  unfold applyFlag?
  dsimp only
  split
  · split
    · rfl
    · rw [Option.isSome_map, Option.isSome_map]
  · rw [Option.isSome_map, Option.isSome_map]

/-- After any requests, whatever machine is found for QBE, the pool holds registers that can be
given out and frames are made of words; the same features and warnings can be switched as at the
start, and the tables of switches, which the same requests change, are those of the configuration
and have kept their keys; the pool can be replaced by registers that can be given out and by no
others; and a request that is refused leaves the configuration as it was. The requests, carried out
in place, give what the functions from configurations to configurations give. -/
theorem requests_keep_inOrder (machineOf : String → String → String) (requests : List Request) :
    let c := afterRequests machineOf {} requests
    let p := requests.foldl Request.switch (panel {})
    c.InOrder ∧
      (∀ number, c.HasFeature number ↔ 0 ≤ number ∧ number < Feature.all.length) ∧
      (∀ number, c.HasWarning number ↔ 0 ≤ number ∧ number < Warning.all.length) ∧
      (∀ flag, (c.applyFlag? flag).isSome = (applyFlag? {} flag).isSome) ∧
      (p = c.panel ∧ (panel {}).SameKeys p) ∧
      (∀ names, (∃ c', c.setRegisters names = .ok c') ↔ c.Allocatable names) ∧
      (∀ request : Request, ∀ fault c', (request.perform machineOf).run c = (.error fault, c') →
        c' = c) ∧
      ∀ (machineOf' : String → String → String) (request : Request),
        (request.perform machineOf').run c = settle c (request.answer machineOf' c) := by
  intro c p
  have tables : p = c.panel := (panel_afterRequests machineOf requests {}).symm
  refine ⟨inOrder_afterRequests machineOf requests inOrder_default, hasFeature_iff c,
    hasWarning_iff c, isSome_applyFlag? c {}, ⟨tables, tables ▸ sameKeys_panel {} c⟩,
    fun names => ?_, ?_,
    fun machineOf' request => run_perform machineOf' request c⟩
  · constructor
    · rintro ⟨c', set⟩
      exact (setRegisters_eq_ok_iff.mp set).1
    · intro fit
      exact ⟨_, setRegisters_eq_ok_iff.mpr ⟨fit, rfl⟩⟩
  · intro request fault c' ran
    obtain ⟨_, refused⟩ | ⟨_, done, -⟩ := answers_perform machineOf request c
    · rw [refused] at ran
      exact (Prod.mk.inj ran).2.symm
    · rw [done] at ran
      cases ran

end RiscBackend.Config
