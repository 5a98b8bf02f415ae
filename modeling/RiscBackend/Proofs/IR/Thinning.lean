/-
# Leaving out what is not lowered

An instruction whose operation is read but not lowered can be left out of a block. A
thinning leaves out any number of them, anywhere, as long as no block gains or loses the
return at its end. The instructions that are left move to earlier positions: each to the
number of those before it that are kept.
-/

import Mathlib.Data.Nat.Count
import RiscBackend.Proofs.IR.WellFormed

namespace RiscBackend.IR

/-- Instructions, and what stays of them when some that are not lowered are left out. -/
inductive Thinning : List Instruction → List Instruction → Prop
  | nil : Thinning [] []
  | keep (i : Instruction) {rest rest' : List Instruction} (later : Thinning rest rest') :
      Thinning (i :: rest) (i :: rest')
  | drop {i : Instruction} {rest rest' : List Instruction} (ignored : i.opcode = .other)
      (later : Thinning rest rest') : Thinning (i :: rest) rest'

/-- A block, and the block without some instructions that are not lowered. Either both end
in a return or none does. -/
structure Block.Thins (b b' : Block) : Prop where
  label_eq : b'.label = b.label
  body : Thinning b.body b'.body
  terminates_eq : b'.terminates = b.terminates

/-- A function, and the function with thinned blocks. -/
structure Func.Thins (f f' : Func) : Prop where
  name_eq : f'.name = f.name
  blocks : List.Forall₂ Block.Thins f.blocks f'.blocks

/-- A module, and the module with thinned functions. -/
structure Module.Thins (m m' : Module) : Prop where
  globals_eq : m'.globals = m.globals
  funcs : List.Forall₂ Func.Thins m.funcs m'.funcs

section Checks

/-- What passes from each member to its counterpart passes from all members to all of those. -/
theorem forall_mem_of_forall₂ {α β : Type} {R : α → β → Prop} {p : α → Prop} {q : β → Prop}
    (passes : ∀ {a b}, R a b → p a → q b) {members : List α} {members' : List β}
    (related : List.Forall₂ R members members') (each : ∀ a ∈ members, p a) :
    ∀ b ∈ members', q b := by
  induction related with
  | nil => simp
  | cons first _ ih =>
    rw [List.forall_mem_cons] at each ⊢
    exact ⟨passes first each.1, ih each.2⟩

theorem map_eq_of_forall₂ {α β : Type} {R : α → β → Prop} {key : α → String} {key' : β → String}
    (agree : ∀ {a b}, R a b → key' b = key a) {members : List α} {members' : List β}
    (related : List.Forall₂ R members members') : members'.map key' = members.map key := by
  induction related with
  | nil => rfl
  | cons first _ ih => rw [List.map_cons, List.map_cons, agree first, ih]

theorem Thinning.subset {body body' : List Instruction} (thinning : Thinning body body') :
    body' ⊆ body := by
  induction thinning with
  | nil => exact List.Subset.refl _
  | keep i _ ih => exact List.cons_subset_cons i ih
  | drop _ _ ih => exact List.subset_cons_of_subset _ ih

/-- The blocks of a function keep their labels, and what is left of them is still checked. -/
theorem Func.Thins.checked {f f' : Func} (thins : f.Thins f')
    (checked : (f.blocks.map Block.label).Nodup ∧
      ∀ b ∈ f.blocks, ∀ i ∈ b.body, i.check = .ok ()) :
    (f'.blocks.map Block.label).Nodup ∧ ∀ b ∈ f'.blocks, ∀ i ∈ b.body, i.check = .ok () := by
  rw [map_eq_of_forall₂ (fun thinned => thinned.label_eq) thins.blocks]
  refine ⟨checked.1, forall_mem_of_forall₂ (fun thinned each i isLeft => ?_) thins.blocks checked.2⟩
  exact each i (thinned.body.subset isLeft)

/-- A valid module stays valid. -/
theorem Module.Thins.validate {m m' : Module} (thins : m.Thins m')
    (validated : m.validate = .ok ()) : m'.validate = .ok () := by
  rw [validate_eq_ok_iff] at validated ⊢
  rw [thins.globals_eq, map_eq_of_forall₂ (fun thinned => thinned.name_eq) thins.funcs]
  obtain ⟨nodup, named, nodup', checked⟩ := validated
  refine ⟨nodup, named, nodup', ?_⟩
  exact forall_mem_of_forall₂ (fun thinned => thinned.checked) thins.funcs checked

end Checks

/-- A thinning of instructions from a position on, with the positions that are kept. -/
inductive Thinning.Along (kept : ℕ → Bool) : ℕ → List Instruction → List Instruction → Prop
  | nil {position : ℕ} : Along kept position [] []
  | keep {position : ℕ} {i : Instruction} {rest rest' : List Instruction}
      (isKept : kept position = true) (later : Along kept (position + 1) rest rest') :
      Along kept position (i :: rest) (i :: rest')
  | drop {position : ℕ} {i : Instruction} {rest rest' : List Instruction}
      (isDropped : kept position = false) (ignored : i.opcode = .other)
      (later : Along kept (position + 1) rest rest') : Along kept position (i :: rest) rest'

namespace Thinning

/-- The position of an instruction when only some of those before it are kept. -/
def rank (kept : ℕ → Bool) (position : ℕ) : ℕ :=
  Nat.count (fun p => kept p = true) position

variable {kept : ℕ → Bool} {position : ℕ} {body body' : List Instruction}

theorem rank_zero (kept : ℕ → Bool) : rank kept 0 = 0 :=
  Nat.count_zero _

theorem rank_succ_of_kept (isKept : kept position = true) :
    rank kept (position + 1) = rank kept position + 1 := by
  rw [rank, Nat.count_succ, if_pos isKept, rank]

theorem rank_succ_of_dropped (isDropped : kept position = false) :
    rank kept (position + 1) = rank kept position := by
  rw [rank, Nat.count_succ, if_neg (by simp [isDropped]), rank, Nat.add_zero]

/-- Only the positions from the first one on matter. -/
theorem Along.congr {kept' : ℕ → Bool} (along : Along kept position body body')
    (same : ∀ p, position ≤ p → kept' p = kept p) : Along kept' position body body' := by
  induction along with
  | nil => exact .nil
  | @keep position i rest rest' isKept _ ih =>
    refine .keep ((same position le_rfl).trans isKept) (ih fun p after => same p ?_)
    omega
  | @drop position i rest rest' isDropped ignored _ ih =>
    refine .drop ((same position le_rfl).trans isDropped) ignored (ih fun p after => same p ?_)
    omega

/-- For every thinning there are positions that are kept, among them those behind the end. -/
theorem exists_along (thinning : Thinning body body') (position : ℕ) :
    ∃ kept, Along kept position body body' ∧
      ∀ p, position + body.length ≤ p → kept p = true := by
  induction thinning generalizing position with
  | nil => exact ⟨fun _ => true, .nil, fun _ _ => rfl⟩
  | @keep i rest rest' _ ih =>
    obtain ⟨kept, along, beyond⟩ := ih (position + 1)
    refine ⟨Function.update kept position true, .keep (by simp) (along.congr ?_), ?_⟩
    · intro p after
      rw [Function.update_of_ne (by omega)]
    · intro p after
      rw [List.length_cons] at after
      rw [Function.update_of_ne (by omega), beyond p (by omega)]
  | @drop i rest rest' ignored _ ih =>
    obtain ⟨kept, along, beyond⟩ := ih (position + 1)
    refine ⟨Function.update kept position false, .drop (by simp) ignored (along.congr ?_), ?_⟩
    · intro p after
      rw [Function.update_of_ne (by omega)]
    · intro p after
      rw [List.length_cons] at after
      rw [Function.update_of_ne (by omega), beyond p (by omega)]

/-- The end moves by the number of instructions that are kept. -/
theorem Along.rank_end (along : Along kept position body body') :
    rank kept (position + body.length) = rank kept position + body'.length := by
  induction along with
  | nil => rfl
  | @keep position i rest rest' isKept _ ih =>
    rw [List.length_cons, List.length_cons, Nat.add_comm rest.length, ← Nat.add_assoc, ih,
      rank_succ_of_kept isKept]
    omega
  | @drop position i rest rest' isDropped _ _ ih =>
    rw [List.length_cons, Nat.add_comm rest.length, ← Nat.add_assoc, ih,
      rank_succ_of_dropped isDropped]

theorem Along.rank_length (along : Along kept 0 body body') :
    rank kept body.length = body'.length := by
  have moved := along.rank_end
  rwa [Nat.zero_add, rank_zero, Nat.zero_add] at moved

end Thinning

end RiscBackend.IR
