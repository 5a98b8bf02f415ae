/-
# The first mention of a local

Whether a local is live-in depends on the first instruction of the block that mentions
it, and there on the order in which the walk meets the parts of the instruction: the
result first, then the operands from left to right. So a local is live-in exactly when
that instruction reads it and neither has it as its result nor names it as the target
of a store before the read. An instruction that reads a local and overwrites it, such
as an increment, does not make the local live-in.
-/

import RiscBackend.Proofs.Alloc.Crossing
import RiscBackend.Proofs.Alloc.Extent

namespace RiscBackend

open IR (Instruction Block Operand)

/-- The operands that an instruction reads: all but the target of a store. -/
def IR.Instruction.readOperands (i : Instruction) : List Operand :=
  if i.opcode = .store then i.args.eraseIdx 1 else i.args

namespace Alloc

theorem mem_declaredBy {declared : List String} {body : List Instruction} {name : String} :
    name ∈ declaredBy declared body ↔
      name ∈ declared ∨ ∃ j ∈ body, j.opcode = .alloca ∧ j.result = some name := by
  induction body generalizing declared with
  | nil => simp [declaredBy]
  | cons i rest ih =>
    have step : declaredBy declared (i :: rest) = declaredBy (declares i ++ declared) rest := rfl
    rw [step, ih, List.mem_append, declares]
    split
    · rename_i isAlloca
      simp [isAlloca, or_assoc, or_left_comm]
    · rename_i notAlloca
      simp [notAlloca]

/-- The occurrence that an operand at an index is, if it is one. -/
def operandTouch (isLocal : String → Bool) (i : Instruction) (x : Operand × Nat) :
    Option (String × Access) :=
  match x.1.name? with
  | some name => if name != "" && isLocal name then some (name, accessOf i x.2) else none
  | none => none

theorem operandTouches_eq (isLocal : String → Bool) (i : Instruction) :
    operandTouches isLocal i = i.args.zipIdx.filterMap (operandTouch isLocal i) := rfl

/-- An operand occurs when it is a name that means a local. -/
theorem operandTouch_eq_some {isLocal : String → Bool} {i : Instruction} {x : Operand × Nat}
    {name : String} {access : Access} :
    operandTouch isLocal i x = some (name, access) ↔
      x.1 = .name name ∧ name ≠ "" ∧ isLocal name = true ∧ access = accessOf i x.2 := by
  obtain ⟨arg, index⟩ := x
  cases arg with
  | name given => grind [operandTouch, Operand.name?]
  | _ => simp [operandTouch, Operand.name?]

theorem mem_operandTouches {isLocal : String → Bool} {i : Instruction} {name : String}
    {access : Access} :
    (name, access) ∈ operandTouches isLocal i ↔
      name ≠ "" ∧ isLocal name = true ∧
        ∃ index, i.args[index]? = some (.name name) ∧ access = accessOf i index := by
  rw [operandTouches_eq, List.mem_filterMap]
  constructor
  · rintro ⟨⟨arg, index⟩, isArg, isTouch⟩
    obtain ⟨rfl, nonempty, isLocal_name, access_eq⟩ := operandTouch_eq_some.mp isTouch
    exact ⟨nonempty, isLocal_name, index, List.mk_mem_zipIdx_iff_getElem?.mp isArg, access_eq⟩
  · rintro ⟨nonempty, isLocal_name, index, isArg, access_eq⟩
    exact ⟨(.name name, index), List.mk_mem_zipIdx_iff_getElem?.mpr isArg,
      operandTouch_eq_some.mpr ⟨rfl, nonempty, isLocal_name, access_eq⟩⟩

theorem mem_touches_of_result {isLocal : String → Bool} {i : Instruction} {name : String}
    (lowered : i.opcode ≠ .other) (isResult : i.result = some name) :
    (name, .write) ∈ touches isLocal i := by
  rw [touches, if_neg lowered, isResult]
  exact List.mem_cons_self

theorem mem_touches_of_arg {isLocal : String → Bool} {i : Instruction} {name : String}
    {index : Nat} (lowered : i.opcode ≠ .other) (isArg : i.args[index]? = some (.name name))
    (nonempty : name ≠ "") (isLocal_name : isLocal name = true) :
    (name, accessOf i index) ∈ touches isLocal i := by
  rw [touches, if_neg lowered]
  exact List.mem_append_right _
    (mem_operandTouches.mpr ⟨nonempty, isLocal_name, index, isArg, rfl⟩)

/-- The first occurrence of a name among the operands is the leftmost one. -/
theorem find?_operandTouches {isLocal : String → Bool} {i : Instruction} {name : String}
    {access : Access} :
    (operandTouches isLocal i).find? (fun touch => touch.1 = name) = some (name, access) ↔
      name ≠ "" ∧ isLocal name = true ∧
        ∃ left right, i.args = left ++ .name name :: right ∧ .name name ∉ left ∧
          access = accessOf i left.length := by
  have occurs (x : Operand × Nat) :
      (operandTouch isLocal i x).any (fun touch => decide (touch.1 = name)) = true ↔
        x.1 = .name name ∧ name ≠ "" ∧ isLocal name = true := by
    rw [Option.any_eq_true]
    constructor
    · rintro ⟨⟨given, access⟩, isTouch, same⟩
      obtain rfl : given = name := by simpa using same
      obtain ⟨isName, nonempty, isLocal_name, -⟩ := operandTouch_eq_some.mp isTouch
      exact ⟨isName, nonempty, isLocal_name⟩
    · rintro ⟨isName, nonempty, isLocal_name⟩
      exact ⟨_, operandTouch_eq_some.mpr ⟨isName, nonempty, isLocal_name, rfl⟩, by simp⟩
  rw [operandTouches_eq, List.find?_filterMap, Option.bind_eq_some_iff]
  constructor
  · rintro ⟨x, isFirst, isTouch⟩
    obtain ⟨isName, nonempty, isLocal_name, access_eq⟩ := operandTouch_eq_some.mp isTouch
    obtain ⟨-, before, after, zipped, least⟩ := List.find?_eq_some_iff_append.mp isFirst
    obtain ⟨left, rest, args_eq, rfl, rest_eq⟩ := List.zipIdx_eq_append_iff.mp zipped
    obtain ⟨arg, right, rfl, rfl, -⟩ := List.zipIdx_eq_cons_iff.mp rest_eq.symm
    obtain rfl : arg = .name name := isName
    refine ⟨nonempty, isLocal_name, left, right, args_eq, ?_, by simpa using access_eq⟩
    intro isEarlier
    obtain ⟨index, atIndex⟩ := List.mem_iff_getElem?.mp isEarlier
    have earlier := least _ (List.mk_mem_zipIdx_iff_getElem?.mpr atIndex)
    rw [(occurs _).mpr ⟨rfl, nonempty, isLocal_name⟩] at earlier
    cases earlier
  · rintro ⟨nonempty, isLocal_name, left, right, args_eq, isFirst, rfl⟩
    refine ⟨(.name name, left.length), List.find?_eq_some_iff_append.mpr ⟨?_, left.zipIdx,
      right.zipIdx (left.length + 1), ?_, ?_⟩, operandTouch_eq_some.mpr
        ⟨rfl, nonempty, isLocal_name, rfl⟩⟩
    · exact (occurs _).mpr ⟨rfl, nonempty, isLocal_name⟩
    · rw [args_eq, List.zipIdx_append, List.zipIdx_cons, Nat.zero_add]
    · intro x isEarlier
      rw [Bool.not_eq_true', Bool.eq_false_iff]
      intro isName
      exact isFirst (((occurs x).mp isName).1 ▸ List.fst_mem_of_mem_zipIdx isEarlier)

/-- An instruction asks for the value that a name had before it, and no part of the
instruction that the walk meets before the read overwrites the name. -/
structure ReadsFirst (i : Instruction) (name : String) : Prop where
  nonempty : name ≠ ""
  reads : .name name ∈ i.readOperands
  not_result : i.result ≠ some name
  not_target : i.opcode = .store → i.args[1]? = some (.name name) →
    i.args[0]? = some (.name name)

/-- The leftmost operand with a name is read unless it is the target of a store. -/
private theorem accessOf_leftmost {i : Instruction} {name : String} {left right : List Operand}
    (args_eq : i.args = left ++ .name name :: right) (isFirst : .name name ∉ left) :
    accessOf i left.length = .read ↔ .name name ∈ i.readOperands ∧
      (i.opcode = .store → i.args[1]? = some (.name name) → i.args[0]? = some (.name name)) := by
  rw [accessOf, IR.Instruction.readOperands]
  by_cases isStore : i.opcode = .store
  · rcases left with _ | ⟨value, _ | ⟨target, others⟩⟩
    · simp [isStore, args_eq]
    · have ne : value ≠ .name name := fun same => isFirst (by simp [same])
      simp [isStore, args_eq, ne]
    · have ne : target ≠ .name name := fun same => isFirst (by simp [same])
      simp [isStore, args_eq, ne]
  · simp [isStore, args_eq]

/-- **When the first occurrence in an instruction is a read.** -/
theorem find?_touches_eq_read {isLocal : String → Bool} {i : Instruction} {name : String} :
    (touches isLocal i).find? (fun touch => touch.1 = name) = some (name, .read) ↔
      i.opcode ≠ .other ∧ isLocal name = true ∧ ReadsFirst i name := by
  rw [touches]
  by_cases unlowered : i.opcode = .other
  · simp [unlowered]
  · rw [if_neg unlowered, List.find?_append]
    by_cases isResult : i.result = some name
    · have found : ((i.result.map fun name => (name, Access.write)).toList.find?
          fun touch => decide (touch.1 = name)) = some (name, .write) := by
        simp [isResult]
      rw [found]
      constructor
      · intro isRead
        cases isRead
      · rintro ⟨-, -, readsFirst⟩
        exact absurd isResult readsFirst.not_result
    · have missing : ((i.result.map fun name => (name, Access.write)).toList.find?
          fun touch => decide (touch.1 = name)) = none := by
        cases result : i.result with
        | none => rfl
        | some other =>
          have ne : other ≠ name := fun same => isResult (same ▸ result)
          simp [ne]
      rw [missing, Option.none_or, find?_operandTouches]
      constructor
      · rintro ⟨nonempty, isLocal_name, left, right, args_eq, isFirst, access_eq⟩
        obtain ⟨reads, not_target⟩ := (accessOf_leftmost args_eq isFirst).mp access_eq.symm
        exact ⟨unlowered, isLocal_name, nonempty, reads, isResult, not_target⟩
      · rintro ⟨-, isLocal_name, nonempty, reads, -, not_target⟩
        have isArg : Operand.name name ∈ i.args := by
          rw [IR.Instruction.readOperands] at reads
          split at reads
          · exact List.mem_of_mem_eraseIdx reads
          · exact reads
        obtain ⟨left, right, args_eq, isFirst⟩ := List.eq_append_cons_of_mem isArg
        exact ⟨nonempty, isLocal_name, left, right, args_eq, isFirst,
          ((accessOf_leftmost args_eq isFirst).mpr ⟨reads, not_target⟩).symm⟩

/-- Whether an instruction mentions a name as a local, where `done` stands before it in
its block: the name is its result, or an operand that means a local. A declaration
makes its name mean a local from there on. The empty name is no operand. -/
def MentionsLocal (isGlobal : String → Bool) (done : List Instruction) (i : Instruction)
    (name : String) : Prop :=
  i.opcode ≠ .other ∧ (i.result = some name ∨ .name name ∈ i.args ∧ name ≠ "" ∧
    (isGlobal name = false ∨ ∃ j ∈ done ++ [i], j.opcode = .alloca ∧ j.result = some name))

/-- An instruction and the code around it, where the instruction is the first of the
block to mention a name as a local. -/
structure FirstMention (isGlobal : String → Bool) (block : Block) (done : List Instruction)
    (i : Instruction) (rest : List Instruction) (name : String) : Prop where
  body_eq : block.body = done ++ i :: rest
  mentions : MentionsLocal isGlobal done i name
  first : ∀ before j after, done = before ++ j :: after → ¬ MentionsLocal isGlobal before j name

theorem isLocalAmong_declaredBy {isGlobal : String → Bool} {body : List Instruction}
    {name : String} :
    isLocalAmong isGlobal (declaredBy [] body) name = true ↔
      isGlobal name = false ∨ ∃ j ∈ body, j.opcode = .alloca ∧ j.result = some name := by
  simp [isLocalAmong, mem_declaredBy, or_comm]

/-- The occurrences in an instruction are the locals that it mentions. -/
theorem exists_mem_touchesAfter {isGlobal : String → Bool} {done : List Instruction}
    {i : Instruction} {name : String} :
    (∃ access, (name, access) ∈ touchesAfter isGlobal done i) ↔
      MentionsLocal isGlobal done i name := by
  constructor
  · rintro ⟨access, isTouch⟩
    rw [touchesAfter, touches] at isTouch
    split at isTouch
    · cases isTouch
    · rename_i lowered
      refine ⟨lowered, ?_⟩
      rcases List.mem_append.mp isTouch with isResult | isOperand
      · simp only [Option.mem_toList, Option.map_eq_some_iff, Prod.mk.injEq] at isResult
        obtain ⟨_, isResult, rfl, -⟩ := isResult
        exact .inl isResult
      · obtain ⟨nonempty, isLocal, index, atIndex, -⟩ := mem_operandTouches.mp isOperand
        exact .inr ⟨List.mem_of_getElem? atIndex, nonempty, isLocalAmong_declaredBy.mp isLocal⟩
  · rintro ⟨lowered, isResult | ⟨isArg, nonempty, isLocal⟩⟩
    · exact ⟨.write, mem_touches_of_result lowered isResult⟩
    · obtain ⟨index, atIndex⟩ := List.mem_iff_getElem?.mp isArg
      exact ⟨_, mem_touches_of_arg lowered atIndex nonempty (isLocalAmong_declaredBy.mpr isLocal)⟩

/-- A name that instructions mention, and that means a local after them, occurs in
one of them: what makes the name of a global a local is an occurrence too. -/
theorem exists_touch_of_mentions {isGlobal : String → Bool} {done : List Instruction}
    {j : Instruction} {name : String} (isDone : j ∈ done) (isMention : name ∈ mentions j)
    (isLocal : isLocalAmong isGlobal (declaredBy [] done) name = true) :
    ∃ first k later access, done = first ++ k :: later ∧
      (name, access) ∈ touchesAfter isGlobal first k := by
  rcases isLocalAmong_declaredBy.mp isLocal with notGlobal | ⟨k, isDone', isAlloca, isResult⟩
  · obtain ⟨first, later, rfl⟩ := List.append_of_mem isDone
    obtain ⟨lowered, occurs⟩ := mem_mentions.mp isMention
    have mentionsLocal : MentionsLocal isGlobal first j name :=
      ⟨lowered, occurs.imp_right fun isArg => ⟨isArg.1, isArg.2, .inl notGlobal⟩⟩
    obtain ⟨access, isTouch⟩ := exists_mem_touchesAfter.mpr mentionsLocal
    exact ⟨first, j, later, access, rfl, isTouch⟩
  · obtain ⟨first, later, rfl⟩ := List.append_of_mem isDone'
    exact ⟨first, k, later, .write, rfl,
      mem_touches_of_result (by simp [isAlloca]) isResult⟩

/-- An interval opens at the first mention of its name, and is live-in exactly when
that instruction reads the name first. -/
theorem FirstMention.opens {isGlobal : String → Bool} {block : Block}
    {done rest : List Instruction} {i : Instruction} {name : String}
    (here : FirstMention isGlobal block done i rest name) :
    ∃ iv, (analyze block isGlobal).lookup name = some iv ∧ iv.start = done.length ∧
      (iv.liveIn = true ↔ ReadsFirst i name) := by
  obtain ⟨access, isTouch⟩ := exists_mem_touchesAfter.mpr here.mentions
  obtain ⟨iv, inTable, rfl, start_le, -⟩ := analyze_covers here.body_eq isTouch
  obtain ⟨-, done', i', rest', body_eq, start_eq, isFirst⟩ := analyze_opens inTable
  have sameCode := here.body_eq.symm.trans body_eq
  have length_eq : done.length = done'.length := by
    obtain ⟨after, done_eq, -⟩ | ⟨after, done_eq, rest_eq⟩ := List.append_eq_append_iff.mp sameCode
    · have lengths := congrArg List.length done_eq
      rw [List.length_append] at lengths
      omega
    · cases after with
      | nil => rw [done_eq, List.append_nil]
      | cons j after =>
        -- The interval would open at an instruction before the first mention.
        obtain ⟨rfl, -⟩ := List.cons.inj rest_eq
        exact absurd (exists_mem_touchesAfter.mp ⟨_, List.mem_of_find?_eq_some isFirst⟩)
          (here.first done' i' after done_eq)
  obtain ⟨rfl, same⟩ := List.append_inj sameCode length_eq
  obtain ⟨rfl, -⟩ := List.cons.inj same
  refine ⟨iv, Table.lookup_name_of_mem (nodup_names_analyze block isGlobal) inTable, start_eq, ?_⟩
  constructor
  · intro liveIn
    rw [if_pos liveIn] at isFirst
    exact (find?_touches_eq_read.mp isFirst).2.2
  · intro readsFirst
    have isLocal : isLocalAmong isGlobal (declaredBy [] (done ++ [i])) iv.name = true := by
      obtain ⟨-, isResult | ⟨-, -, isLocal⟩⟩ := here.mentions
      · exact absurd isResult readsFirst.not_result
      · exact isLocalAmong_declaredBy.mpr isLocal
    have isRead := find?_touches_eq_read.mpr ⟨here.mentions.1, isLocal, readsFirst⟩
    have access_eq := isFirst.symm.trans isRead
    by_contra notLive
    rw [if_neg notLive] at access_eq
    cases access_eq

end Alloc

end RiscBackend
