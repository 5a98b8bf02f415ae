/-
# Names that cross blocks

The scan for crossing names remembers of each name only the block in which it was
first met, and compares later mentions with it. That is enough: a name is mentioned
in two different blocks exactly when some mention differs from the first one. So the
crossing names do not depend on the order of the blocks.
-/

import Mathlib.Data.List.Induction
import RiscBackend.Alloc.Liveness

namespace RiscBackend.Alloc

open IR (Instruction Block Func Operand)

theorem mem_mentions {i : Instruction} {name : String} :
    name ∈ mentions i ↔
      i.opcode ≠ .other ∧ (i.result = some name ∨ .name name ∈ i.args ∧ name ≠ "") := by
  have isName (arg : Operand) : arg.name? = some name ↔ arg = .name name := by
    cases arg <;> simp [Operand.name?]
  rw [mentions]
  split
  · rename_i unlowered
    simp [unlowered]
  · rename_i lowered
    simp [lowered, isName]

/-- The mentions of names in blocks from an index on, each with the index of its
block. -/
def mentionsFrom : Nat → List Block → List (Nat × String)
  | _, [] => []
  | index, b :: rest => (b.body.flatMap mentions).map (index, ·) ++ mentionsFrom (index + 1) rest

theorem mem_mentionsFrom {index : Nat} {blocks : List Block} {x : Nat × String} :
    x ∈ mentionsFrom index blocks ↔
      ∃ before b after, blocks = before ++ b :: after ∧ x.1 = index + before.length ∧
        x.2 ∈ b.body.flatMap mentions := by
  induction blocks generalizing index with
  | nil => simp [mentionsFrom]
  | cons first rest ih =>
    rw [mentionsFrom, List.mem_append, ih]
    constructor
    · rintro (isFirst | ⟨before, b, after, rfl, index_eq, isMention⟩)
      · obtain ⟨name, isMention, rfl⟩ := List.mem_map.mp isFirst
        exact ⟨[], first, rest, rfl, rfl, isMention⟩
      · refine ⟨first :: before, b, after, rfl, ?_, isMention⟩
        rw [index_eq, List.length_cons]
        omega
    · rintro ⟨before, b, after, blocks_eq, index_eq, isMention⟩
      cases before with
      | nil =>
        obtain ⟨rfl, rfl⟩ := List.cons.inj blocks_eq
        exact .inl (List.mem_map.mpr ⟨x.2, isMention, Prod.ext index_eq.symm rfl⟩)
      | cons b' before =>
        obtain ⟨rfl, rfl⟩ := List.cons.inj blocks_eq
        refine .inr ⟨before, b, after, rfl, ?_, isMention⟩
        rw [index_eq, List.length_cons]
        omega

/-- Two of the mentions of a name are in different blocks. -/
def Crosses (seen : List (Nat × String)) (name : String) : Prop :=
  ∃ x ∈ seen, ∃ y ∈ seen, x.2 = name ∧ y.2 = name ∧ x.1 ≠ y.1

section Crosses

variable {seen : List (Nat × String)} {block : Nat} {name other : String}

theorem crosses_append_of_ne (ne : other ≠ name) :
    Crosses (seen ++ [(block, name)]) other ↔ Crosses seen other := by
  have old {x : Nat × String} (isSeen : x ∈ seen ++ [(block, name)]) (isOther : x.2 = other) :
      x ∈ seen := by
    rcases List.mem_append.mp isSeen with isOld | isNew
    · exact isOld
    · rw [List.mem_singleton.mp isNew] at isOther
      exact absurd isOther.symm ne
  constructor
  · rintro ⟨x, inX, y, inY, hx, hy, differ⟩
    exact ⟨x, old inX hx, y, old inY hy, hx, hy, differ⟩
  · rintro ⟨x, inX, y, inY, rest⟩
    exact ⟨x, List.mem_append_left _ inX, y, List.mem_append_left _ inY, rest⟩

theorem crosses_append_self :
    Crosses (seen ++ [(block, name)]) name ↔
      Crosses seen name ∨ ∃ x ∈ seen, x.2 = name ∧ x.1 ≠ block := by
  constructor
  · rintro ⟨x, inX, y, inY, hx, hy, differ⟩
    rcases List.mem_append.mp inX with oldX | newX
    · rcases List.mem_append.mp inY with oldY | newY
      · exact .inl ⟨x, oldX, y, oldY, hx, hy, differ⟩
      · rw [List.mem_singleton.mp newY] at differ
        exact .inr ⟨x, oldX, hx, differ⟩
    · rw [List.mem_singleton.mp newX] at differ
      rcases List.mem_append.mp inY with oldY | newY
      · exact .inr ⟨y, oldY, hy, differ.symm⟩
      · rw [List.mem_singleton.mp newY] at differ
        exact absurd rfl differ
  · rintro (⟨x, inX, y, inY, rest⟩ | ⟨x, inX, hx, differ⟩)
    · exact ⟨x, List.mem_append_left _ inX, y, List.mem_append_left _ inY, rest⟩
    · exact ⟨x, List.mem_append_left _ inX, (block, name), by simp, hx, rfl, differ⟩

/-- One earlier mention is enough to compare with: a mention that differs from a new one in its
block differs from the earlier one too. -/
theorem crosses_append_iff {old : Nat × String} (isSeen : old ∈ seen) (isName : old.2 = name) :
    Crosses (seen ++ [(block, name)]) name ↔ Crosses seen name ∨ old.1 ≠ block := by
  rw [crosses_append_self]
  constructor
  · rintro (crosses | ⟨x, isSeen', isName', differ⟩)
    · exact .inl crosses
    · by_cases isOld : old.1 = block
      · exact .inl ⟨x, isSeen', old, isSeen, isName', isName, isOld ▸ differ⟩
      · exact .inr isOld
  · exact Or.imp_right fun differ => ⟨old, isSeen, isName, differ⟩

/-- The first mention of a name, with one more mention at the end. -/
theorem first_append :
    ((seen ++ [(block, name)]).find? fun x => x.2 = other).map Prod.fst =
      ((seen.find? fun x => x.2 = other).map Prod.fst).or
        (if name = other then some block else none) := by
  rw [List.find?_append, Option.map_or]
  by_cases same : name = other
  · simp [same]
  · simp [same]

end Crosses

namespace CrossScan

/-- Record mentions in order. -/
def noteAll (scan : CrossScan) (seen : List (Nat × String)) : CrossScan :=
  seen.foldl (fun scan x => scan.note x.1 x.2) scan

theorem noteAll_append (scan : CrossScan) (first second : List (Nat × String)) :
    scan.noteAll (first ++ second) = (scan.noteAll first).noteAll second :=
  List.foldl_append

theorem blocks_eq_noteAll (scan : CrossScan) (index : Nat) (blocks : List Block) :
    scan.blocks index blocks = scan.noteAll (mentionsFrom index blocks) := by
  induction blocks generalizing scan index with
  | nil => rfl
  | cons b rest ih =>
    rw [CrossScan.blocks, ih, mentionsFrom, noteAll_append]
    congr 1
    rw [noteAll, List.foldl_map]

/-- What a scan knows: the first mention of every name, and the names with mentions
in two blocks. -/
structure Knows (scan : CrossScan) (seen : List (Nat × String)) : Prop where
  first : ∀ name, scan.firstBlock.lookup name = (seen.find? fun x => x.2 = name).map Prod.fst
  crossing : ∀ name, name ∈ scan.crossing ↔ Crosses seen name

/-- The first mention of a name keeps the knowledge. -/
theorem Knows.note_first {scan : CrossScan} {seen : List (Nat × String)} (knows : scan.Knows seen)
    {block : Nat} {name : String} (unknown : scan.firstBlock.lookup name = none) :
    Knows { scan with firstBlock := (name, block) :: scan.firstBlock }
      (seen ++ [(block, name)]) := by
  have absent : ∀ x ∈ seen, x.2 ≠ name := by
    have first_eq := knows.first name
    rw [unknown, eq_comm, Option.map_eq_none_iff] at first_eq
    simpa using List.find?_eq_none.mp first_eq
  constructor
  · intro other
    rw [first_append, ← knows.first other, List.lookup_cons]
    by_cases same : name = other
    · subst same
      simp [unknown]
    · have differ : (other == name) = false := by simpa using Ne.symm same
      simp [differ, same]
  · intro other
    rw [knows.crossing]
    by_cases same : other = name
    · subst same
      rw [crosses_append_self]
      exact ⟨.inl, fun crosses => crosses.elim id fun ⟨x, isSeen, isName, _⟩ =>
        absurd isName (absent x isSeen)⟩
    · exact (crosses_append_of_ne same).symm

/-- One more mention keeps the knowledge. A mention in a block other than the first
makes the name cross; one in the first block adds nothing new. -/
theorem Knows.note {scan : CrossScan} {seen : List (Nat × String)} (knows : scan.Knows seen)
    (block : Nat) (name : String) : (scan.note block name).Knows (seen ++ [(block, name)]) := by
  rw [CrossScan.note]
  split
  · next unknown => exact knows.note_first unknown
  · next first known =>
    have first_eq := knows.first name
    rw [known, eq_comm, Option.map_eq_some_iff] at first_eq
    obtain ⟨old, isFirst, rfl⟩ := first_eq
    have isName : old.2 = name := by simpa using List.find?_some isFirst
    have isSeen : old ∈ seen := List.mem_of_find?_eq_some isFirst
    have firsts : ∀ other, scan.firstBlock.lookup other =
        ((seen ++ [(block, name)]).find? fun x => x.2 = other).map Prod.fst := by
      intro other
      rw [first_append, ← knows.first other]
      by_cases same : name = other
      · rw [← same, known, Option.some_or]
      · rw [if_neg same, Option.or_none]
    split
    · next nothingNew =>
      refine ⟨firsts, fun other => ?_⟩
      rw [knows.crossing]
      by_cases same : other = name
      · subst same
        have listed : old.1 ≠ block → Crosses seen other := by
          simpa [or_iff_not_imp_left, knows.crossing] using nothingNew
        rw [crosses_append_iff isSeen isName]
        exact ⟨.inl, fun crosses => crosses.elim id listed⟩
      · exact (crosses_append_of_ne same).symm
    · next isNew =>
      have differ : old.1 ≠ block := by
        intro same
        simp [same] at isNew
      refine ⟨firsts, fun other => ?_⟩
      rw [List.mem_append, List.mem_singleton, knows.crossing]
      by_cases same : other = name
      · subst same
        exact ⟨fun _ => (crosses_append_iff isSeen isName).mpr (.inr differ), fun _ => .inr rfl⟩
      · rw [crosses_append_of_ne same, or_iff_left same]

theorem knows_noteAll (seen : List (Nat × String)) :
    (({} : CrossScan).noteAll seen).Knows seen := by
  induction seen using List.reverseRecOn with
  | nil => exact ⟨fun _ => rfl, fun _ => by simp [noteAll, Crosses]⟩
  | append_singleton earlier x ih =>
    rw [noteAll_append]
    exact ih.note x.1 x.2

end CrossScan

/-- The crossing names are those that two different blocks mention. -/
theorem mem_crossing_iff {f : Func} {name : String} :
    name ∈ crossing f ↔ Crosses (mentionsFrom 0 f.blocks) name := by
  rw [crossing, CrossScan.blocks_eq_noteAll]
  exact (CrossScan.knows_noteAll _).crossing name

/-- A name that a block mentions and an earlier block has mentioned crosses. -/
theorem mem_crossing_of_mentions {f : Func} {before after : List Block} {b : Block}
    {name : String} (blocks_eq : f.blocks = before ++ b :: after)
    (earlier : name ∈ (before.flatMap Block.body).flatMap mentions)
    (here : name ∈ b.body.flatMap mentions) : name ∈ crossing f := by
  rw [List.flatMap_assoc] at earlier
  obtain ⟨b', isEarlier, there⟩ := List.mem_flatMap.mp earlier
  obtain ⟨first, second, rfl⟩ := List.append_of_mem isEarlier
  refine mem_crossing_iff.mpr ⟨(first.length, name), ?_,
    ((first ++ b' :: second).length, name), ?_, rfl, rfl, ?_⟩
  · refine mem_mentionsFrom.mpr ⟨first, b', second ++ b :: after, ?_, by simp, there⟩
    rw [blocks_eq]
    simp
  · exact mem_mentionsFrom.mpr ⟨_, b, after, blocks_eq, by simp, here⟩
  · simp

/-- A block mentions a name: an instruction that is lowered has it as its result or among its
operands. The empty name is no operand. -/
def MentionsName (b : Block) (name : String) : Prop :=
  ∃ i ∈ b.body, i.opcode ≠ .other ∧ (i.result = some name ∨ .name name ∈ i.args ∧ name ≠ "")

/-- Two blocks at different places mention a name. -/
def IsShared (blocks : List Block) (name : String) : Prop :=
  ∃ j k : Nat, ∃ b c, j ≠ k ∧ blocks[j]? = some b ∧ blocks[k]? = some c ∧
    MentionsName b name ∧ MentionsName c name

theorem mem_mentionsFrom_zero {blocks : List Block} {j : Nat} {name : String} :
    (j, name) ∈ mentionsFrom 0 blocks ↔ ∃ b, blocks[j]? = some b ∧ MentionsName b name := by
  have inBlock (b : Block) : name ∈ b.body.flatMap mentions ↔ MentionsName b name := by
    simp only [List.mem_flatMap, mem_mentions, MentionsName]
  rw [mem_mentionsFrom]
  constructor
  · rintro ⟨before, b, after, rfl, rfl, isMention⟩
    exact ⟨b, by simp, (inBlock b).mp isMention⟩
  · rintro ⟨b, isThere, isMention⟩
    obtain ⟨lt, rfl⟩ := List.getElem?_eq_some_iff.mp isThere
    refine ⟨blocks.take j, blocks[j], blocks.drop (j + 1), ?_, ?_, (inBlock _).mpr isMention⟩
    · rw [← List.drop_eq_getElem_cons lt, List.take_append_drop]
    · rw [List.length_take_of_le (Nat.le_of_lt lt), Nat.zero_add]

theorem mem_crossing_iff_isShared {f : Func} {name : String} :
    name ∈ crossing f ↔ IsShared f.blocks name := by
  rw [mem_crossing_iff]
  constructor
  · rintro ⟨⟨j, _⟩, isFirst, ⟨k, _⟩, isSecond, rfl, rfl, differ⟩
    obtain ⟨b, atJ, inB⟩ := mem_mentionsFrom_zero.mp isFirst
    obtain ⟨c, atK, inC⟩ := mem_mentionsFrom_zero.mp isSecond
    exact ⟨j, k, b, c, differ, atJ, atK, inB, inC⟩
  · rintro ⟨j, k, b, c, differ, atJ, atK, inB, inC⟩
    refine ⟨(j, name), ?_, (k, name), ?_, rfl, rfl, differ⟩
    · exact mem_mentionsFrom_zero.mpr ⟨b, atJ, inB⟩
    · exact mem_mentionsFrom_zero.mpr ⟨c, atK, inC⟩

/-- That no two of the blocks mention a name can be said without their places. -/
theorem not_isShared_iff {blocks : List Block} {name : String} :
    ¬ IsShared blocks name ↔
      blocks.Pairwise fun b c => ¬ (MentionsName b name ∧ MentionsName c name) := by
  rw [List.pairwise_iff_getElem]
  constructor
  · intro notShared j k ltJ ltK lt both
    exact notShared ⟨j, k, _, _, Nat.ne_of_lt lt, List.getElem?_eq_getElem ltJ,
      List.getElem?_eq_getElem ltK, both⟩
  · rintro apart ⟨j, k, b, c, differ, atJ, atK, inB, inC⟩
    obtain ⟨ltJ, rfl⟩ := List.getElem?_eq_some_iff.mp atJ
    obtain ⟨ltK, rfl⟩ := List.getElem?_eq_some_iff.mp atK
    rcases Nat.lt_or_gt_of_ne differ with lt | gt
    · exact apart j k ltJ ltK lt ⟨inB, inC⟩
    · exact apart k j ltK ltJ gt ⟨inC, inB⟩

theorem isShared_perm {blocks others : List Block} (permuted : others.Perm blocks)
    (name : String) : IsShared others name ↔ IsShared blocks name := by
  rw [← not_iff_not, not_isShared_iff, not_isShared_iff]
  apply permuted.pairwise_iff
  intro b c apart both
  exact apart both.symm

namespace CrossScan

theorem nodup_note {scan : CrossScan} (nodup : scan.crossing.Nodup) (block : Nat)
    (name : String) : (scan.note block name).crossing.Nodup := by
  rw [CrossScan.note]
  split
  · exact nodup
  · split
    · exact nodup
    · rename_i isNew
      have absent : name ∉ scan.crossing := by
        intro isMember
        simp [isMember] at isNew
      rw [List.nodup_append]
      refine ⟨nodup, by simp, ?_⟩
      rintro _ isOld _ isName rfl
      exact absent (List.mem_singleton.mp isName ▸ isOld)

theorem nodup_noteAll {scan : CrossScan} (nodup : scan.crossing.Nodup)
    (seen : List (Nat × String)) : (scan.noteAll seen).crossing.Nodup := by
  induction seen generalizing scan with
  | nil => exact nodup
  | cons x later ih => exact ih (nodup_note nodup x.1 x.2)

end CrossScan

theorem nodup_crossing (f : Func) : (crossing f).Nodup := by
  rw [crossing, CrossScan.blocks_eq_noteAll]
  exact CrossScan.nodup_noteAll List.nodup_nil _

/-- **A name crosses exactly when two different blocks mention it.** It is listed once, and in
whatever order the blocks are, the same names cross. -/
theorem crossing_lists_shared_names (f : Func) :
    (∀ name, name ∈ crossing f ↔ IsShared f.blocks name) ∧ (crossing f).Nodup ∧
      ∀ g : Func, g.blocks.Perm f.blocks → (crossing g).Perm (crossing f) := by
  refine ⟨fun _ => mem_crossing_iff_isShared, nodup_crossing f, ?_⟩
  intro g permuted
  rw [List.perm_ext_iff_of_nodup (nodup_crossing g) (nodup_crossing f)]
  intro name
  rw [mem_crossing_iff_isShared, mem_crossing_iff_isShared]
  exact isShared_perm permuted name

/-- A function that returns from its second block what it stores in the first. -/
def relay : Func :=
  { name := "main"
    blocks := [
      { label := "entry"
        body := [.alloca "a", .store (.const 1) "a",
          .binary (.arith .add) "t" (.const 1) (.const 2)] },
      { label := "exit", body := [.load "v" "a", .ret (.name "v")] }] }

theorem crossing_lists_shared_names_relay :
    crossing relay = ["a"] ∧ (crossing { relay with blocks := relay.blocks.reverse }).Perm ["a"] :=
  ⟨by decide, (crossing_lists_shared_names relay).2.2 _ (List.reverse_perm _)⟩

end RiscBackend.Alloc
