/-
# What the analysis of a block finds

The walk over a block meets occurrences of locals, each at a position and each a
read or a write. The table it builds is a function of this sequence: the interval of
a name begins at its first occurrence, ends at its last, and is live-in when the
first occurrence reads. This module proves that law and then reads it back through
the instructions, so that later arguments speak about instructions and positions and
never about the walk.
-/

import Mathlib.Data.List.Induction
import Mathlib.Data.List.Nodup
import RiscBackend.Alloc.Liveness

namespace RiscBackend.Alloc

open IR (Instruction Block Operand)

/-- An occurrence of a local in a block. -/
structure Occurrence where
  position : Int
  name : String
  access : Access
  deriving DecidableEq

/-- Whether a name means a local, given the names declared so far in the block. -/
def isLocalAmong (isGlobal : String → Bool) (declared : List String) (name : String) : Bool :=
  declared.contains name || !isGlobal name

/-- The names that instructions declare, on top of those declared before. -/
def declaredBy (declared : List String) (body : List Instruction) : List String :=
  body.foldl (fun declared i => declares i ++ declared) declared

/-- The occurrences of locals in instructions from a position on. -/
def occurrencesFrom (isGlobal : String → Bool) :
    Int → List String → List Instruction → List Occurrence
  | _, _, [] => []
  | position, declared, i :: rest =>
    (touches (isLocalAmong isGlobal (declares i ++ declared)) i).map
        (fun (name, access) => { position, name, access }) ++
      occurrencesFrom isGlobal (position + 1) (declares i ++ declared) rest

namespace Table

/-- Record occurrences in order. -/
def record (t : Table) (occurrences : List Occurrence) : Table :=
  occurrences.foldl (fun t o => t.touch o.position o.name o.access) t

theorem record_append (t : Table) (first second : List Occurrence) :
    t.record (first ++ second) = (t.record first).record second :=
  List.foldl_append

/-- Renaming no interval, a change of the intervals commutes with looking one up. -/
theorem lookup_map (t : Table) (change : Interval → Interval) (name : String)
    (keeps : ∀ iv, (change iv).name = iv.name) :
    lookup { intervals := t.intervals.map change } name = (t.lookup name).map change := by
  have same : (fun iv : Interval => decide (iv.name = name)) ∘ change =
      fun iv => decide (iv.name = name) := by
    funext iv
    simp [keeps]
  rw [lookup, List.find?_map, same, lookup]

theorem name_of_lookup {t : Table} {name : String} {iv : Interval}
    (found : t.lookup name = some iv) : iv.name = name := by
  simpa using List.find?_some found

theorem mem_of_lookup {t : Table} {name : String} {iv : Interval}
    (found : t.lookup name = some iv) : iv ∈ t.intervals :=
  List.mem_of_find?_eq_some found

/-- In a table with one interval per name, an interval is found under its name. -/
theorem lookup_name_of_mem {t : Table} {iv : Interval}
    (nodup : (t.intervals.map Interval.name).Nodup) (isMember : iv ∈ t.intervals) :
    t.lookup iv.name = some iv := by
  obtain ⟨found, isFound⟩ : ∃ found, t.lookup iv.name = some found := by
    rw [← Option.isSome_iff_exists, lookup, List.find?_isSome]
    exact ⟨iv, isMember, by simp⟩
  have same : found = iv :=
    List.inj_on_of_nodup_map nodup (mem_of_lookup isFound) isMember (name_of_lookup isFound)
  rw [isFound, same]

theorem lookup_eq_some_iff {t : Table} (nodup : (t.intervals.map Interval.name).Nodup)
    {name : String} {iv : Interval} :
    t.lookup name = some iv ↔ iv ∈ t.intervals ∧ iv.name = name := by
  constructor
  · exact fun found => ⟨mem_of_lookup found, name_of_lookup found⟩
  · rintro ⟨isMember, rfl⟩
    exact lookup_name_of_mem nodup isMember

end Table

theorem Interval.extend_eq (iv : Interval) (position : Int) :
    iv.extend position = { iv with stop := max iv.stop position } := by
  rw [Interval.extend]
  split
  · rw [Int.max_eq_right (by omega)]
  · rw [Int.max_eq_left (by omega)]

/-- The interval that an occurrence opens. -/
def Occurrence.open (o : Occurrence) : Interval :=
  { name := o.name, start := o.position, stop := o.position, liveIn := o.access = .read }

/-- An occurrence opens the interval of its name or stretches it, and leaves the
other intervals alone. -/
theorem Table.lookup_touch (t : Table) (o : Occurrence) (name : String) :
    (t.touch o.position o.name o.access).lookup name =
      if name = o.name then
        some (((t.lookup o.name).map fun iv => iv.extend o.position).getD o.open)
      else t.lookup name := by
  rw [Table.touch]
  split
  · rename_i known
    rw [Table.lookup_map _ _ _ (fun iv => by split <;> simp [Interval.extend_eq])]
    obtain ⟨iv, found⟩ : ∃ iv, t.lookup o.name = some iv := by
      rw [← Option.isSome_iff_exists, Table.lookup, List.find?_isSome]
      simpa using known
    by_cases same : name = o.name
    · subst same
      simp [found, Table.name_of_lookup found]
    · rw [if_neg same]
      cases other : t.lookup name with
      | none => rfl
      | some jv =>
        have ne : jv.name ≠ o.name := fun h => same ((Table.name_of_lookup other).symm.trans h)
        simp [ne]
  · rename_i unknown
    have missing : t.lookup o.name = none := by
      rw [Table.lookup, List.find?_eq_none]
      simpa using unknown
    rw [Table.lookup, List.find?_append]
    by_cases same : name = o.name
    · subst same
      rw [Table.lookup] at missing
      simp [missing, Table.lookup, Occurrence.open]
    · simp [same, Table.lookup, Ne.symm same]

/-- The analysis records the occurrences in order. -/
theorem analyzeFrom_eq_record (isGlobal : String → Bool) (position : Int)
    (declared : List String) (t : Table) (body : List Instruction) :
    analyzeFrom isGlobal position declared t body =
      t.record (occurrencesFrom isGlobal position declared body) := by
  induction body generalizing position declared t with
  | nil => rfl
  | cons i rest ih =>
    rw [analyzeFrom, ih, occurrencesFrom, Table.record_append]
    congr 1
    rw [Table.record, List.foldl_map]
    rfl

theorem analyze_eq_record (block : Block) (isGlobal : String → Bool) :
    analyze block isGlobal = ({} : Table).record (occurrencesFrom isGlobal 0 [] block.body) :=
  analyzeFrom_eq_record isGlobal 0 [] {} block.body

/-- The interval of a name over a sequence of occurrences: it opens at the first one
of the name and is stretched by the others. -/
def extent (name : String) (occurrences : List Occurrence) : Option Interval :=
  match occurrences.filter fun o => o.name = name with
  | [] => none
  | first :: rest => some (rest.foldl (fun iv o => iv.extend o.position) first.open)

/-- **The table is the extents.** -/
theorem lookup_record (name : String) (occurrences : List Occurrence) :
    (({} : Table).record occurrences).lookup name = extent name occurrences := by
  induction occurrences using List.reverseRecOn with
  | nil => rfl
  | append_singleton earlier o ih =>
    rw [Table.record_append]
    change ((({} : Table).record earlier).touch o.position o.name o.access).lookup name = _
    rw [Table.lookup_touch]
    by_cases same : name = o.name
    · subst same
      rw [if_pos rfl, ih, extent, extent, List.filter_append]
      cases earlier.filter fun p => p.name = o.name with
      | nil => simp
      | cons first rest => simp [List.foldl_append]
    · rw [if_neg same, ih, extent, extent, List.filter_append]
      simp [Ne.symm same]

/-- Stretching an interval changes its end only, and takes it up to the furthest of
the positions. -/
theorem foldl_extend (iv : Interval) (occurrences : List Occurrence) :
    ∃ stop, occurrences.foldl (fun iv o => iv.extend o.position) iv = { iv with stop } ∧
      iv.stop ≤ stop ∧ (∀ o ∈ occurrences, o.position ≤ stop) ∧
      (stop = iv.stop ∨ ∃ o ∈ occurrences, stop = o.position) := by
  induction occurrences generalizing iv with
  | nil => exact ⟨iv.stop, rfl, Int.le_refl _, by simp, .inl rfl⟩
  | cons o rest ih =>
    obtain ⟨stop, eq, le, bound, attained⟩ := ih (iv.extend o.position)
    rw [Interval.extend_eq] at eq le attained
    dsimp only at le attained
    refine ⟨stop, ?_, by omega, ?_, ?_⟩
    · rw [List.foldl_cons, Interval.extend_eq, eq]
    · intro x isMember
      rcases List.mem_cons.mp isMember with rfl | isMember
      · omega
      · exact bound x isMember
    · rcases attained with same | ⟨x, isMember, same⟩
      · by_cases shorter : iv.stop < o.position
        · exact .inr ⟨o, List.mem_cons_self, by omega⟩
        · exact .inl (by omega)
      · exact .inr ⟨x, List.mem_cons_of_mem _ isMember, same⟩

/-- An extent opens at the first occurrence of its name, which decides whether it is
live-in, and reaches to the last. -/
theorem extent_eq_some {name : String} {occurrences : List Occurrence} {iv : Interval}
    (found : extent name occurrences = some iv) :
    ∃ o stop, occurrences.find? (fun o => o.name = name) = some o ∧
      iv = { o.open with stop } ∧ o.position ≤ stop ∧
      (∀ x ∈ occurrences, x.name = name → x.position ≤ stop) ∧
      ∃ x ∈ occurrences, x.name = name ∧ stop = x.position := by
  rw [extent] at found
  split at found
  · simp at found
  · rename_i first rest filtered
    have members (x : Occurrence) : x ∈ first :: rest ↔ x ∈ occurrences ∧ x.name = name := by
      rw [← filtered, List.mem_filter]
      simp
    obtain ⟨stop, eq, le, bound, attained⟩ := foldl_extend first.open rest
    refine ⟨first, stop, ?_, ?_, le, ?_, ?_⟩
    · rw [← List.head?_filter, filtered]
      rfl
    · rw [← eq]
      exact (Option.some.inj found).symm
    · intro x isMember same
      rcases List.mem_cons.mp ((members x).mpr ⟨isMember, same⟩) with rfl | isRest
      · exact le
      · exact bound x isRest
    · rcases attained with same | ⟨x, isRest, same⟩
      · exact ⟨first, ((members first).mp List.mem_cons_self).1,
          ((members first).mp List.mem_cons_self).2, same⟩
      · have isMember := (members x).mp (List.mem_cons_of_mem _ isRest)
        exact ⟨x, isMember.1, isMember.2, same⟩

/-- Every name that occurs has an extent. -/
theorem extent_isSome_of_mem {occurrences : List Occurrence} {o : Occurrence}
    (isMember : o ∈ occurrences) : ∃ iv, extent o.name occurrences = some iv := by
  rw [extent]
  split
  · rename_i none
    rw [List.filter_eq_nil_iff] at none
    exact absurd (none o isMember) (by simp)
  · exact ⟨_, rfl⟩

theorem declaredBy_append (declared : List String) (first second : List Instruction) :
    declaredBy declared (first ++ second) = declaredBy (declaredBy declared first) second :=
  List.foldl_append

/-- An occurrence stands in an instruction, at whose position its name is a local. -/
theorem mem_occurrencesFrom {isGlobal : String → Bool} {position : Int}
    {declared : List String} {body : List Instruction} {o : Occurrence} :
    o ∈ occurrencesFrom isGlobal position declared body ↔
      ∃ done i rest, body = done ++ i :: rest ∧ o.position = position + done.length ∧
        (o.name, o.access) ∈
          touches (isLocalAmong isGlobal (declaredBy declared (done ++ [i]))) i := by
  induction body generalizing position declared with
  | nil => simp [occurrencesFrom]
  | cons first rest ih =>
    rw [occurrencesFrom, List.mem_append, ih]
    constructor
    · rintro (isFirst | ⟨done, i, later, rfl, position_eq, isTouch⟩)
      · obtain ⟨⟨name, access⟩, isTouch, rfl⟩ := List.mem_map.mp isFirst
        exact ⟨[], first, rest, rfl, by simp, isTouch⟩
      · refine ⟨first :: done, i, later, rfl, ?_, isTouch⟩
        rw [position_eq, List.length_cons]
        omega
    · rintro ⟨done, i, later, body_eq, position_eq, isTouch⟩
      cases done with
      | nil =>
        obtain ⟨rfl, rfl⟩ := List.cons.inj body_eq
        refine .inl (List.mem_map.mpr ⟨_, isTouch, ?_⟩)
        rw [List.length_nil, Int.natCast_zero, Int.add_zero] at position_eq
        rw [← position_eq]
      | cons j done =>
        obtain ⟨rfl, rfl⟩ := List.cons.inj body_eq
        refine .inr ⟨done, i, later, rfl, ?_, isTouch⟩
        rw [position_eq, List.length_cons]
        omega

/-- The first occurrence of a name is the first one in the first instruction in
which the name occurs. -/
theorem find?_occurrencesFrom {isGlobal : String → Bool} {position : Int}
    {declared : List String} {body : List Instruction} {name : String} {o : Occurrence}
    (found : (occurrencesFrom isGlobal position declared body).find? (fun o => o.name = name) =
      some o) :
    ∃ done i rest, body = done ++ i :: rest ∧ o.position = position + done.length ∧
      (touches (isLocalAmong isGlobal (declaredBy declared (done ++ [i]))) i).find?
        (fun touch => touch.1 = name) = some (name, o.access) ∧
      ∀ x ∈ occurrencesFrom isGlobal position declared body, x.name = name →
        o.position ≤ x.position := by
  induction body generalizing position declared with
  | nil => simp [occurrencesFrom] at found
  | cons first later ih =>
    rw [occurrencesFrom, List.find?_append, List.find?_map] at found
    have laterPosition : ∀ x ∈ occurrencesFrom isGlobal (position + 1)
        (declares first ++ declared) later, position + 1 ≤ x.position := by
      intro x isLater
      obtain ⟨done, i, rest, -, position_eq, -⟩ := mem_occurrencesFrom.mp isLater
      omega
    cases inFirst : (touches (isLocalAmong isGlobal (declares first ++ declared)) first).find?
        (fun touch => touch.1 = name) with
    | some touch =>
      obtain ⟨name', access⟩ := touch
      obtain rfl : name' = name := by simpa using List.find?_some inFirst
      have isFirst : (fun o : Occurrence => decide (o.name = name')) ∘
          (fun x : String × Access => (⟨position, x.1, x.2⟩ : Occurrence)) =
          fun touch => decide (touch.1 = name') := rfl
      rw [isFirst, inFirst] at found
      obtain rfl : (⟨position, name', access⟩ : Occurrence) = o := by simpa using found
      refine ⟨[], first, later, rfl, by simp, inFirst, ?_⟩
      intro x isMember same
      rw [occurrencesFrom, List.mem_append] at isMember
      rcases isMember with isFirst | isLater
      · obtain ⟨touch, -, rfl⟩ := List.mem_map.mp isFirst
        exact Int.le_refl _
      · exact Int.le_trans (Int.le_add_one (Int.le_refl _)) (laterPosition x isLater)
    | none =>
      have isNone : (fun o : Occurrence => decide (o.name = name)) ∘
          (fun x : String × Access => (⟨position, x.1, x.2⟩ : Occurrence)) =
          fun touch => decide (touch.1 = name) := rfl
      rw [isNone, inFirst, Option.map_none, Option.none_or] at found
      obtain ⟨done, i, rest, rfl, position_eq, isTouch, least⟩ := ih found
      refine ⟨first :: done, i, rest, rfl, ?_, isTouch, ?_⟩
      · rw [position_eq, List.length_cons]
        omega
      · intro x isMember same
        rw [occurrencesFrom, List.mem_append] at isMember
        rcases isMember with isFirst | isLater
        · obtain ⟨touch, isTouch', rfl⟩ := List.mem_map.mp isFirst
          exact absurd same (by simpa using List.find?_eq_none.mp inFirst touch isTouch')
        · exact least x isLater same

/-- A table that is recorded has one interval per name. -/
theorem nodup_names_record (occurrences : List Occurrence) :
    ((({} : Table).record occurrences).intervals.map Interval.name).Nodup := by
  induction occurrences using List.reverseRecOn with
  | nil => exact List.nodup_nil
  | append_singleton earlier o ih =>
    rw [Table.record_append]
    change (((({} : Table).record earlier).touch o.position o.name o.access).intervals.map
      Interval.name).Nodup
    rw [Table.touch]
    split
    · have names_eq : Interval.name ∘ (fun iv : Interval =>
          if iv.name = o.name then iv.extend o.position else iv) = Interval.name := by
        funext iv
        dsimp only [Function.comp_apply]
        split <;> simp [Interval.extend_eq]
      rw [List.map_map, names_eq]
      exact ih
    · rename_i unknown
      rw [List.map_append, List.nodup_append]
      refine ⟨ih, by simp, ?_⟩
      simp only [List.any_eq_true, decide_eq_true_eq, not_exists, not_and] at unknown
      intro name isOld name' isNew same
      obtain ⟨iv, inTable, rfl⟩ := List.mem_map.mp isOld
      simp only [List.map_cons, List.map_nil, List.mem_singleton] at isNew
      exact unknown iv inTable (same.trans isNew)

theorem nodup_names_analyze (block : Block) (isGlobal : String → Bool) :
    ((analyze block isGlobal).intervals.map Interval.name).Nodup := by
  rw [analyze_eq_record]
  exact nodup_names_record _

/-- The occurrences in an instruction that stands after others in a block. -/
def touchesAfter (isGlobal : String → Bool) (done : List Instruction) (i : Instruction) :
    List (String × Access) :=
  touches (isLocalAmong isGlobal (declaredBy [] (done ++ [i]))) i

/-- The interval of a name opens at an instruction in which it occurs, and the first
occurrence there decides whether it is live-in. -/
theorem analyze_opens {block : Block} {isGlobal : String → Bool} {iv : Interval}
    (isMember : iv ∈ (analyze block isGlobal).intervals) :
    iv.spillAt = never ∧ ∃ done i rest, block.body = done ++ i :: rest ∧
      iv.start = done.length ∧
      (touchesAfter isGlobal done i).find? (fun touch => touch.1 = iv.name) =
        some (iv.name, if iv.liveIn then .read else .write) := by
  have found := Table.lookup_name_of_mem (nodup_names_analyze block isGlobal) isMember
  rw [analyze_eq_record, lookup_record] at found
  obtain ⟨o, stop, isFirst, iv_eq, -⟩ := extent_eq_some found
  obtain ⟨done, i, rest, body_eq, position_eq, isTouch, -⟩ := find?_occurrencesFrom isFirst
  have access_eq : o.access = if iv.liveIn then .read else .write := by
    rw [iv_eq, Occurrence.open]
    cases o.access <;> rfl
  refine ⟨by rw [iv_eq]; rfl, done, i, rest, body_eq, ?_, ?_⟩
  · rw [iv_eq]
    change o.position = _
    omega
  · rw [← access_eq]
    exact isTouch

/-- The interval of a name covers every instruction in which it occurs. -/
theorem analyze_covers {block : Block} {isGlobal : String → Bool} {done rest : List Instruction}
    {i : Instruction} (body_eq : block.body = done ++ i :: rest) {touch : String × Access}
    (isTouch : touch ∈ touchesAfter isGlobal done i) :
    ∃ iv ∈ (analyze block isGlobal).intervals, iv.name = touch.1 ∧ iv.start ≤ done.length ∧
      done.length ≤ iv.stop := by
  let o : Occurrence := { position := done.length, name := touch.1, access := touch.2 }
  have occurs : o ∈ occurrencesFrom isGlobal 0 [] block.body :=
    mem_occurrencesFrom.mpr ⟨done, i, rest, body_eq, by simp [o], isTouch⟩
  obtain ⟨iv, isExtent⟩ := extent_isSome_of_mem occurs
  obtain ⟨first, stop, isFirst, iv_eq, -, bound, -⟩ := extent_eq_some isExtent
  obtain ⟨-, -, -, -, -, -, least⟩ := find?_occurrencesFrom isFirst
  rw [← lookup_record, ← analyze_eq_record] at isExtent
  refine ⟨iv, Table.mem_of_lookup isExtent, Table.name_of_lookup isExtent, ?_, ?_⟩
  · rw [iv_eq]
    exact least o occurs rfl
  · rw [iv_eq]
    exact bound o occurs rfl

/-- An interval does not end before it starts, since it covers the occurrence that
opens it. -/
theorem start_le_stop_of_mem_analyze {block : Block} {isGlobal : String → Bool} {iv : Interval}
    (isMember : iv ∈ (analyze block isGlobal).intervals) : iv.start ≤ iv.stop := by
  obtain ⟨-, done, i, rest, body_eq, start_eq, isFirst⟩ := analyze_opens isMember
  obtain ⟨jv, isMember', same, -, le_stop⟩ :=
    analyze_covers body_eq (List.mem_of_find?_eq_some isFirst)
  obtain rfl : jv = iv :=
    List.inj_on_of_nodup_map (nodup_names_analyze block isGlobal) isMember' isMember same
  rw [start_eq]
  exact le_stop

end RiscBackend.Alloc
