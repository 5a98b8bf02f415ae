/-
# Globals and slots

A frame hands out slots downwards and never the same one twice, so two names never
share a slot. The offsets are 64-bit words; as they do not get negative, their
arithmetic does not wrap.

The environment of a module with distinct globals holds these globals, in order.
-/

import Mathlib.Data.List.Nodup
import RiscBackend.Lower.Env

namespace RiscBackend.Lower

namespace Frame

/-- What holds of a frame that was only ever asked for slots. -/
structure WellFormed (f : Frame) : Prop where
  next_nonneg : 0 ≤ f.next.toInt
  next_le : ∀ name offset, f.offset? name = some offset → f.next.toInt ≤ offset.toInt
  injective : ∀ first second offset, f.offset? first = some offset →
    f.offset? second = some offset → first = second

theorem wellFormed_ofSize {size : Int64} (nonneg : 0 ≤ size.toInt) :
    (Frame.ofSize size).WellFormed where
  next_nonneg := nonneg
  next_le := by simp [offset?, ofSize]
  injective := by simp [offset?, ofSize]

theorem lookup_setOffset (name : String) (offset : Int64) (slots : List (String × Int64))
    (other : String) :
    (setOffset name offset slots).lookup other =
      if other = name then some offset else slots.lookup other := by
  induction slots with
  | nil =>
    by_cases same : other = name
    · simp [setOffset, same]
    · have differ : (other == name) = false := by simpa using same
      simp [setOffset, List.lookup_cons, same, differ]
  | cons slot rest ih =>
    obtain ⟨held, old⟩ := slot
    rw [setOffset]
    by_cases isHeld : held = name
    · subst isHeld
      rw [if_pos rfl]
      by_cases same : other = held
      · simp [same]
      · have differ : (other == held) = false := by simpa using same
        simp [List.lookup_cons, same, differ]
    · rw [if_neg isHeld, List.lookup_cons, List.lookup_cons, ih]
      by_cases same : other = held
      · subst same
        simp [isHeld]
      · have differ : (other == held) = false := by simpa using same
        simp [differ]

theorem keys_setOffset (name : String) (offset : Int64) (slots : List (String × Int64)) :
    (setOffset name offset slots).map Prod.fst =
      if name ∈ slots.map Prod.fst then slots.map Prod.fst
      else slots.map Prod.fst ++ [name] := by
  induction slots with
  | nil => rfl
  | cons slot rest ih =>
    obtain ⟨other, old⟩ := slot
    rw [setOffset]
    by_cases same : other = name
    · simp [same]
    · have differ : ¬ name = other := fun same' => same same'.symm
      rw [if_neg same, List.map_cons, List.map_cons, ih]
      by_cases inRest : name ∈ rest.map Prod.fst
      · rw [if_pos inRest, if_pos (List.mem_cons_of_mem _ inRest)]
      · rw [if_neg inRest, if_neg (by simpa [differ] using inRest)]
        rfl

theorem offset?_eq_none_iff (f : Frame) (name : String) :
    f.offset? name = none ↔ name ∉ f.slots.map Prod.fst := by
  rw [offset?, List.lookup_eq_none_iff]
  constructor
  · intro differ isKey
    obtain ⟨slot, isSlot, rfl⟩ := List.mem_map.mp isKey
    simpa using differ slot isSlot
  · intro notKey slot isSlot
    rw [bne_iff_ne]
    rintro rfl
    exact notKey (List.mem_map_of_mem isSlot)

/-- While there is something left, the offset of the next slot does not wrap. -/
theorem toInt_sub_slotSize_of_nonneg {next : Int64} (nonneg : 0 ≤ next.toInt) :
    (next - slotSize).toInt = next.toInt - 4 := by
  have upper := next.toInt_lt
  have size : slotSize.toInt = 4 := rfl
  rw [Int64.toInt_sub, size]
  exact Int.bmod_eq_of_le (by omega) (by omega)

/-- A slot that is given out lies below the slots given out before. -/
theorem WellFormed.toInt_sub_slotSize {f : Frame} (wf : f.WellFormed) :
    (f.next - slotSize).toInt = f.next.toInt - 4 :=
  toInt_sub_slotSize_of_nonneg wf.next_nonneg

/-- The slot of a name stays the same, a new one is nobody else's, and the slots of
other names are left alone. -/
theorem WellFormed.slotFor {f f' : Frame} {name : String} {offset : Int64} (wf : f.WellFormed)
    (given : f.slotFor name = .ok (offset, f')) :
    f'.WellFormed ∧ f'.offset? name = some offset ∧
      ∀ other, other ≠ name → f'.offset? other = f.offset? other := by
  rw [Frame.slotFor] at given
  split at given
  · rename_i known
    cases given
    exact ⟨wf, known, fun _ _ => rfl⟩
  · rename_i unknown
    rw [Frame.allocate] at given
    split at given
    · cases given
    · rename_i room
      cases given
      have new (other : String) : Frame.offset?
          { f with next := f.next - slotSize, slots := setOffset name (f.next - slotSize) f.slots }
            other = if other = name then some (f.next - slotSize) else f.offset? other :=
        lookup_setOffset name _ f.slots other
      have below := wf.toInt_sub_slotSize
      refine ⟨⟨?_, ?_, ?_⟩, ?_, ?_⟩
      · simpa [Int64.lt_iff_toInt_lt] using room
      · intro other offset held
        rw [new] at held
        split at held
        · cases held
          exact Int.le_refl _
        · have bound := wf.next_le other offset held
          dsimp only
          omega
      · intro first second offset inFirst inSecond
        rw [new] at inFirst inSecond
        have fresh {held : String} (old : f.offset? held = some (f.next - slotSize)) : False := by
          have bound := wf.next_le held _ old
          omega
        split at inFirst <;> split at inSecond
        · simp_all
        · cases inFirst
          exact (fresh inSecond).elim
        · cases inSecond
          exact (fresh inFirst).elim
        · exact wf.injective first second offset inFirst inSecond
      · rw [new, if_pos rfl]
      · intro other ne
        rw [new, if_neg ne]

end Frame

/-- Asking for a slot changes the frame of an environment only. -/
theorem Env.slotFor_eq_ok {env env' : Env} {name : String} {offset : Int64}
    (given : env.slotFor name = .ok (offset, env')) :
    ∃ frame, env.frame.slotFor name = .ok (offset, frame) ∧ env' = { env with frame } := by
  rw [Env.slotFor] at given
  cases result : env.frame.slotFor name with
  | error fault =>
    rw [result] at given
    cases given
  | ok slot =>
    rw [result] at given
    cases given
    exact ⟨slot.2, rfl, rfl⟩

open IR (Global)

/-- Defining new and distinct globals appends them. -/
theorem foldl_define_eq (globals : List Global) :
    ∀ env : Env, (globals.map Global.name).Nodup →
      (∀ g ∈ globals, env.defines g.name = false) →
      globals.foldl Env.define env = { env with globals := env.globals ++ globals } := by
  induction globals with
  | nil => simp
  | cons g rest ih =>
    intro env nodup new
    rw [List.map_cons, List.nodup_cons] at nodup
    rw [List.forall_mem_cons] at new
    have defined : env.define g = { env with globals := env.globals ++ [g] } := by
      rw [Env.define, if_neg (by simp [new.1])]
    rw [List.foldl_cons, defined, ih _ nodup.2]
    · simp
    · intro h inRest
      have differ : g.name ≠ h.name := fun same =>
        nodup.1 (same ▸ List.mem_map_of_mem inRest)
      have old := new.2 h inRest
      simp_all [Env.defines]

/-- The environment in which the functions of a module are lowered. -/
theorem foldl_define_ofFrameSize {m : IR.Module} (nodup : (m.globals.map Global.name).Nodup)
    (size : Int64) :
    m.globals.foldl Env.define (.ofFrameSize size) =
      { Env.ofFrameSize size with globals := m.globals } := by
  rw [foldl_define_eq m.globals _ nodup fun g _ => rfl]
  rfl

/-- An environment with the globals of a module defines exactly their names. -/
theorem defines_eq_isSome {m : IR.Module} {env : Env} (globals_eq : env.globals = m.globals)
    (name : String) : env.defines name = (m.findGlobal? name).isSome := by
  rw [Env.defines, globals_eq, IR.Module.findGlobal?, List.isSome_find?]

end RiscBackend.Lower
