/-
# What an environment records

An environment is asked to define and hide globals, to begin functions and to find
slots. Its state is compared with the exchanges that led to it: what was asked and what
was answered. The environment is the one that is changed in place, so that its list of
globals and its map to values, and likewise its list of names with slots and its map to
slots, could come apart, and a request that fails could leave traces.

Each list with its map condenses a log. The globals condense all definitions, and the
slots condense what was granted in the current function. A condensed log has one entry
for each key, in the order of the first mentions, and it is the last one. A slot that is
granted a second time stays used, so the amount that is used is counted on the log and
not on the list.
-/

import Mathlib.Data.List.DropRight
import Mathlib.Data.List.Nodup
import RiscBackend.Proofs.Lower.Registry

namespace RiscBackend.Lower

open IR (Global)

/-- A request and its answer, which is an offset for a request about a slot. -/
structure Exchange where
  request : Request
  answer : Except PlacementFault (Option Int64)

namespace Registry

/-- The registry after a list of requests, whatever the answers. -/
def after (r : Registry) (requests : List Request) : Registry :=
  requests.foldl (fun r request => (request.perform.run r).2) r

/-- A list of requests with the answers to them. -/
def transcript : Registry → List Request → List Exchange
  | _, [] => []
  | r, request :: rest =>
    { request, answer := (request.perform.run r).1 } :: transcript (request.perform.run r).2 rest

end Registry

/-- Whether a list of names has each key of a log once, in the order in which the keys
were mentioned first, and a map gives the last value logged for each of them. -/
structure Condenses {β : Type} (log : List (String × β)) (names : List String)
    (value? : String → Option β) : Prop where
  mem_iff : ∀ key, key ∈ names ↔ key ∈ log.map Prod.fst
  ordered : names.Pairwise fun a b =>
    (log.map Prod.fst).idxOf a < (log.map Prod.fst).idxOf b
  last : ∀ key, value? key = log.reverse.lookup key

namespace Condenses

variable {β : Type} {log : List (String × β)} {names : List String} {value? : String → Option β}

theorem empty : Condenses ([] : List (String × β)) [] fun _ => none :=
  ⟨by simp, List.Pairwise.nil, by simp⟩

theorem nodup (condenses : Condenses log names value?) : names.Nodup :=
  condenses.ordered.imp fun {a b} before same => by
    subst same
    exact Nat.lt_irrefl _ before

/-- A value of the map was logged. -/
theorem mem_log (condenses : Condenses log names value?) {key : String} {value : β}
    (found : value? key = some value) : (key, value) ∈ log := by
  rw [condenses.last] at found
  obtain ⟨before, rest, log_eq, -⟩ := List.lookup_eq_some_iff.mp found
  rw [← List.mem_reverse, log_eq]
  exact List.mem_append_right _ List.mem_cons_self

/-- The map has values for the names of the list and for no others. -/
theorem eq_none_iff (condenses : Condenses log names value?) (key : String) :
    value? key = none ↔ key ∉ names := by
  rw [condenses.mem_iff, condenses.last, List.lookup_eq_none_iff]
  constructor
  · intro differ isKey
    obtain ⟨entry, inLog, rfl⟩ := List.mem_map.mp isKey
    simpa using differ entry (List.mem_reverse.mpr inLog)
  · intro notKey entry inLog
    rw [bne_iff_ne]
    rintro rfl
    exact notKey (List.mem_map_of_mem (List.mem_reverse.mp inLog))

/-- Logging a value and putting it into the map. A name that has a value keeps its place. -/
theorem update (condenses : Condenses log names value?) (key : String) (value : β) :
    Condenses (log ++ [(key, value)])
      (if (value? key).isNone then names ++ [key] else names)
      (Function.update value? key (some value)) := by
  have logged {a : String} (isName : a ∈ names) : a ∈ log.map Prod.fst :=
    (condenses.mem_iff a).mp isName
  have ordered : names.Pairwise fun a b =>
      ((log ++ [(key, value)]).map Prod.fst).idxOf a <
        ((log ++ [(key, value)]).map Prod.fst).idxOf b := by
    refine condenses.ordered.imp_of_mem fun {a b} isA isB before => ?_
    rw [List.map_append, List.idxOf_append_of_mem (logged isA),
      List.idxOf_append_of_mem (logged isB)]
    exact before
  constructor
  case mem_iff =>
    intro other
    rw [List.map_append, List.mem_append, ← condenses.mem_iff, List.map_singleton]
    split
    · rw [List.mem_append]
    · rename_i known
      have isName : key ∈ names := by
        by_contra notName
        exact known (Option.isNone_iff_eq_none.mpr ((condenses.eq_none_iff key).mpr notName))
      constructor
      · exact .inl
      · rintro (old | new)
        · exact old
        · exact List.mem_singleton.mp new ▸ isName
  case ordered =>
    split
    · rename_i isNew
      have notLogged : key ∉ log.map Prod.fst := fun inLog =>
        (condenses.eq_none_iff key).mp (Option.isNone_iff_eq_none.mp isNew)
          ((condenses.mem_iff key).mpr inLog)
      rw [List.pairwise_append]
      refine ⟨ordered, List.pairwise_singleton _ _, fun a isName b isKey => ?_⟩
      rw [List.mem_singleton] at isKey
      rw [isKey, List.map_append, List.idxOf_append_of_mem (logged isName),
        List.idxOf_append_of_notMem notLogged]
      exact (List.idxOf_lt_length_iff.mpr (logged isName)).trans_le (Nat.le_add_right _ _)
    · exact ordered
  case last =>
    intro other
    rw [Function.update_apply, condenses.last, List.reverse_append, List.reverse_singleton,
      List.singleton_append, List.lookup_cons]
    by_cases same : other = key
    · simp [same]
    · have differ : (other == key) = false := by simpa using same
      rw [if_neg same, differ]

end Condenses

/-- The entry that a request makes in the log of definitions. -/
def Request.definition? : Request → Option (String × Int32)
  | define name value => some (name, value)
  | _ => none

/-- The definitions of globals, with their values. -/
def defined (past : List Exchange) : List (String × Int32) :=
  past.filterMap fun e => e.request.definition?

/-- The exchanges since a function was begun last. -/
def sinceBegin (past : List Exchange) : List Exchange :=
  past.rtakeWhile fun e => e.request ≠ .beginFunction

/-- Log the slot that is granted in an exchange. Asking for the slot of a name grants a
slot unless one was granted before. -/
def logGrant (grants : List (String × Int64)) (e : Exchange) : List (String × Int64) :=
  match e.request, e.answer with
  | .allocate name, .ok (some offset) => grants ++ [(name, offset)]
  | .slotFor name, .ok (some offset) =>
    if name ∈ grants.map Prod.fst then grants else grants ++ [(name, offset)]
  | _, _ => grants

/-- The slots that were granted in the current function, one after another. -/
def granted (past : List Exchange) : List (String × Int64) :=
  (sinceBegin past).foldl logGrant []

section Concat

variable (past : List Exchange) (e : Exchange)

theorem defined_concat :
    defined (past ++ [e]) = defined past ++ e.request.definition?.toList := by
  rw [defined, List.filterMap_append]
  cases found : e.request.definition? <;> simp [defined, found]

variable {e}

theorem sinceBegin_concat_of_begin (begins : e.request = .beginFunction) :
    sinceBegin (past ++ [e]) = [] := by
  rw [sinceBegin, List.rtakeWhile_concat, if_neg (by simpa using begins)]

theorem sinceBegin_concat (goesOn : e.request ≠ .beginFunction) :
    sinceBegin (past ++ [e]) = sinceBegin past ++ [e] := by
  rw [sinceBegin, List.rtakeWhile_concat, if_pos (by simpa using goesOn)]
  rfl

theorem hides_concat (goesOn : e.request ≠ .beginFunction) {name : String}
    (showing : e.request ≠ .hide name) :
    (∃ other ∈ sinceBegin (past ++ [e]), other.request = .hide name) ↔
      ∃ other ∈ sinceBegin past, other.request = .hide name := by
  rw [sinceBegin_concat past goesOn]
  simp [or_and_right, exists_or, showing]

theorem granted_concat_of_begin (begins : e.request = .beginFunction) :
    granted (past ++ [e]) = [] := by
  rw [granted, sinceBegin_concat_of_begin past begins]
  rfl

theorem granted_concat (goesOn : e.request ≠ .beginFunction) :
    granted (past ++ [e]) = logGrant (granted past) e := by
  rw [granted, sinceBegin_concat past goesOn, List.foldl_append]
  rfl

end Concat

namespace Ledger

/-- What holds of a frame of a given size that granted slots one after another. -/
structure Accounts (size : Int64) (grants : List (String × Int64)) (l : Ledger) : Prop where
  size_eq : l.size = size
  next_eq : l.next.toInt = size.toInt - 4 * grants.length
  next_nonneg : 0 ≤ l.next.toInt
  slots : Condenses grants l.names l.slots
  /-- The slots were granted from the top of the frame downwards. -/
  offsets : ∀ (i : Nat) (slot : String × Int64), grants[i]? = some slot →
    slot.2.toInt = size.toInt - 4 * (i + 1)

namespace Accounts

variable {size : Int64} {grants : List (String × Int64)} {l : Ledger}

theorem ofSize (nonneg : 0 ≤ size.toInt) : (Ledger.ofSize size).Accounts size [] where
  size_eq := rfl
  next_eq := by simp [Ledger.ofSize]
  next_nonneg := nonneg
  slots := .empty
  offsets := by simp

/-- A frame is full if less than a slot is left. -/
theorem full_iff (accounts : l.Accounts size grants) :
    l.next - slotSize < 0 ↔ l.next.toInt < 4 := by
  rw [Int64.lt_iff_toInt_lt, Frame.toInt_sub_slotSize_of_nonneg accounts.next_nonneg,
    Int64.toInt_zero]
  omega

/-- With room for a slot the next one is granted. -/
theorem grant (accounts : l.Accounts size grants) (room : 4 ≤ l.next.toInt) (name : String) :
    (l.grant name).Accounts size (grants ++ [(name, l.next - slotSize)]) := by
  have below := Frame.toInt_sub_slotSize_of_nonneg accounts.next_nonneg
  have next_eq := accounts.next_eq
  constructor
  case size_eq => exact accounts.size_eq
  case next_eq =>
    rw [Ledger.grant, below, List.length_append, List.length_singleton]
    omega
  case next_nonneg =>
    rw [Ledger.grant, below]
    omega
  case slots => exact accounts.slots.update name (l.next - slotSize)
  case offsets =>
    intro i slot found
    rw [List.getElem?_append] at found
    split at found
    · exact accounts.offsets i slot found
    · have index : i = grants.length := by
        have bound := (List.getElem?_eq_some_iff.mp found).1
        rw [List.length_singleton] at bound
        omega
      subst index
      rw [Nat.sub_self] at found
      obtain rfl : (name, l.next - slotSize) = slot := Option.some.inj found
      rw [below]
      omega

/-- Every slot is one that was granted, from the top of the frame downwards. -/
theorem exists_offset_eq (accounts : l.Accounts size grants) {name : String} {offset : Int64}
    (found : l.slots name = some offset) :
    ∃ i : Nat, grants[i]? = some (name, offset) ∧ i < grants.length ∧
      offset.toInt = size.toInt - 4 * (i + 1) := by
  obtain ⟨i, granted⟩ := List.mem_iff_getElem?.mp (accounts.slots.mem_log found)
  exact ⟨i, granted, (List.getElem?_eq_some_iff.mp granted).1,
    accounts.offsets i (name, offset) granted⟩

/-- No two names share a slot. -/
theorem eq_of_slots_eq (accounts : l.Accounts size grants) {first second : String}
    {offset : Int64} (isFirst : l.slots first = some offset)
    (isSecond : l.slots second = some offset) : first = second := by
  obtain ⟨i, grantedI, -, offsetI⟩ := accounts.exists_offset_eq isFirst
  obtain ⟨j, grantedJ, -, offsetJ⟩ := accounts.exists_offset_eq isSecond
  obtain rfl : i = j := by omega
  exact (Prod.mk.inj (Option.some.inj (grantedI.symm.trans grantedJ))).1

theorem used_eq (accounts : l.Accounts size grants) : l.used.toInt = 4 * grants.length := by
  have upper := size.toInt_lt
  have next_eq := accounts.next_eq
  have nonneg := accounts.next_nonneg
  rw [used, accounts.size_eq, Int64.toInt_sub, Int.bmod_eq_of_le (by omega) (by omega)]
  omega

end Accounts

end Ledger

namespace Registry

theorem names_listed (r : Registry) (name : String) (value : Int32) :
    (r.listed name value).map Global.name =
      if (r.values name).isNone then r.globals.map Global.name ++ [name]
      else r.globals.map Global.name := by
  rw [listed]
  cases r.values name with
  | none => simp
  | some old =>
    rw [Option.isSome_some, if_pos rfl, List.map_map]
    apply List.map_congr_left
    intro g _
    by_cases same : g.name = name <;> simp [same]

/-- What holds of a registry after the exchanges of the past. -/
structure Accounts (size : Int64) (past : List Exchange) (r : Registry) : Prop where
  frameSize_eq : r.frameSize = size
  globals : Condenses (defined past) (r.globals.map Global.name) r.values
  /-- The list of globals and the map to their values agree. -/
  agree : ∀ g ∈ r.globals, r.values g.name = some g.value
  shadowed : ∀ name, r.shadowed name ↔ ∃ e ∈ sinceBegin past, e.request = .hide name
  frame : r.frame.Accounts size (granted past)

namespace Accounts

variable {size : Int64} {past : List Exchange} {r : Registry}

theorem ofFrameSize (nonneg : 0 ≤ size.toInt) : (Registry.ofFrameSize size).Accounts size [] where
  frameSize_eq := rfl
  globals := .empty
  agree := by simp [Registry.ofFrameSize]
  shadowed := by simp [Registry.ofFrameSize, sinceBegin]
  frame := .ofSize nonneg

/-- A request about a slot concerns the frame only. -/
theorem withFrame {e : Exchange} {frame : Ledger} (accounts : r.Accounts size past)
    (undefined : e.request.definition? = none) (goesOn : e.request ≠ .beginFunction)
    (showing : ∀ name, e.request ≠ .hide name)
    (framed : frame.Accounts size (logGrant (granted past) e)) :
    Accounts size (past ++ [e]) { r with frame } where
  frameSize_eq := accounts.frameSize_eq
  globals := by
    rw [defined_concat, undefined, Option.toList_none, List.append_nil]
    exact accounts.globals
  agree := accounts.agree
  shadowed name := by
    rw [hides_concat past goesOn (showing name)]
    exact accounts.shadowed name
  frame := by
    rw [granted_concat past goesOn]
    exact framed

theorem agree_listed (accounts : r.Accounts size past) (name : String) (value : Int32) :
    ∀ g ∈ r.listed name value,
      Function.update r.values name (some value) g.name = some g.value := by
  intro g isListed
  have unknown {other : Global} (wasListed : other ∈ r.globals) (differ : other.name ≠ name) :
      Function.update r.values name (some value) other.name = some other.value := by
    rw [Function.update_of_ne differ]
    exact accounts.agree other wasListed
  rw [listed] at isListed
  split at isListed
  · obtain ⟨old, wasListed, rfl⟩ := List.mem_map.mp isListed
    split
    · rename_i same
      rw [same, Function.update_self]
    · rename_i differ
      exact unknown wasListed differ
  · rename_i isNew
    rcases List.mem_append.mp isListed with wasListed | added
    · refine unknown wasListed fun same => isNew ?_
      rw [← same, accounts.agree g wasListed]
      rfl
    · rw [List.mem_singleton.mp added, Function.update_self]

theorem define (accounts : r.Accounts size past) (name : String) (value : Int32) :
    Accounts size (past ++ [{ request := .define name value, answer := .ok none }])
      { r with
        globals := r.listed name value
        values := Function.update r.values name (some value) } where
  frameSize_eq := accounts.frameSize_eq
  globals := by
    rw [defined_concat, names_listed]
    exact accounts.globals.update name value
  agree := accounts.agree_listed name value
  shadowed other := by
    rw [hides_concat past (by simp) (by simp)]
    exact accounts.shadowed other
  frame := by
    rw [granted_concat past (by simp)]
    exact accounts.frame

theorem hide (accounts : r.Accounts size past) (name : String) :
    Accounts size (past ++ [{ request := .hide name, answer := .ok none }])
      { r with shadowed := Function.update r.shadowed name true } where
  frameSize_eq := accounts.frameSize_eq
  globals := by
    rw [defined_concat]
    exact (List.append_nil (defined past)).symm ▸ accounts.globals
  agree := accounts.agree
  shadowed other := by
    have hiddenNow : Function.update r.shadowed name true other ↔
        other = name ∨ r.shadowed other := by
      rw [Function.update_apply]
      by_cases same : other = name <;> simp [same]
    rw [hiddenNow, sinceBegin_concat past (by simp), accounts.shadowed]
    simp only [List.mem_append, List.mem_singleton]
    constructor
    · rintro (rfl | ⟨e, inPast, hides⟩)
      · exact ⟨_, .inr rfl, rfl⟩
      · exact ⟨e, .inl inPast, hides⟩
    · rintro ⟨e, inPast | rfl, hides⟩
      · exact .inr ⟨e, inPast, hides⟩
      · exact .inl (Request.hide.inj hides).symm
  frame := by
    rw [granted_concat past (by simp)]
    exact accounts.frame

theorem beginFunction (accounts : r.Accounts size past) (nonneg : 0 ≤ size.toInt) :
    Accounts size (past ++ [{ request := .beginFunction, answer := .ok none }])
      { r with shadowed := fun _ => false, frame := .ofSize r.frameSize } where
  frameSize_eq := accounts.frameSize_eq
  globals := by
    rw [defined_concat]
    exact (List.append_nil (defined past)).symm ▸ accounts.globals
  agree := accounts.agree
  shadowed name := by
    rw [sinceBegin_concat_of_begin past rfl]
    simp
  frame := by
    rw [granted_concat_of_begin past rfl, accounts.frameSize_eq]
    exact .ofSize nonneg

/-- A request that leads to a new slot is accounted for if its success is logged. -/
theorem perform_new {request : Request} {name : String} (accounts : r.Accounts size past)
    (isNew : request.perform.run r = (Request.allocate name).perform.run r)
    (undefined : request.definition? = none) (goesOn : request ≠ .beginFunction)
    (showing : ∀ name, request ≠ .hide name)
    (logged : ∀ offset, logGrant (granted past) { request, answer := .ok (some offset) } =
      granted past ++ [(name, offset)]) :
    Accounts size (past ++ [{ request, answer := (request.perform.run r).1 }])
      (request.perform.run r).2 := by
  rw [isNew]
  by_cases full : r.frame.next - slotSize < 0
  · rw [Request.run_allocate_of_full full]
    apply accounts.withFrame undefined goesOn showing
    have unlogged : logGrant (granted past)
        { request, answer := .error (.exhausted name r.frame.size) } = granted past := by
      cases request <;> rfl
    rw [unlogged]
    exact accounts.frame
  · rw [Request.run_allocate_of_room full]
    apply accounts.withFrame undefined goesOn showing
    rw [logged]
    exact accounts.frame.grant (Int.not_lt.mp fun less => full (accounts.frame.full_iff.mpr less))
      name

/-- Every request is accounted for. -/
theorem perform (accounts : r.Accounts size past) (nonneg : 0 ≤ size.toInt) (request : Request) :
    Accounts size (past ++ [{ request, answer := (request.perform.run r).1 }])
      (request.perform.run r).2 := by
  cases request with
  | define name value => exact accounts.define name value
  | hide name => exact accounts.hide name
  | beginFunction => exact accounts.beginFunction nonneg
  | allocate name => exact accounts.perform_new rfl rfl (by simp) (by simp) fun _ => rfl
  | resolve name =>
    have unchanged : ((Request.resolve name).perform.run r).2 = r := by
      cases known : r.frame.slots name with
      | some offset => rw [Request.run_resolve_of_some known]
      | none => rw [Request.run_resolve_of_none known]
    rw [unchanged]
    exact accounts.withFrame rfl (by simp) (by simp) accounts.frame
  | slotFor name =>
    have granted_iff : r.frame.slots name = none ↔ name ∉ (granted past).map Prod.fst := by
      rw [accounts.frame.slots.eq_none_iff, accounts.frame.slots.mem_iff]
    cases found : r.frame.slots name with
    | none =>
      apply accounts.perform_new (Request.run_slotFor_of_none found) rfl (by simp) (by simp)
      exact fun _ => if_neg (granted_iff.mp found)
    | some offset =>
      have isOld : name ∈ (granted past).map Prod.fst := by
        by_contra isNew
        rw [granted_iff.mpr isNew] at found
        cases found
      rw [Request.run_slotFor_of_some found]
      apply accounts.withFrame rfl (by simp) (by simp)
      have unlogged : logGrant (granted past)
          { request := .slotFor name, answer := .ok (some offset) } = granted past :=
        if_pos isOld
      rw [unlogged]
      exact accounts.frame

/-- Every list of requests is accounted for. -/
theorem after (accounts : r.Accounts size past) (nonneg : 0 ≤ size.toInt)
    (requests : List Request) :
    (r.after requests).Accounts size (past ++ r.transcript requests) := by
  induction requests generalizing r past with
  | nil =>
    rw [transcript, List.append_nil]
    exact accounts
  | cons request rest ih =>
    have later := ih (accounts.perform nonneg request)
    rw [List.append_assoc] at later
    exact later

theorem isGlobal_iff (accounts : r.Accounts size past) (name : String) :
    r.isGlobal name ↔ name ∈ (defined past).map Prod.fst ∧
      ¬ ∃ e ∈ sinceBegin past, e.request = .hide name := by
  have known : (r.values name).isSome ↔ name ∈ (defined past).map Prod.fst := by
    rw [← accounts.globals.mem_iff, ← not_iff_not, ← accounts.globals.eq_none_iff,
      Option.not_isSome_iff_eq_none]
  rw [isGlobal, Bool.and_eq_true, known, ← accounts.shadowed, Bool.not_eq_true', Bool.not_eq_true]

theorem allocate_fails_iff (accounts : r.Accounts size past) (name : String) :
    (∃ fault, ((Request.allocate name).perform.run r).1 = .error fault) ↔
      r.frame.next.toInt < 4 := by
  rw [← accounts.frame.full_iff]
  by_cases full : r.frame.next - slotSize < 0
  · simp [Request.run_allocate_of_full full, full]
  · simp [Request.run_allocate_of_room full, full]

end Accounts

/-- A name keeps its slot until it is given a new one or another function begins. -/
theorem slots_perform {r : Registry} {name : String} {offset : Int64} {request : Request}
    (found : r.frame.slots name = some offset) (goesOn : request ≠ .beginFunction)
    (kept : request ≠ .allocate name) :
    (request.perform.run r).2.frame.slots name = some offset := by
  have allocated {other : String} (differ : name ≠ other) :
      ((Request.allocate other).perform.run r).2.frame.slots name = some offset := by
    by_cases full : r.frame.next - slotSize < 0
    · rw [Request.run_allocate_of_full full]
      exact found
    · rw [Request.run_allocate_of_room full, Ledger.slots_grant, if_neg differ]
      exact found
  cases request with
  | define other value => exact found
  | hide other => exact found
  | beginFunction => exact absurd rfl goesOn
  | allocate other => exact allocated fun same => kept (same ▸ rfl)
  | resolve other =>
    cases known : r.frame.slots other with
    | some _ =>
      rw [Request.run_resolve_of_some known]
      exact found
    | none =>
      rw [Request.run_resolve_of_none known]
      exact found
  | slotFor other =>
    cases known : r.frame.slots other with
    | some _ =>
      rw [Request.run_slotFor_of_some known]
      exact found
    | none =>
      rw [Request.run_slotFor_of_none known]
      apply allocated
      rintro rfl
      rw [found] at known
      cases known

theorem slots_after {r : Registry} {name : String} {offset : Int64} {later : List Request}
    (found : r.frame.slots name = some offset) (goesOn : .beginFunction ∉ later)
    (kept : .allocate name ∉ later) : (r.after later).frame.slots name = some offset := by
  induction later generalizing r with
  | nil => exact found
  | cons request rest ih =>
    rw [List.mem_cons, not_or] at goesOn kept
    exact ih (slots_perform found (Ne.symm goesOn.1) (Ne.symm kept.1)) goesOn.2 kept.2

/-- A slot that was asked for is there. -/
theorem slots_of_slotFor {r r' : Registry} {name : String} {offset : Int64}
    (answered : (Request.slotFor name).perform.run r = (.ok (some offset), r')) :
    r'.frame.slots name = some offset := by
  cases known : r.frame.slots name with
  | some old =>
    rw [Request.run_slotFor_of_some known] at answered
    cases answered
    exact known
  | none =>
    rw [Request.run_slotFor_of_none known] at answered
    by_cases full : r.frame.next - slotSize < 0
    · rw [Request.run_allocate_of_full full] at answered
      cases answered
    · rw [Request.run_allocate_of_room full] at answered
      cases answered
      rw [Ledger.slots_grant, if_pos rfl]

theorem resolve_iff {r : Registry} {name : String} {offset : Int64} :
    ((Request.resolve name).perform.run r).1 = .ok (some offset) ↔
      r.frame.slots name = some offset := by
  cases known : r.frame.slots name with
  | some old => simp [Request.run_resolve_of_some known]
  | none => simp [Request.run_resolve_of_none known]

/-- After the same requests a registry shows the environment that answered them. -/
theorem Shows.after {r : Registry} {env : Env} (shows : r.Shows env) (requests : List Request) :
    (r.after requests).Shows (env.served requests) := by
  induction requests generalizing r env with
  | nil => exact shows
  | cons request rest ih =>
    have follows := shows.perform request
    rw [Registry.after, List.foldl_cons, Env.served]
    cases served : env.serve request with
    | ok result =>
      rw [served] at follows
      exact ih follows.2
    | error fault =>
      rw [served] at follows
      have kept : (request.perform.run r).2 = r := congrArg Prod.snd follows
      rw [kept]
      exact ih shows

theorem map_request_transcript (r : Registry) (requests : List Request) :
    (r.transcript requests).map Exchange.request = requests := by
  induction requests generalizing r with
  | nil => rfl
  | cons request rest ih => rw [transcript, List.map_cons, ih]

end Registry

/-- What can be said of a registry with frames of a given size and of its next answers,
from the exchanges of the past. -/
structure Registry.Faithful (size : Int64) (past : List Exchange) (r : Registry) : Prop where
  globals_nodup : (r.globals.map Global.name).Nodup
  /-- The globals are listed in the order of their first definitions, and the map has their
  last values. -/
  globals : Condenses (defined past) (r.globals.map Global.name) r.values
  /-- The list of globals and the map to their values agree. -/
  globals_agree : ∀ g ∈ r.globals, r.values g.name = some g.value
  isGlobal_iff : ∀ name, r.isGlobal name ↔ name ∈ (defined past).map Prod.fst ∧
    ¬ ∃ e ∈ sinceBegin past, e.request = .hide name
  size_eq : r.frame.size = size
  slots_nodup : r.frame.names.Nodup
  /-- The names with slots are listed in the order of their first slots, and the map has
  their last ones. -/
  slots : Condenses (granted past) r.frame.names r.frame.slots
  resolve_iff : ∀ name offset, ((Request.resolve name).perform.run r).1 = .ok (some offset) ↔
    r.frame.slots name = some offset
  offsets_injective : ∀ first second offset, r.frame.slots first = some offset →
    r.frame.slots second = some offset → first = second
  offset_eq : ∀ name offset, r.frame.slots name = some offset → 0 ≤ offset.toInt ∧
    ∃ k : Nat, 1 ≤ k ∧ offset.toInt = size.toInt - 4 * k
  used_eq : r.frame.used.toInt = 4 * (granted past).length
  /-- The slot of a name is the same until the name is given a new one or another function
  begins. -/
  slotFor_stable : ∀ name offset r' later,
    (Request.slotFor name).perform.run r = (.ok (some offset), r') →
    .beginFunction ∉ later → .allocate name ∉ later →
    ((Request.slotFor name).perform.run (r'.after later)).1 = .ok (some offset)
  /-- All fields are as they were when a request has failed. -/
  fault_keeps : ∀ request : Request, ∀ fault r',
    request.perform.run r = (.error fault, r') → r' = r
  allocate_fails_iff : ∀ name,
    (∃ fault, ((Request.allocate name).perform.run r).1 = .error fault) ↔
      size.toInt - r.frame.used.toInt < 4
  /-- The environment of the lowering shows the same after these requests and gives the same
  answer to the next. -/
  follows : let env := (Env.ofFrameSize size).served (past.map Exchange.request)
    r.Shows env ∧ (∀ name, r.isGlobal name = env.isGlobal name) ∧
      ∀ request : Request, r.Follows (request.perform.run r) (env.serve request)

/-- **An environment follows its history.** After any requests to a new environment its
globals, its slots and its next answers are determined by what was asked and granted, its
lists and its maps agree, and no failure leaves a trace. -/
theorem faithful_after (size : Int64) (nonneg : 0 ≤ size.toInt) (requests : List Request) :
    ((Registry.ofFrameSize size).after requests).Faithful size
      ((Registry.ofFrameSize size).transcript requests) := by
  have accounts := (Registry.Accounts.ofFrameSize nonneg).after nonneg requests
  have shows : ((Registry.ofFrameSize size).after requests).Shows
      ((Env.ofFrameSize size).served
        (((Registry.ofFrameSize size).transcript requests).map Exchange.request)) := by
    rw [Registry.map_request_transcript]
    exact (Registry.Shows.ofFrameSize size).after requests
  rw [List.nil_append] at accounts
  generalize (Registry.ofFrameSize size).after requests = r at *
  generalize (Registry.ofFrameSize size).transcript requests = past at *
  constructor
  case globals_nodup => exact accounts.globals.nodup
  case globals => exact accounts.globals
  case globals_agree => exact accounts.agree
  case isGlobal_iff => exact accounts.isGlobal_iff
  case size_eq => exact accounts.frame.size_eq
  case slots_nodup => exact accounts.frame.slots.nodup
  case slots => exact accounts.frame.slots
  case resolve_iff => exact fun _ _ => Registry.resolve_iff
  case offsets_injective => exact fun _ _ _ => accounts.frame.eq_of_slots_eq
  case offset_eq =>
    intro name offset found
    obtain ⟨i, -, bound, offset_eq⟩ := accounts.frame.exists_offset_eq found
    have next_eq := accounts.frame.next_eq
    have nonneg := accounts.frame.next_nonneg
    exact ⟨by omega, i + 1, by omega, by omega⟩
  case used_eq => exact accounts.frame.used_eq
  case slotFor_stable =>
    intro name offset r' later answered goesOn kept
    have found := Registry.slots_after (Registry.slots_of_slotFor answered) goesOn kept
    rw [Request.run_slotFor_of_some found]
  case fault_keeps => exact fun _ _ _ failed => Request.run_of_fault failed
  case allocate_fails_iff =>
    intro name
    rw [accounts.allocate_fails_iff, accounts.frame.used_eq, accounts.frame.next_eq]
  case follows => exact ⟨shows, shows.isGlobal, shows.perform⟩

/-- A global is defined twice and hidden, a name is given a second slot, and the frame
gets full. -/
def crowdedHistory : List Request :=
  [.define "x" 5, .define "y" 1, .define "x" 6, .slotFor "old", .beginFunction, .hide "x",
    .allocate "a", .slotFor "b", .allocate "a", .allocate "c", .slotFor "b"]

theorem faithful_after_crowdedHistory :
    0 ≤ (12 : Int64).toInt ∧
    ((Registry.ofFrameSize 12).after crowdedHistory).Faithful 12
      ((Registry.ofFrameSize 12).transcript crowdedHistory) ∧
    granted ((Registry.ofFrameSize 12).transcript crowdedHistory) =
      [("a", 8), ("b", 4), ("a", 0)] ∧
    ((Registry.ofFrameSize 12).after crowdedHistory).globals = [⟨"x", 6⟩, ⟨"y", 1⟩] ∧
    ((Registry.ofFrameSize 12).after crowdedHistory).values "x" = some 6 ∧
    ((Registry.ofFrameSize 12).after crowdedHistory).isGlobal "x" = false ∧
    ((Registry.ofFrameSize 12).after crowdedHistory).frame.names = ["a", "b"] ∧
    ((Registry.ofFrameSize 12).after crowdedHistory).frame.slots "a" = some 0 :=
  ⟨by decide, faithful_after 12 (by decide) crowdedHistory, by decide +kernel, by decide +kernel,
    by decide +kernel, by decide +kernel, by decide +kernel, by decide +kernel⟩

end RiscBackend.Lower
