/-
# What becomes of the arguments

A command line that is accepted is cut into pieces without loss: the arguments that are kept are
those of the pieces, in order, and every flag has been given the texts of its pieces, in order. A
line that was read to its end without meeting the end of the flags can be continued by another one,
as if the two had been read one after the other.
-/

import RiscBackend.Proofs.Cli.Pieces

namespace RiscBackend.Cli.FlagSet

/-- Pieces are read one after another. Only the last one may end the flags. -/
inductive ReadsAll : FlagSet → List Piece → FlagSet → Prop
  | nil (fs : FlagSet) : ReadsAll fs [] fs
  | cons {fs fs₁ fs' : FlagSet} {piece : Piece} {pieces : List Piece} (reads : fs.Reads piece fs₁)
      (last : piece.IsEnding → pieces = []) (later : ReadsAll fs₁ pieces fs') :
      ReadsAll fs (piece :: pieces) fs'

section Runs

variable {fs fs' fs₁ : FlagSet} {pieces : List Piece}

/-- After pieces none of which ends the flags, reading goes on with what follows them. -/
theorem ReadsAll.parseFrom_append (read : ReadsAll fs pieces fs₁)
    (unended : ∀ piece ∈ pieces, ¬ piece.IsEnding) (rest : List String) :
    fs.parseFrom (pieces.flatMap Piece.words ++ rest) = fs₁.parseFrom rest := by
  induction read with
  | nil => rfl
  | cons reads last later ih =>
    obtain ⟨unendedFirst, unendedLater⟩ := List.forall_mem_cons.mp unended
    rw [List.flatMap_cons, List.append_assoc,
      reads.parseFrom_eq fun isEnding => absurd isEnding unendedFirst, ih unendedLater]

/-- A line that is accepted is made of pieces that can be read. -/
theorem exists_readsAll {arguments : List String} (parsed : fs.parseFrom arguments = (fs', none)) :
    ∃ pieces, pieces.flatMap Piece.words = arguments ∧ ReadsAll fs pieces fs' := by
  induction length_eq : arguments.length using Nat.strong_induction_on generalizing fs arguments with
  | _ n ih =>
    cases arguments with
    | nil =>
      rw [parseFrom] at parsed
      cases parsed
      exact ⟨[], rfl, .nil _⟩
    | cons arg rest =>
      obtain ⟨piece, later, fs₁, words_eq, reads, last, parsedLater⟩ := exists_reads parsed
      have shorter : later.length < n := by
        have lengths := congrArg List.length words_eq
        rw [List.length_append] at lengths
        have nonempty : 0 < piece.words.length := by cases piece <;> exact Nat.succ_pos _
        omega
      obtain ⟨pieces, later_eq, read⟩ := ih later.length shorter parsedLater rfl
      refine ⟨piece :: pieces, by rw [List.flatMap_cons, later_eq, words_eq], .cons reads ?_ read⟩
      intro isEnding
      have none_left := later_eq.trans (last isEnding)
      cases pieces with
      | nil => rfl
      | cons next _ => cases next <;> cases none_left

theorem ReadsAll.args_eq (read : ReadsAll fs pieces fs') :
    fs'.args = fs.args ++ pieces.flatMap Piece.keeps := by
  induction read with
  | nil => exact (List.append_nil _).symm
  | cons reads _ _ ih => rw [ih, reads.args_eq, List.flatMap_cons, List.append_assoc]

theorem ReadsAll.found (read : ReadsAll fs pieces fs') {name : String} {flag : Flag}
    (found : fs.find? name = some flag) :
    ∃ flag', (pieces.flatMap (Piece.gives name)).foldlM Flag.set flag = .ok flag' ∧
      fs'.find? name = some flag' := by
  induction read generalizing flag with
  | nil => exact ⟨flag, rfl, found⟩
  | cons reads _ _ ih =>
    obtain ⟨flag₁, given₁, found₁⟩ := reads.found found
    obtain ⟨flag', given', found'⟩ := ih found₁
    refine ⟨flag', ?_, found'⟩
    rw [List.flatMap_cons, List.foldlM_append, given₁]
    exact given'

end Runs

section After

/-- A flag set with some arguments kept before its own. -/
def after (fs : FlagSet) (args : List String) : FlagSet :=
  { fs with args := args ++ fs.args }

@[simp] theorem match?_after (fs : FlagSet) (args : List String) (arg : String) :
    (fs.after args).match? arg = fs.match? arg := rfl

@[simp] theorem update_after (fs : FlagSet) (args : List String) (new : Flag) :
    (fs.after args).update new = (fs.update new).after args := rfl

/-- The arguments kept before play no part in reading. -/
theorem parseFrom_after (fs : FlagSet) (args rest : List String) :
    (fs.after args).parseFrom rest =
      ((fs.parseFrom rest).1.after args, (fs.parseFrom rest).2) := by
  fun_induction parseFrom fs rest with
  | case1 => rfl
  | case2 fs rest => simp [parseFrom_end, after]
  | case3 fs arg rest notEnd isPositional ih =>
    rw [parseFrom_kept notEnd isPositional]
    simpa [after] using ih
  | case4 fs arg rest notEnd notPositional unmatched =>
    rw [parseFrom]
    simp [notEnd, notPositional, unmatched]
  | case5 fs arg rest notEnd notPositional flag value matched text given fault set_eq =>
    rw [parseFrom]
    simp [notEnd, notPositional, matched, given, set_eq]
  | case6 fs arg rest notEnd notPositional flag value matched text given new set_eq ih =>
    rw [parseFrom]
    simp [notEnd, notPositional, matched, given, set_eq, ih]
  | case7 fs arg notEnd notPositional flag value matched wanting =>
    rw [parseFrom]
    simp [notEnd, notPositional, matched, wanting]
  | case8 fs arg notEnd notPositional flag value matched wanting text rest fault set_eq =>
    rw [parseFrom]
    simp [notEnd, notPositional, matched, wanting, set_eq]
  | case9 fs arg notEnd notPositional flag value matched wanting text rest new set_eq ih =>
    rw [parseFrom]
    simp [notEnd, notPositional, matched, wanting, set_eq, ih]

end After

section Account

/-- A command line meets the end of the flags: two dashes follow arguments that are accepted by
themselves, so that they are not the value of a flag. -/
def MeetsEnd (fs : FlagSet) (arguments : List String) : Prop :=
  ∃ front rest, arguments = front ++ "--" :: rest ∧ (fs.parse front).2 = none

theorem meetsEnd_iff {fs : FlagSet} {arguments : List String} :
    fs.MeetsEnd arguments ↔
      ∃ n < arguments.length, arguments[n]? = some "--" ∧
        (fs.parse (arguments.take n)).2 = none := by
  constructor
  · rintro ⟨front, rest, rfl, accepted⟩
    exact ⟨front.length, by simp, by simp, by simpa using accepted⟩
  · rintro ⟨n, bound, isEnd, accepted⟩
    refine ⟨arguments.take n, arguments.drop (n + 1), ?_, accepted⟩
    rw [List.getElem?_eq_getElem bound] at isEnd
    rw [← Option.some.inj isEnd, ← List.drop_eq_getElem_cons bound, List.take_append_drop]

instance (fs : FlagSet) (arguments : List String) : Decidable (fs.MeetsEnd arguments) :=
  decidable_of_iff _ meetsEnd_iff.symm

/-- What became of the arguments of a command line that led from one flag set to another. -/
structure Accounts (fs : FlagSet) (arguments : List String) (pieces : List Piece)
    (fs' : FlagSet) : Prop where
  /-- Every argument belongs to one piece. -/
  words : pieces.flatMap Piece.words = arguments
  fits : ∀ piece ∈ pieces, fs.Fits piece
  last : ∀ piece ∈ pieces.dropLast, ¬ piece.IsEnding
  args : fs'.args = pieces.flatMap Piece.keeps
  /-- Every flag was given the texts meant for it, one after another. -/
  flags : ∀ name flag, fs.find? name = some flag →
    ∃ flag', (pieces.flatMap (Piece.gives name)).foldlM Flag.set flag = .ok flag' ∧
      fs'.find? name = some flag'
  alike : fs.Alike fs'
  ended : (∃ piece ∈ pieces, piece.IsEnding) ↔ fs.MeetsEnd arguments

variable {fs fs' fs₁ : FlagSet} {pieces : List Piece}

theorem ReadsAll.alike (read : ReadsAll fs pieces fs') : fs.Alike fs' := by
  induction read with
  | nil => exact .refl _
  | cons reads _ _ ih => exact reads.alike.trans ih

theorem ReadsAll.fits (read : ReadsAll fs pieces fs') : ∀ piece ∈ pieces, fs.Fits piece := by
  induction read with
  | nil => simp
  | cons reads _ _ ih =>
    refine List.forall_mem_cons.mpr ⟨reads.fits, fun piece isLater => ?_⟩
    exact (reads.alike.fits_iff piece).mp (ih piece isLater)

theorem ReadsAll.last (read : ReadsAll fs pieces fs') :
    ∀ piece ∈ pieces.dropLast, ¬ piece.IsEnding := by
  induction read with
  | nil => simp
  | @cons _ _ _ piece pieces _ last _ ih =>
    cases pieces with
    | nil => simp
    | cons next rest =>
      refine List.forall_mem_cons.mpr ⟨fun isEnding => ?_, ih⟩
      cases last isEnding

/-- Before two dashes that end the flags stand arguments that are accepted by themselves. -/
theorem ReadsAll.exists_front (read : ReadsAll fs pieces fs')
    (ended : ∃ piece ∈ pieces, piece.IsEnding) :
    ∃ front rest, pieces.flatMap Piece.words = front ++ "--" :: rest ∧
      (fs.parseFrom front).2 = none := by
  induction read with
  | nil => simp at ended
  | @cons fs fs₁ fs' piece pieces reads last _ ih =>
    by_cases isEnding : piece.IsEnding
    · cases last isEnding
      obtain ⟨args, rfl⟩ := isEnding
      exact ⟨[], args, List.append_nil _, rfl⟩
    · have endedLater : ∃ piece ∈ pieces, piece.IsEnding := by simpa [isEnding] using ended
      obtain ⟨front, rest, words_eq, accepted⟩ := ih endedLater
      refine ⟨piece.words ++ front, rest, ?_, ?_⟩
      · rw [List.flatMap_cons, words_eq, List.append_assoc]
      · rwa [reads.parseFrom_eq fun isEnding' => absurd isEnding' isEnding]

/-- No piece but the last is cut by two dashes that follow an accepted front. -/
theorem Reads.words_ne_append {piece : Piece} (reads : fs.Reads piece fs₁)
    (unended : ¬ piece.IsEnding) {front cut : List String}
    (accepted : (fs.parseFrom front).2 = none) : piece.words ≠ front ++ "--" :: cut := by
  intro words_eq
  cases reads with
  | kept notEnd =>
    obtain ⟨rfl, same⟩ | ⟨-, impossible⟩ := List.singleton_eq_append_iff.mp words_eq
    · exact notEnd (List.head_eq_of_cons_eq same.symm)
    · cases impossible
  | flag isFlag =>
    obtain ⟨rfl, same⟩ | ⟨-, impossible⟩ := List.singleton_eq_append_iff.mp words_eq
    · exact isFlag.1 (List.head_eq_of_cons_eq same.symm)
    · cases impossible
  | flagWith isFlag asks =>
    cases front with
    | nil => exact isFlag.1 (List.head_eq_of_cons_eq words_eq)
    | cons arg rest =>
      -- here the front ends with the flag, which still wants its value
      obtain ⟨rfl, value_eq⟩ := List.cons.inj words_eq
      obtain ⟨rfl, -⟩ | ⟨-, impossible⟩ := List.singleton_eq_append_iff.mp value_eq
      · rw [parseFrom_wanting isFlag asks] at accepted
        cases accepted
      · cases impossible
  | ending args => exact unended ⟨args, rfl⟩

/-- Where an accepted front is followed by two dashes, they end the flags. -/
theorem ReadsAll.exists_ending (read : ReadsAll fs pieces fs') {front rest : List String}
    (words_eq : pieces.flatMap Piece.words = front ++ "--" :: rest)
    (accepted : (fs.parseFrom front).2 = none) : ∃ piece ∈ pieces, piece.IsEnding := by
  induction read generalizing front with
  | nil => simp at words_eq
  | @cons fs fs₁ fs' piece pieces reads last _ ih =>
    by_cases isEnding : piece.IsEnding
    · exact ⟨piece, List.mem_cons_self, isEnding⟩
    · have step : ∃ front', front = piece.words ++ front' ∧
          pieces.flatMap Piece.words = front' ++ "--" :: rest := by
        rw [List.flatMap_cons] at words_eq
        rcases List.append_eq_append_iff.mp words_eq with found | ⟨cut, cut_eq, rest_eq⟩
        · exact found
        · cases cut with
          | nil => exact ⟨[], by simpa using cut_eq.symm, by simpa using rest_eq.symm⟩
          | cons word cut =>
            cases (List.cons.inj rest_eq).1
            exact absurd cut_eq (reads.words_ne_append isEnding accepted)
      obtain ⟨front', rfl, later_eq⟩ := step
      rw [reads.parseFrom_eq fun isEnding' => absurd isEnding' isEnding] at accepted
      obtain ⟨found, isLater, isEnding⟩ := ih later_eq accepted
      exact ⟨found, List.mem_cons_of_mem _ isLater, isEnding⟩

/-- A command line that is accepted can be accounted for. -/
theorem exists_accounts {arguments : List String} (parsed : fs.parse arguments = (fs', none)) :
    ∃ pieces, fs.Accounts arguments pieces fs' := by
  obtain ⟨pieces, words_eq, read⟩ := exists_readsAll parsed
  refine ⟨pieces, words_eq, read.fits, read.last, read.args_eq, fun _ _ => read.found,
    (alike_args fs []).trans read.alike, fun ended => ?_, ?_⟩
  · rw [← words_eq]
    exact read.exists_front ended
  · rintro ⟨front, rest, arguments_eq, accepted⟩
    exact read.exists_ending (words_eq.trans arguments_eq) accepted

/-- A command line that does not meet the end of the flags can be continued. -/
theorem parse_append {xs : List String} (parsed : fs.parse xs = (fs₁, none))
    (unended : ¬ fs.MeetsEnd xs) (ys : List String) :
    fs.parse (xs ++ ys) = fs₁.parseFrom ys := by
  obtain ⟨pieces, words_eq, read⟩ := exists_readsAll parsed
  have noEnding : ∀ piece ∈ pieces, ¬ piece.IsEnding := by
    intro piece isPiece isEnding
    apply unended
    rw [← words_eq]
    exact read.exists_front ⟨piece, isPiece, isEnding⟩
  rw [← words_eq]
  exact read.parseFrom_append noEnding ys

/-- **Command lines are read piece by piece, and nothing is lost.** If a line is accepted and does
not meet the end of the flags, then reading it with another line behind it gives the same faults and
the same flags as reading the two one after the other, and keeps the arguments of the first and then
those of the second. And whatever is accepted is accounted for. -/
theorem parse_is_compositional {xs : List String} (parsed : fs.parse xs = (fs₁, none))
    (unended : ¬ fs.MeetsEnd xs) (ys : List String) :
    fs.parse (xs ++ ys) = ((fs₁.parse ys).1.after fs₁.args, (fs₁.parse ys).2) ∧
      ∀ arguments fs', fs.parse arguments = (fs', none) →
        ∃ pieces, fs.Accounts arguments pieces fs' := by
  refine ⟨?_, fun _ _ accepted => exists_accounts accepted⟩
  have resumed : { fs₁ with args := [] }.after fs₁.args = fs₁ := by
    rw [after, List.append_nil]
  calc fs.parse (xs ++ ys) = fs₁.parseFrom ys := parse_append parsed unended ys
    _ = ({ fs₁ with args := [] }.after fs₁.args).parseFrom ys := by rw [resumed]
    _ = ((fs₁.parse ys).1.after fs₁.args, (fs₁.parse ys).2) := parseFrom_after _ _ _

/-- Flags of every kind. -/
def assortedFlags : FlagSet :=
  (({} : FlagSet).defineAll
    [.ofDefault "output" "o" "" "file" (.text "a.s"), .ofDefault "dump" "d" "" "" (.switch false),
      .ofDefault "frame" "" "" "bytes" (.number 1024), .ofDefault "reg" "r" "" "name" (.list [])]).1

/-- A line in which two dashes are the value of a flag. -/
def dashedLine : List String :=
  ["-oprog.s", "in.ll", "-d", "--frame", "64", "-r", "--"]

theorem parse_is_compositional_dashed :
    ¬ assortedFlags.MeetsEnd dashedLine ∧
      (assortedFlags.parse (dashedLine ++ ["--reg=s2", "-", "--", "-z"])).2 = none ∧
      (assortedFlags.parse (dashedLine ++ ["--reg=s2", "-", "--", "-z"])).1.args =
        ["in.ll", "-", "-z"] := by
  have parsed : assortedFlags.parse dashedLine = ((assortedFlags.parse dashedLine).1, none) := by
    decide +kernel
  have unended : ¬ assortedFlags.MeetsEnd dashedLine := by decide +kernel
  rw [(parse_is_compositional parsed unended _).1]
  exact ⟨unended, by decide +kernel⟩

end Account

end RiscBackend.Cli.FlagSet
