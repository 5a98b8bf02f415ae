/-
# The lines of a program text

Reading the text of a program line by line gives back its statements, as long as no
name holds a blank or the end of a line. So running the text of a function is running
its statements, where a temporary is known by its text.

Mathlib is imported whole because no part of it brings in the lemma on reading a written
integer, `Int.toInt?_repr`.
-/

import Mathlib
import RiscBackend.Proofs.Qbe.Interpreter
import RiscBackend.Qbe.Text

namespace RiscBackend.Qbe

/-- Whether a text stays in one piece when a line is cut into words and a program into
lines. -/
def Plain (text : String) : Prop :=
  ' ' ∉ text.toList ∧ '\n' ∉ text.toList

instance (text : String) : Decidable (Plain text) :=
  inferInstanceAs (Decidable (_ ∧ _))

theorem plain_append {a b : String} : Plain (a ++ b) ↔ Plain a ∧ Plain b := by
  simp only [Plain, String.toList_append, List.mem_append]
  tauto

/-- Cutting a text into words is the inverse of writing them with blanks between. -/
theorem pieces_intercalate {words : List String} (nonempty : words ≠ [])
    (plain : ∀ word ∈ words, Plain word) : pieces ' ' (" ".intercalate words) = words := by
  have cut : (" ".intercalate words).toList.splitOn ' ' = words.map String.toList := by
    rw [String.toList_intercalate]
    refine List.splitOn_intercalate ' ' ?_ (by simpa using nonempty)
    simpa using fun word isWord => (plain word isWord).1
  rw [pieces, cut, List.map_map]
  simp [Function.comp_def]

/-- Cutting a text at the ends of its lines gives the lines, and the empty text after the
last of them. -/
theorem pieces_lines {lines : List String} (plain : ∀ line ∈ lines, '\n' ∉ line.toList) :
    pieces '\n' (String.join (lines.map (· ++ "\n"))) = lines ++ [""] := by
  have cut : (String.join (lines.map (· ++ "\n"))).toList.splitOn '\n' =
      (lines ++ [""]).map String.toList := by
    rw [String.toList_join]
    induction lines with
    | nil => rfl
    | cons line rest ih =>
      rw [List.forall_mem_cons] at plain
      have within : ∀ c ∈ line.toList, (c == '\n') = false := by
        intro c inLine
        rw [beq_eq_false_iff_ne]
        rintro rfl
        exact plain.1 inLine
      have split := List.splitOnP_append_cons_of_forall_mem within '\n' (by decide)
        ((rest.map (· ++ "\n")).flatMap String.toList)
      have rest_eq := ih plain.2
      rw [List.splitOn] at rest_eq ⊢
      simpa [rest_eq] using split
  rw [pieces, cut, List.map_map]
  simp [Function.comp_def]

/-- The words of a statement other than a label. -/
def Stmt.words : Stmt → List String
  | label _ => []
  | arith target op a b => [target.text, "=w", Asm.arithMnemonic op, a.text ++ ",", b.text]
  | copy target value => [target.text, "=w", "copy", value.text]
  | loadw target global => [target.text, "=w", "loadw", "$" ++ global]
  | storew value global => ["storew", value.text ++ ",", "$" ++ global]
  | ret value => ["ret", value.text]

/-- The line of a statement. -/
def Stmt.line : Stmt → String
  | label name => "@" ++ name
  | stmt => "\t" ++ " ".intercalate stmt.words

/-- Whether the line of a statement can be cut into what it was made from. -/
def Stmt.Plain : Stmt → Prop
  | label name => Qbe.Plain name
  | arith target _ a b => Qbe.Plain target.text ∧ Qbe.Plain a.text ∧ Qbe.Plain b.text
  | copy target value => Qbe.Plain target.text ∧ Qbe.Plain value.text
  | loadw target global => Qbe.Plain target.text ∧ Qbe.Plain global
  | storew value global => Qbe.Plain value.text ∧ Qbe.Plain global
  | ret value => Qbe.Plain value.text

theorem Stmt.Plain.words {stmt : Stmt} (plain : stmt.Plain) :
    ∀ word ∈ stmt.words, Qbe.Plain word := by
  have comma : Qbe.Plain "," := by decide
  have dollar : Qbe.Plain "$" := by decide
  have assigns : Qbe.Plain "=w" := by decide
  cases stmt with
  | label name => simp [Stmt.words]
  | arith target op a b =>
    have mnemonic : Qbe.Plain (Asm.arithMnemonic op) := by
      cases op <;> decide
    simp [Stmt.words, plain_append, comma, assigns, mnemonic, plain.1, plain.2.1, plain.2.2]
  | copy target value =>
    have mnemonic : Qbe.Plain "copy" := by decide
    simp [Stmt.words, assigns, mnemonic, plain.1, plain.2]
  | loadw target global =>
    have mnemonic : Qbe.Plain "loadw" := by decide
    simp [Stmt.words, plain_append, dollar, assigns, mnemonic, plain.1, plain.2]
  | storew value global =>
    have mnemonic : Qbe.Plain "storew" := by decide
    simp [Stmt.words, plain_append, dollar, comma, mnemonic, plain.1, plain.2]
  | ret value =>
    have mnemonic : Qbe.Plain "ret" := by decide
    simpa [Stmt.words, mnemonic] using show Qbe.Plain value.text from plain

theorem Stmt.text_eq (stmt : Stmt) : stmt.text = stmt.line ++ "\n" := by
  apply String.toList_inj.mp
  cases stmt with
  | _ => simp [text, line, words]

@[simp]
theorem beforeComma?_append (text : String) : beforeComma? (text ++ ",") = some text := by
  simp [beforeComma?]

@[simp]
theorem operation?_arithMnemonic (op : IR.ArithOp) :
    operation? (Asm.arithMnemonic op) = some op := by
  cases op <;> simp [operation?, Asm.arithMnemonic]

@[simp]
theorem isTemp_text (temp : Temp) : isTemp temp.text = true := by
  cases temp <;> simp [isTemp, Temp.text]

/-- What a statement does, when temporaries are known by their texts. -/
def State.step? (t : State) : Stmt → Option Progress
  | .label _ => some (.running t)
  | .arith target op a b =>
    (do op.eval? (← t.word? a.text) (← t.word? b.text)).map fun word =>
      .running (t.setTemp target.text word)
  | .copy target value => (t.word? value.text).map fun word => .running (t.setTemp target.text word)
  | .loadw target global =>
    (t.data ("$" ++ global)).map fun word => .running (t.setTemp target.text word)
  | .storew value global => t.store? (t.word? value.text) ("$" ++ global)
  | .ret value => (t.word? value.text).map fun word => .returned word t

/-- A line after a tab is cut into the words that it was made from. -/
theorem execute?_words (t : State) {words : List String} (nonempty : words ≠ [])
    (plain : ∀ word ∈ words, Plain word) :
    t.execute? ("\t" ++ " ".intercalate words) = t.perform? words := by
  have line_eq : ("\t" ++ " ".intercalate words).toList =
      '\t' :: (" ".intercalate words).toList := by
    simp
  simp only [State.execute?, line_eq, String.ofList_toList, pieces_intercalate nonempty plain]

/-- **Running the line of a statement is performing the statement.** -/
theorem execute?_line (t : State) {stmt : Stmt} (plain : stmt.Plain) :
    t.execute? stmt.line = t.step? stmt := by
  cases stmt with
  | label name => simp [Stmt.line, State.execute?, State.step?]
  | arith target op a b =>
    refine (execute?_words t (by simp [Stmt.words]) plain.words).trans ?_
    simp [Stmt.words, State.perform?, State.step?, State.assign?]
  | copy target value =>
    refine (execute?_words t (by simp [Stmt.words]) plain.words).trans ?_
    simp [Stmt.words, State.perform?, State.step?, State.assign?]
  | loadw target global =>
    refine (execute?_words t (by simp [Stmt.words]) plain.words).trans ?_
    simp [Stmt.words, State.perform?, State.step?, State.assign?]
  | storew value global =>
    refine (execute?_words t (by simp [Stmt.words]) plain.words).trans ?_
    simp [Stmt.words, State.perform?, State.step?]
  | ret value =>
    refine (execute?_words t (by simp [Stmt.words]) plain.words).trans ?_
    simp [Stmt.words, State.perform?, State.step?]

/-- A number is written with digits and a sign. -/
theorem isDigit_or_sign_of_mem_toString {n : Int} {c : Char} (inText : c ∈ (toString n).toList) :
    c.isDigit = true ∨ c = '-' := by
  have isDigit {k : Nat} (inDigits : c ∈ k.repr.toList) : c.isDigit = true := by
    rw [Nat.toList_repr] at inDigits
    exact Nat.isDigit_of_mem_toDigits (by decide) (by decide) inDigits
  cases n with
  | ofNat k => exact .inl (isDigit inText)
  | negSucc k =>
    rcases List.mem_append.mp (String.toList_append ▸ inText) with isSign | inDigits
    · exact .inr (by simpa using isSign)
    · exact .inl (isDigit inDigits)

theorem plain_toString (n : Int) : Plain (toString n) := by
  constructor
  · intro isBlank
    exact absurd (isDigit_or_sign_of_mem_toString isBlank) (by decide)
  · intro isEnding
    exact absurd (isDigit_or_sign_of_mem_toString isEnding) (by decide)

theorem isTemp_toString (n : Int) : isTemp (toString n) = false := by
  rw [isTemp, decide_eq_false_iff_not]
  intro head
  exact absurd (isDigit_or_sign_of_mem_toString (List.mem_of_head? head)) (by decide)

/-- Words without line ends make up a line without line ends. -/
theorem newline_not_mem_intercalate {words : List String} (plain : ∀ word ∈ words, Plain word) :
    '\n' ∉ (" ".intercalate words).toList := by
  induction words with
  | nil => simp
  | cons word rest ih =>
    rw [List.forall_mem_cons] at plain
    cases rest with
    | nil => simpa using plain.1.2
    | cons next rest =>
      have later := ih plain.2
      rw [String.intercalate_cons_cons, String.toList_append, String.toList_append]
      simp only [List.mem_append, not_or]
      exact ⟨⟨plain.1.2, by decide⟩, later⟩

theorem Stmt.newline_not_mem_line {stmt : Stmt} (plain : stmt.Plain) :
    '\n' ∉ stmt.line.toList := by
  cases stmt with
  | label name => simpa [line] using plain.2
  | _ =>
    have inWords := newline_not_mem_intercalate plain.words
    rw [line, String.toList_append]
    · simpa using inWords
    · simp

/-- The line of a word of data. -/
def dataLine (g : IR.Global) : String :=
  " ".intercalate ["data", "$" ++ g.name, "=", "\x7b", "w", toString g.value.toInt, "\x7d"]

/-- The lines of a function, from the empty line before its header. -/
def Func.lines (f : Func) : List String :=
  "" :: headerOf f.name :: f.body.map Stmt.line ++ ["\x7d"]

/-- The lines of a program. -/
def Program.lines (p : Program) : List String :=
  p.data.map dataLine ++ p.funcs.flatMap Func.lines

theorem dataText_eq (g : IR.Global) : dataText g = dataLine g ++ "\n" := by
  apply String.toList_inj.mp
  simp [dataText, dataLine]

theorem headerOf_eq (name : String) :
    headerOf name = "export function w $" ++ name ++ "() \x7b" := rfl

theorem Func.text_eq (f : Func) : f.text = String.join (f.lines.map (· ++ "\n")) := by
  have body_eq : f.body.map Stmt.text = (f.body.map Stmt.line).map (· ++ "\n") := by
    rw [List.map_map]
    exact List.map_congr_left fun stmt _ => stmt.text_eq
  have opening (name : String) : "\nexport function w $" ++ name ++ "() \x7b\n" =
      "\n" ++ ("export function w $" ++ name ++ "() \x7b" ++ "\n") := by
    apply String.toList_inj.mp
    simp
  change "\nexport function w $" ++ f.name ++ "() \x7b\n" ++ String.join (f.body.map Stmt.text) ++
    "\x7d\n" = _
  rw [body_eq, opening, ← headerOf_eq, lines]
  generalize headerOf f.name = header
  apply String.toList_inj.mp
  simp

theorem Program.text_eq (p : Program) : p.text = String.join (p.lines.map (· ++ "\n")) := by
  apply String.toList_inj.mp
  simp [text, lines, dataText_eq, Func.text_eq, List.flatMap_map, List.map_flatMap,
    List.flatMap_assoc]

/-- Whether reading the text of a program gives back its parts. -/
structure Program.Plain (p : Program) : Prop where
  data : ∀ g ∈ p.data, Qbe.Plain g.name
  names : ∀ f ∈ p.funcs, Qbe.Plain f.name
  body : ∀ f ∈ p.funcs, ∀ stmt ∈ f.body, stmt.Plain
  nodup : (p.funcs.map Func.name).Nodup

theorem plain_dataWords {g : IR.Global} (plain : Plain g.name) :
    ∀ word ∈ ["data", "$" ++ g.name, "=", "\x7b", "w", toString g.value.toInt, "\x7d"],
      Plain word := by
  simp only [List.forall_mem_cons, plain_append]
  exact ⟨by decide, ⟨by decide, plain⟩, by decide, by decide, by decide, plain_toString _,
    by decide, by simp⟩

theorem Program.Plain.newline_not_mem {p : Program} (plain : p.Plain) :
    ∀ line ∈ p.lines, '\n' ∉ line.toList := by
  intro line isLine
  rcases List.mem_append.mp isLine with isData | inFunc
  · obtain ⟨g, isGlobal, rfl⟩ := List.mem_map.mp isData
    exact newline_not_mem_intercalate (plain_dataWords (plain.data g isGlobal))
  · obtain ⟨f, isFunc, isLine⟩ := List.mem_flatMap.mp inFunc
    simp only [Func.lines, List.cons_append, List.mem_cons, List.mem_append, List.mem_map,
      List.not_mem_nil, or_false] at isLine
    rcases isLine with rfl | rfl | ⟨stmt, inBody, rfl⟩ | rfl
    · decide
    · simpa [headerOf_eq] using (plain.names f isFunc).2
    · exact stmt.newline_not_mem_line (plain.body f isFunc stmt inBody)
    · decide

/-- The first characters that tell the lines of a program apart. -/
theorem Stmt.head?_line (stmt : Stmt) :
    stmt.line.toList.head? = some '@' ∨ stmt.line.toList.head? = some '\t' := by
  cases stmt with
  | label name => exact .inl (by simp [line])
  | _ => exact .inr (by simp [line])

theorem head?_headerOf (name : String) : (headerOf name).toList.head? = some 'e' := by
  simp [headerOf_eq]

theorem head?_dataLine (g : IR.Global) : (dataLine g).toList.head? = some 'd' := by
  simp [dataLine]

theorem headerOf_inj {a b : String} : headerOf a = headerOf b ↔ a = b := by
  simp [headerOf_eq]

/-- A line of a function is the header of the function, and of no other. -/
theorem Func.eq_name_of_mem_lines {f : Func} {name : String} (isHeader : headerOf name ∈ f.lines) :
    f.name = name := by
  have head := head?_headerOf name
  simp only [lines, List.cons_append, List.mem_cons, List.mem_append, List.mem_map,
    List.not_mem_nil, or_false] at isHeader
  rcases isHeader with same | same | ⟨stmt, -, same⟩ | same
  · simp [same] at head
  · exact (headerOf_inj.mp same).symm
  · rcases stmt.head?_line with isLabel | isTabbed
    · simp [← same, isLabel] at head
    · simp [← same, isTabbed] at head
  · simp [same] at head

/-- The lines of a function are found between its header and the closing brace. -/
theorem bodyOf_lines {p : Program} {f : Func} (nodup : (p.funcs.map Func.name).Nodup)
    (isFunc : f ∈ p.funcs) (later : List String) :
    bodyOf (p.lines ++ later) f.name = f.body.map Stmt.line := by
  obtain ⟨before, after, funcs_eq⟩ := List.append_of_mem isFunc
  let earlier := p.data.map dataLine ++ before.flatMap Func.lines ++ [""]
  have lines_eq : p.lines ++ later = earlier ++ headerOf f.name ::
      (f.body.map Stmt.line ++ "\x7d" :: (after.flatMap Func.lines ++ later)) := by
    simp [Program.lines, funcs_eq, Func.lines, earlier]
  have notEarlier : ∀ line ∈ earlier, decide (line ≠ headerOf f.name) = true := by
    intro line isEarlier
    rw [decide_eq_true_iff]
    rintro rfl
    simp only [earlier, List.mem_append, List.mem_map, List.mem_flatMap,
      List.mem_singleton] at isEarlier
    rcases isEarlier with (⟨g, -, same⟩ | ⟨other, isBefore, isHeader⟩) | same
    · have head := head?_headerOf f.name
      simp [← same, head?_dataLine] at head
    · rw [funcs_eq, List.map_append, List.map_cons] at nodup
      have sameName := other.eq_name_of_mem_lines isHeader
      exact (List.disjoint_of_nodup_append nodup) (List.mem_map_of_mem isBefore)
        (sameName ▸ List.mem_cons_self)
    · have head := head?_headerOf f.name
      simp [same] at head
  have inBody : ∀ line ∈ f.body.map Stmt.line, decide (line ≠ "\x7d") = true := by
    intro line isLine
    obtain ⟨stmt, -, rfl⟩ := List.mem_map.mp isLine
    rw [decide_eq_true_iff]
    intro same
    rcases stmt.head?_line with head | head <;> simp [same] at head
  rw [bodyOf, lines_eq, List.dropWhile_append_of_pos notEarlier,
    List.dropWhile_cons_of_neg (by simp), List.drop_one, List.tail_cons,
    List.takeWhile_append_of_pos inBody, List.takeWhile_cons_of_neg (by simp), List.append_nil]

/-- Only a line that starts with the word for data gives data. -/
theorem dataWord?_eq_none {line : String} (head : line.toList.head? ≠ some 'd') :
    dataWord? line = none := by
  rw [dataWord?]
  split
  · rename_i symbol value words_eq
    have cut := congrArg (List.map String.toList) words_eq
    simp only [pieces, List.map_map, Function.comp_def, String.toList_ofList, List.map_id'] at cut
    have line_eq : [' '].intercalate (line.toList.splitOn ' ') = line.toList :=
      List.intercalate_splitOn ' '
    rw [cut] at line_eq
    refine absurd ?_ head
    rw [← line_eq]
    simp [List.intercalate]
  · rfl

theorem dataWord?_dataLine {g : IR.Global} (plain : Plain g.name) :
    dataWord? (dataLine g) = some ("$" ++ g.name, g.value) := by
  rw [dataWord?, dataLine, pieces_intercalate (by simp) (plain_dataWords plain)]
  simp [Int.toInt?_repr]

/-- The lines of a program give its data and no other. -/
theorem filterMap_dataWord? {p : Program} (plain : p.Plain) :
    (p.lines ++ [""]).filterMap dataWord? = p.data.map fun g => ("$" ++ g.name, g.value) := by
  have ofData : (p.data.map dataLine).filterMap dataWord? =
      p.data.map fun g => ("$" ++ g.name, g.value) := by
    rw [List.filterMap_map, ← List.filterMap_eq_map]
    refine List.filterMap_congr fun g isGlobal => ?_
    rw [Function.comp_apply, dataWord?_dataLine (plain.data g isGlobal), Function.comp_apply]
  have ofFuncs : (p.funcs.flatMap Func.lines ++ [""]).filterMap dataWord? = [] := by
    rw [List.filterMap_eq_nil_iff]
    intro line isLine
    refine dataWord?_eq_none ?_
    simp only [List.mem_append, List.mem_flatMap, Func.lines, List.cons_append, List.mem_cons,
      List.mem_map, List.not_mem_nil, or_false] at isLine
    rcases isLine with ⟨f, -, rfl | rfl | ⟨stmt, -, rfl⟩ | rfl⟩ | rfl
    · decide
    · simp [head?_headerOf]
    · rcases stmt.head?_line with head | head <;> simp [head]
    · decide
    · decide
  rw [Program.lines, List.append_assoc, List.filterMap_append, ofData, ofFuncs, List.append_nil]

/-- The words of the symbols before a program runs. -/
def Program.initialData (p : Program) (symbol : String) : Option Int32 :=
  ((p.data.map fun g => ("$" ++ g.name, g.value)).find? fun entry => entry.1 = symbol).map Prod.snd

theorem runAll?_map {α β : Type} {step? : State → β → Option Progress}
    {step?' : State → α → Option Progress} {f : α → β} {as : List α}
    (same : ∀ a ∈ as, ∀ t, step? t (f a) = step?' t a) (t : State) :
    runAll? step? t (as.map f) = runAll? step?' t as := by
  induction as generalizing t with
  | nil => rfl
  | cons a rest ih =>
    rw [List.forall_mem_cons] at same
    rw [List.map_cons, runAll?, runAll?, same.1]
    split
    · exact ih same.2 _
    · rfl

/-- **Running the text of a function is running its statements.** -/
theorem interpret?_text {p : Program} {f : Func} (plain : p.Plain) (isFunc : f ∈ p.funcs) :
    interpret? p.text f.name =
      (runAll? State.step? { data := p.initialData } f.body).bind Progress.result? := by
  have data_eq : dataOf (p.lines ++ [""]) = p.initialData := by
    funext symbol
    rw [dataOf, filterMap_dataWord? plain, Program.initialData]
  rw [interpret?, p.text_eq, pieces_lines plain.newline_not_mem, data_eq,
    bodyOf_lines plain.nodup isFunc]
  rw [runAll?_map fun stmt inBody t => execute?_line t (plain.body f isFunc stmt inBody)]

end RiscBackend.Qbe
