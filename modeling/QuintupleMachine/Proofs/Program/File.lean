import Mathlib.Data.List.Basic
import QuintupleMachine.Program.File
import QuintupleMachine.Proofs.Tape

/-! # What a program file says

A program file is cut into lines, blanks at their ends do not count, and neither do empty lines and
comments.  What is left are headers for the name, headers for the tape, and letters, and only the
order within each of these kinds matters (`read_eq_of_kinds`).

The first tape in the file that cannot be read is reported, even if a later one would replace it;
then the letters are read; then the last header of each kind counts (`read_spec`). -/

namespace QuintupleMachine

/-! ## Lines -/

namespace Text

theorem linesFrom_eq (line cs : List Char) :
    linesFrom line cs = (cs.splitOn '\n').modifyHead (line.reverse ++ ·) := by
  induction cs generalizing line with
  | nil => simp [linesFrom, List.splitOn_eq_splitOnP]
  | cons c cs ih =>
    rw [linesFrom, ih, ih, List.splitOn_eq_splitOnP, List.splitOn_eq_splitOnP,
      List.splitOnP_cons_eq_if_modifyHead]
    by_cases hc : c = '\n'
    · rw [if_pos hc, if_pos (beq_iff_eq.2 hc)]
      cases List.splitOnP (· == '\n') cs <;> simp
    · rw [if_neg hc, if_neg (fun h => hc (beq_iff_eq.1 h)), List.modifyHead_modifyHead]
      congr 1
      funext front
      simp

/-- Lines are what line feeds separate. -/
theorem lines_eq_splitOn (cs : List Char) : lines cs = cs.splitOn '\n' := by
  rw [lines, linesFrom_eq]
  cases cs.splitOn '\n' <;> rfl

theorem after?_eq (start text : List Char) :
    after? start text = if start <+: text then some (text.drop start.length) else none := by
  simp only [after?, List.isPrefixOf_iff_prefix]

end Text

namespace Program

/-- The word that begins a header for the name. -/
def nameWord : List Char := ['n', 'a', 'm', 'e', ':']

/-- The word that begins a header for the tape. -/
def tapeWord : List Char := ['t', 'a', 'p', 'e', ':']

/-- The lines of a text, without the blanks at their ends, that are neither empty nor comments. -/
def statements (content : String) : List (List Char) :=
  ((content.toList.splitOn '\n').map Text.trim).filter fun line =>
    line ≠ [] ∧ line.head? ≠ some '#'

/-- The values of the headers that begin with a word. -/
def headers (word : List Char) (content : String) : List (List Char) :=
  (statements content).filterMap fun line =>
    if word <+: line then some (Text.trim (line.drop word.length)) else none

/-- The lines that are no headers, one behind the other and without any blanks. -/
def letters (content : String) : List Char :=
  (statements content).flatMap fun line =>
    if nameWord <+: line ∨ tapeWord <+: line then [] else line.filter fun c => !Text.isBlank c

/-! ## What a line says -/

namespace Line

/-- The name that a line gives. -/
def name? : Line → Option (List Char)
  | name value => some value
  | _ => none

/-- The tape that a line gives. -/
def tape? : Line → Option (List Char)
  | tape value => some value
  | _ => none

/-- The letters that a line adds. -/
def text : Line → List Char
  | letters text => text
  | _ => []

/-- What a line says that is neither empty nor a comment and has no blanks at its ends. -/
def ofStatement (line : List Char) : Line :=
  if nameWord <+: line then name (Text.trim (line.drop nameWord.length))
  else if tapeWord <+: line then tape (Text.trim (line.drop tapeWord.length))
  else letters (Text.squeeze line)

theorem ofText?_eq (line : List Char) :
    ofText? line =
      if Text.trim line ≠ [] ∧ (Text.trim line).head? ≠ some '#' then
        some (ofStatement (Text.trim line))
      else none := by
  unfold ofText?
  cases Text.trim line with
  | nil => rfl
  | cons c cs =>
    have hname : ['n', 'a', 'm', 'e', ':'] = nameWord := rfl
    have htape : ['t', 'a', 'p', 'e', ':'] = tapeWord := rfl
    simp only [hname, htape, Text.after?_eq, ofStatement]
    by_cases hc : c = '#'
    · simp [hc]
    · have hsays : c :: cs ≠ [] ∧ (c :: cs).head? ≠ some '#' := by simp [hc]
      rw [if_neg hc, if_pos hsays]
      by_cases h : nameWord <+: c :: cs
      · simp only [if_pos h]
      · by_cases h' : tapeWord <+: c :: cs
        · simp only [if_neg h, if_pos h']
        · simp only [if_neg h, if_neg h']

/-- No line begins with the words of both headers. -/
theorem not_nameWord_of_tapeWord {line : List Char} (h : tapeWord <+: line) :
    ¬ nameWord <+: line := by
  intro hname
  obtain ⟨rest, rfl⟩ := h
  simp [nameWord, tapeWord] at hname

theorem name?_ofStatement (line : List Char) :
    (ofStatement line).name? =
      if nameWord <+: line then some (Text.trim (line.drop nameWord.length)) else none := by
  unfold ofStatement
  split
  · rfl
  · split <;> rfl

theorem tape?_ofStatement (line : List Char) :
    (ofStatement line).tape? =
      if tapeWord <+: line then some (Text.trim (line.drop tapeWord.length)) else none := by
  unfold ofStatement
  split
  · next hname => rw [if_neg (fun htape => not_nameWord_of_tapeWord htape hname)]; rfl
  · split <;> rfl

theorem text_ofStatement (line : List Char) :
    (ofStatement line).text =
      if nameWord <+: line ∨ tapeWord <+: line then []
      else line.filter fun c => !Text.isBlank c := by
  unfold ofStatement
  split
  · next hname => rw [if_pos (.inl hname)]; rfl
  · next hname =>
    split
    · next htape => rw [if_pos (.inr htape)]; rfl
    · next htape => rw [if_neg (not_or.2 ⟨hname, htape⟩)]; rfl

end Line

theorem linesOf_eq (content : String) :
    linesOf content = (statements content).map Line.ofStatement := by
  rw [linesOf, Text.lines_eq_splitOn, statements]
  induction content.toList.splitOn '\n' with
  | nil => rfl
  | cons line lines ih =>
    rw [List.filterMap_cons, Line.ofText?_eq, List.map_cons, List.filter_cons, ih]
    by_cases hsays : Text.trim line ≠ [] ∧ (Text.trim line).head? ≠ some '#'
    · rw [if_pos hsays, if_pos (decide_eq_true hsays)]
      rfl
    · rw [if_neg hsays, if_neg (by simpa using hsays)]

/-! ## The lines of a kind -/

theorem names_linesOf (content : String) :
    (linesOf content).filterMap Line.name? = headers nameWord content := by
  rw [linesOf_eq, List.filterMap_map, headers]
  exact List.filterMap_congr fun line _ => Line.name?_ofStatement line

theorem tapes_linesOf (content : String) :
    (linesOf content).filterMap Line.tape? = headers tapeWord content := by
  rw [linesOf_eq, List.filterMap_map, headers]
  exact List.filterMap_congr fun line _ => Line.tape?_ofStatement line

theorem text_linesOf (content : String) : (linesOf content).flatMap Line.text = letters content := by
  rw [linesOf_eq, List.flatMap_map, letters]
  exact List.flatMap_congr fun line _ => Line.text_ofStatement line

/-! ## Drafts -/

/-- Reads tapes one after the other until one cannot be read. -/
def checkTapes : List (List Char) → Except InvalidSymbol Unit
  | [] => .ok ()
  | value :: values => do
    let _ ← Tape.parse (String.ofList value)
    checkTapes values

theorem checkTapes_append (values more : List (List Char)) :
    checkTapes (values ++ more) = checkTapes values >>= fun _ => checkTapes more := by
  induction values with
  | nil => rfl
  | cons value values ih =>
    rw [List.cons_append, checkTapes, ih, checkTapes]
    cases Tape.parse (String.ofList value) <;> rfl

theorem checkTapes_of_written {values : List (List Char)} (h : ∀ value ∈ values, Tape.Written value) :
    checkTapes values = .ok () := by
  induction values with
  | nil => rfl
  | cons value values ih =>
    obtain ⟨hvalue, hvalues⟩ := List.forall_mem_cons.1 h
    obtain ⟨tape, htape⟩ := Tape.parse_of_written hvalue
    rw [checkTapes, htape]
    exact ih hvalues

/-- The first tape that cannot be read is reported, whatever comes behind it. -/
theorem checkTapes_of_error {before after : List (List Char)} {value : List Char}
    {e : InvalidSymbol} (hbefore : ∀ v ∈ before, Tape.Written v)
    (he : Tape.parse (String.ofList value) = .error e) :
    checkTapes (before ++ value :: after) = .error e := by
  rw [checkTapes_append, checkTapes_of_written hbefore, checkTapes, he]
  rfl

/-- Names and tapes replace what there was, and letters are added. -/
def Draft.extend (draft : Draft) (lines : List Line) : Draft where
  name := ((lines.filterMap Line.name?).getLast?.map String.ofList).getD draft.name
  tape := ((lines.filterMap Line.tape?).getLast?.map String.ofList).or draft.tape
  description := draft.description ++ String.ofList (lines.flatMap Line.text)

theorem Draft.extend_append (draft : Draft) (lines more : List Line) :
    (draft.extend lines).extend more = draft.extend (lines ++ more) := by
  simp only [extend, List.filterMap_append, List.getLast?_append, List.flatMap_append,
    String.ofList_append, String.append_assoc]
  congr 1
  · cases (more.filterMap Line.name?).getLast? <;> rfl
  · cases (more.filterMap Line.tape?).getLast? <;> rfl

theorem Draft.add_eq (draft : Draft) (line : Line) :
    draft.add line = (checkTapes line.tape?.toList).map fun _ => draft.extend [line] := by
  cases line with
  | name value => simp [add, checkTapes, extend, Line.name?, Line.tape?, Line.text, Except.map]
  | letters text => simp [add, checkTapes, extend, Line.name?, Line.tape?, Line.text, Except.map]
  | tape value =>
    rw [add, Line.tape?, Option.toList_some, checkTapes, checkTapes]
    cases Tape.parse (String.ofList value) with
    | error e => rfl
    | ok tape =>
      simp [extend, Line.name?, Line.tape?, Line.text, Except.map, bind, Except.bind]
      rfl

/-- Lines are refused for the first tape that cannot be read, and otherwise all of them count. -/
theorem Draft.addAll_eq (draft : Draft) (lines : List Line) :
    draft.addAll lines =
      (checkTapes (lines.filterMap Line.tape?)).map fun _ => draft.extend lines := by
  induction lines generalizing draft with
  | nil => simp [addAll, checkTapes, extend, Except.map]
  | cons line lines ih =>
    have htapes : (line :: lines).filterMap Line.tape? =
        line.tape?.toList ++ lines.filterMap Line.tape? := by
      cases line <;> rfl
    rw [addAll, add_eq, htapes, checkTapes_append]
    cases checkTapes line.tape?.toList with
    | error e => rfl
    | ok _ =>
      refine (ih (draft.extend [line])).trans ?_
      rw [extend_append]
      rfl

/-! ## Programs -/

/-- A program is made of the headers for its name, those for its tape, and its letters. -/
theorem read_eq (name content : String) :
    read name content =
      match checkTapes (headers tapeWord content) with
      | .error e => .ofExcept (.error (.tape e))
      | .ok _ =>
        ((Description.read (String.ofList (letters content))).mapError .description).map fun table =>
          { name := ((headers nameWord content).getLast?.map String.ofList).getD name
            description := String.ofList (letters content)
            tape := (headers tapeWord content).getLast?.map String.ofList
            table := table } := by
  rw [read, Draft.addAll_eq, tapes_linesOf]
  cases checkTapes (headers tapeWord content) with
  | error e => rfl
  | ok _ =>
    have hdraft : Draft.extend ⟨name, none, ""⟩ (linesOf content) =
        { name := ((headers nameWord content).getLast?.map String.ofList).getD name
          tape := (headers tapeWord content).getLast?.map String.ofList
          description := String.ofList (letters content) } := by
      rw [Draft.extend, names_linesOf, tapes_linesOf, text_linesOf, Option.or_none,
        String.empty_append]
    rw [Except.map, hdraft]

theorem read_eq_of_kinds {name content content' : String}
    (hnames : headers nameWord content = headers nameWord content')
    (htapes : headers tapeWord content = headers tapeWord content')
    (hletters : letters content = letters content') : read name content = read name content' := by
  rw [read_eq, read_eq, hnames, htapes, hletters]

/-! ## Files line by line -/

theorem statements_append (above below : String) :
    statements (above ++ "\n" ++ below) = statements above ++ statements below := by
  have hbreak : (above ++ "\n" ++ below).toList = above.toList ++ '\n' :: below.toList := by
    simp
  rw [statements, hbreak, List.splitOn_eq_splitOnP, List.splitOnP_append_cons _ _ (by simp),
    List.map_append, List.filter_append]
  rfl

/-- What the lines of a text say is what each of them says. -/
theorem statements_intercalate (lines : List String) :
    statements ("\n".intercalate lines) = lines.flatMap statements := by
  induction lines with
  | nil => decide
  | cons line lines ih =>
    cases lines with
    | nil => simp
    | cons next lines =>
      rw [String.intercalate_cons_cons, statements_append, ih]
      rfl

theorem headers_intercalate (word : List Char) (lines : List String) :
    headers word ("\n".intercalate lines) = lines.flatMap (headers word) := by
  rw [headers, statements_intercalate, List.filterMap_flatMap]
  rfl

theorem letters_intercalate (lines : List String) :
    letters ("\n".intercalate lines) = lines.flatMap letters := by
  rw [letters, statements_intercalate, List.flatMap_assoc]
  rfl

/-- Lines without letters and lines without headers may change places. -/
theorem read_exchange (name : String) {above silent body below : List String}
    (hsilent : ∀ line ∈ silent, letters line = [])
    (hbody : ∀ line ∈ body, headers nameWord line = [] ∧ headers tapeWord line = []) :
    read name ("\n".intercalate (above ++ silent ++ body ++ below)) =
      read name ("\n".intercalate (above ++ body ++ silent ++ below)) := by
  have hletters : silent.flatMap letters = [] := List.flatMap_eq_nil_iff.2 hsilent
  have hnames : body.flatMap (headers nameWord) = [] :=
    List.flatMap_eq_nil_iff.2 fun line hline => (hbody line hline).1
  have htapes : body.flatMap (headers tapeWord) = [] :=
    List.flatMap_eq_nil_iff.2 fun line hline => (hbody line hline).2
  apply read_eq_of_kinds
  · simp only [headers_intercalate, List.flatMap_append, hnames, List.append_nil]
  · simp only [headers_intercalate, List.flatMap_append, htapes, List.append_nil]
  · simp only [letters_intercalate, List.flatMap_append, hletters, List.append_nil]

/-! ## The order of errors -/

/-- Where all tapes can be read, the letters decide. -/
theorem result_of_written (name : String) {content : String}
    (h : ∀ value ∈ headers tapeWord content, Tape.Written value) :
    (read name content).result =
      ((Description.decode (String.ofList (letters content))).mapError Failure.description).map
        fun table =>
          { name := ((headers nameWord content).getLast?.map String.ofList).getD name
            description := String.ofList (letters content)
            tape := (headers tapeWord content).getLast?.map String.ofList
            table := table } := by
  rw [read_eq, checkTapes_of_written h, Description.decode]
  dsimp only
  rw [Reading.result_map, Reading.result_mapError]

theorem result_of_tape_error {name content : String} {before after : List (List Char)}
    {value : List Char} {e : InvalidSymbol}
    (htapes : headers tapeWord content = before ++ value :: after)
    (hbefore : ∀ v ∈ before, Tape.Written v) (he : Tape.parse (String.ofList value) = .error e) :
    (read name content).result = .error (.tape e) := by
  have hcheck : checkTapes (headers tapeWord content) = .error e :=
    htapes ▸ checkTapes_of_error hbefore he
  rw [read_eq, hcheck]
  rfl

/-- A program file is refused for the first tape in it that cannot be read, at the first character
that is not one of a tape, and otherwise for its letters.  If it is not refused, the last header of
each kind counts.  Lines that add no letters may stand anywhere among the lines that do. -/
theorem read_spec (name content : String) :
    ((¬ ∀ value ∈ headers tapeWord content, Tape.Written value) →
      ∃ before value after front c rest,
        headers tapeWord content = before ++ value :: after ∧
        (∀ v ∈ before, Tape.Written v) ∧
        value = front ++ c :: rest ∧ Tape.Written front ∧ c ∉ Tape.alphabet ∧
        (read name content).result = .error (.tape ⟨c, front.length⟩)) ∧
    ((∀ value ∈ headers tapeWord content, Tape.Written value) →
      (∀ e, Description.decode (String.ofList (letters content)) = .error e →
        (read name content).result = .error (.description e)) ∧
      ∀ table, Description.decode (String.ofList (letters content)) = .ok table →
        (read name content).result = .ok
          { name := ((headers nameWord content).getLast?.map String.ofList).getD name
            description := String.ofList (letters content)
            tape := (headers tapeWord content).getLast?.map String.ofList
            table := table }) ∧
    ∀ above silent body below : List String, (∀ line ∈ silent, letters line = []) →
      (∀ line ∈ body, headers nameWord line = [] ∧ headers tapeWord line = []) →
      read name ("\n".intercalate (above ++ silent ++ body ++ below)) =
        read name ("\n".intercalate (above ++ body ++ silent ++ below)) := by
  refine ⟨?_, ?_, ?_⟩
  · intro h
    obtain ⟨before, value, after, htapes, hbefore, hvalue⟩ := exists_first_not h
    obtain ⟨front, c, rest, rfl, hfront, hc⟩ := exists_first_not hvalue
    exact ⟨before, _, after, front, c, rest, htapes, hbefore, rfl, hfront, hc,
      result_of_tape_error htapes hbefore (Tape.parse_of_not_mem hfront hc rest)⟩
  · intro h
    have hresult := result_of_written name h
    constructor
    · intro e he
      rw [hresult, he]
      rfl
    · intro table htable
      rw [hresult, htable]
      rfl
  · intro above silent body below hsilent hbody
    exact read_exchange name hsilent hbody

/-- A tape that is replaced later is still refused; a later name counts, and blanks between letters
do not; and a header and a comment move behind the letters. -/
theorem read_spec_headers :
    (∃ c position, (read "file" "tape: 0x\ntape: 1\nC").result = .error (.tape ⟨c, position⟩)) ∧
    (read "file" " name: a\nDA D\tDR \n# c\ntape: 01\n\tDA;\nname: b").result =
      .ok ⟨"b", "DADDRDA;", some "01", .ofList [⟨1, .blank, .blank, .right, 1⟩]⟩ ∧
    read "file" "name: a\n# c\nDADDR\nDA;" = read "file" "DADDR\nDA;\nname: a\n# c" := by
  have htapes : headers tapeWord "tape: 0x\ntape: 1\nC" = [['0', 'x'], ['1']] := rfl
  have hwrong : ¬ ∀ value ∈ headers tapeWord "tape: 0x\ntape: 1\nC", Tape.Written value := by
    rw [htapes]
    simp [Tape.Written, Tape.alphabet]
  have htape :
      headers tapeWord " name: a\nDA D\tDR \n# c\ntape: 01\n\tDA;\nname: b" = [['0', '1']] := rfl
  have hright : ∀ value ∈ headers tapeWord " name: a\nDA D\tDR \n# c\ntape: 01\n\tDA;\nname: b",
      Tape.Written value := by
    rw [htape]
    simp [Tape.Written, Tape.alphabet]
  refine ⟨?_, ?_, ?_⟩
  · obtain ⟨-, -, -, front, c, -, -, -, -, -, -, hresult⟩ := (read_spec "file" _).1 hwrong
    exact ⟨c, front.length, hresult⟩
  · exact ((read_spec "file" _).2.1 hright).2 _ rfl
  · exact (read_spec "file" "").2.2 [] ["name: a", "# c"] ["DADDR", "DA;"] [] (by decide) (by decide)

end Program

end QuintupleMachine
