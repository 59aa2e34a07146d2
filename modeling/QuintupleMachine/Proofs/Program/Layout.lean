import Mathlib.Data.List.DropRight
import Mathlib.Logic.Relation
import QuintupleMachine.Proofs.Description.Neighbours
import QuintupleMachine.Proofs.Program.File

/-! # The layout of a program file

What a program file says is in its statements: the lines that are neither empty nor comments,
without the blanks at their ends.  Carriage returns before line feeds, blanks around lines, more
empty lines and comments, and a line feed at the end leave the statements as they are, so they leave
everything as it is (`Relaid.statements_eq`).

Letters may be broken over lines and spaced at will.  No line of them begins with `#` or with the
word of a header, whatever the breaks are, so all of them are found again, in order and without the
blanks (`letters_of_letters`). -/

namespace QuintupleMachine

namespace Text

variable {front line back cs : List Char}

/-! ## Blanks -/

/-- A text that is blank all over. -/
def Blank (cs : List Char) : Prop := ∀ c ∈ cs, isBlank c = true

instance (cs : List Char) : Decidable (Blank cs) :=
  decidable_of_iff (cs.all isBlank = true) List.all_eq_true

theorem Blank.nil : Blank [] := fun _ hc => absurd hc List.not_mem_nil

theorem squeeze_append (cs more : List Char) : squeeze (cs ++ more) = squeeze cs ++ squeeze more :=
  List.filter_append cs more

theorem squeeze_of_blank (h : Blank cs) : squeeze cs = [] :=
  List.filter_eq_nil_iff.2 fun c hc => by simp [h c hc]

theorem dropWhile_of_blank (h : Blank cs) : cs.dropWhile isBlank = [] :=
  List.dropWhile_eq_nil_iff.2 h

/-- Blanks are taken off at the front and then at the back. -/
theorem trim_eq (cs : List Char) : trim cs = (cs.dropWhile isBlank).rdropWhile isBlank := rfl

theorem rdropWhile_append_blank (line : List Char) (h : Blank back) :
    (line ++ back).rdropWhile isBlank = line.rdropWhile isBlank := by
  have hback : Blank back.reverse := fun c hc => h c (List.mem_reverse.1 hc)
  rw [List.rdropWhile, List.reverse_append, List.dropWhile_append_of_pos hback, List.rdropWhile]

theorem trim_append_blank (line : List Char) (h : Blank back) :
    trim (line ++ back) = trim line := by
  rw [trim_eq, trim_eq, List.dropWhile_append]
  split
  · next hline => rw [List.isEmpty_iff.1 hline, dropWhile_of_blank h]
  · exact rdropWhile_append_blank _ h

/-- Blanks at the ends of a line do not count. -/
theorem trim_pad (hfront : Blank front) (hback : Blank back) :
    trim (front ++ line ++ back) = trim line := by
  rw [trim_append_blank _ hback, trim_eq, List.dropWhile_append_of_pos hfront, trim_eq]

theorem trim_of_blank (h : Blank cs) : trim cs = [] := by
  rw [trim_eq, dropWhile_of_blank h, List.rdropWhile_nil]

/-- Only blanks are taken off. -/
theorem exists_trim (cs : List Char) :
    ∃ front back, Blank front ∧ Blank back ∧ cs = front ++ trim cs ++ back := by
  refine ⟨cs.takeWhile isBlank, (cs.dropWhile isBlank).rtakeWhile isBlank,
    fun _ => List.mem_takeWhile_imp, fun _ => List.mem_rtakeWhile_imp, ?_⟩
  rw [trim_eq, List.append_assoc, List.rdropWhile_append_rtakeWhile,
    List.takeWhile_append_dropWhile]

theorem squeeze_trim (cs : List Char) : squeeze (trim cs) = squeeze cs := by
  obtain ⟨front, back, hfront, hback, hcs⟩ := exists_trim cs
  conv_rhs => rw [hcs]
  rw [squeeze_append, squeeze_append, squeeze_of_blank hfront, squeeze_of_blank hback,
    List.nil_append, List.append_nil]

/-- What is left of a line begins with something else than a blank. -/
theorem isBlank_of_trim_eq_cons {c : Char} {rest : List Char} (h : trim cs = c :: rest) :
    isBlank c = false := by
  obtain ⟨after, hafter⟩ := List.rdropWhile_prefix isBlank (cs.dropWhile isBlank)
  rw [← trim_eq, h, List.cons_append] at hafter
  have hhead := List.head?_dropWhile_not isBlank cs
  rwa [← hafter] at hhead

/-- Nothing is taken off in front of a character that is not blank. -/
theorem trim_cons {c : Char} (hc : isBlank c = false) (rest : List Char) :
    ∃ left, trim (c :: rest) = c :: left := by
  obtain ⟨after, hafter⟩ := List.rdropWhile_prefix isBlank (c :: rest)
  rw [trim_eq, List.dropWhile_cons_of_neg (by simp [hc])]
  cases hleft : (c :: rest).rdropWhile isBlank with
  | nil =>
    have hblank := List.rdropWhile_eq_nil_iff.1 hleft c List.mem_cons_self
    rw [hc] at hblank
    cases hblank
  | cons first left =>
    rw [hleft, List.cons_append] at hafter
    exact ⟨left, by rw [(List.cons.inj hafter).1]⟩

/-! ## Lines -/

theorem squeeze_linesFrom (line cs : List Char) :
    (linesFrom line cs).flatMap squeeze = squeeze (line.reverse ++ cs) := by
  induction cs generalizing line with
  | nil => simp [linesFrom]
  | cons c cs ih =>
    rw [linesFrom]
    split
    · next hc =>
      rw [List.flatMap_cons, ih, List.reverse_nil, List.nil_append, squeeze_append, hc]
      rfl
    · rw [ih, List.reverse_cons, List.append_assoc]
      rfl

/-- Breaks between lines are blanks. -/
theorem squeeze_lines (cs : List Char) : (lines cs).flatMap squeeze = squeeze cs :=
  squeeze_linesFrom [] cs

theorem mem_squeeze_of_mem_lines {c : Char} (hline : line ∈ lines cs) (hc : c ∈ squeeze line) :
    c ∈ squeeze cs := by
  rw [← squeeze_lines]
  exact List.mem_flatMap.2 ⟨line, hline, hc⟩

/-- A text with a carriage return before each line feed. -/
def withReturns (cs : List Char) : List Char :=
  cs.flatMap fun c => if c = '\n' then ['\r', '\n'] else [c]

theorem trim_linesFrom_withReturns (line cs : List Char) :
    (linesFrom line (withReturns cs)).map trim = (linesFrom line cs).map trim := by
  induction cs generalizing line with
  | nil => rfl
  | cons c cs ih =>
    rw [withReturns, List.flatMap_cons, ← withReturns]
    by_cases hc : c = '\n'
    · have hreturn : trim (line.reverse ++ ['\r']) = trim line.reverse :=
        trim_append_blank _ (by decide)
      subst hc
      simp [linesFrom, ih, hreturn]
    · simp [linesFrom, hc, ih]

end Text

namespace Program

variable {content content' line : String} {cs d : List Char}

/-! ## Changes of layout -/

/-- A line that says nothing is blank, or it is a comment. -/
inductive Silent : List Char → Prop
  | blank {line : List Char} (h : Text.Blank line) : Silent line
  | comment {indent : List Char} (h : Text.Blank indent) (text : List Char) :
      Silent (indent ++ '#' :: text)

/-- One change in the layout of a file. -/
inductive Relaid : String → String → Prop
  /-- A carriage return is put before each line feed. -/
  | returns (content : String) : Relaid content (String.ofList (Text.withReturns content.toList))
  /-- Blanks are put around a line. -/
  | pad (above below : List String) (front line back : String)
      (hline : '\n' ∉ (front ++ line ++ back).toList) (hfront : Text.Blank front.toList)
      (hback : Text.Blank back.toList) :
      Relaid ("\n".intercalate (above ++ line :: below))
        ("\n".intercalate (above ++ (front ++ line ++ back) :: below))
  /-- A blank line or a comment is put between lines. -/
  | insert (above below : List String) (line : String) (hline : '\n' ∉ line.toList)
      (hsilent : Silent line.toList) :
      Relaid ("\n".intercalate (above ++ below)) ("\n".intercalate (above ++ line :: below))
  /-- A line feed is put at the end. -/
  | newline (content : String) : Relaid content (content ++ "\n")

/-- A text without line feeds is one line. -/
theorem statements_of_line (h : '\n' ∉ line.toList) :
    statements line =
      [Text.trim line.toList].filter fun line => line ≠ [] ∧ line.head? ≠ some '#' := by
  have hone : line.toList.splitOn '\n' = [line.toList] := by
    rw [List.splitOn_eq_splitOnP]
    refine List.splitOnP_eq_singleton fun c hc => ?_
    rw [beq_eq_false_iff_ne]
    rintro rfl
    exact h hc
  rw [statements, hone, List.map_singleton]

theorem statements_of_silent (hline : '\n' ∉ line.toList) (h : Silent line.toList) :
    statements line = [] := by
  rw [statements_of_line hline]
  generalize line.toList = text at h
  cases h with
  | blank h => simp [Text.trim_of_blank h]
  | @comment indent h text =>
    obtain ⟨left, hleft⟩ := Text.trim_cons (c := '#') (by decide) text
    have hpad : Text.trim (indent ++ '#' :: text) = '#' :: left := by
      rw [← hleft, ← List.append_nil (indent ++ '#' :: text), Text.trim_pad h Text.Blank.nil]
    simp [hpad]

theorem statements_withReturns (content : String) :
    statements (String.ofList (Text.withReturns content.toList)) = statements content := by
  rw [statements, statements, String.toList_ofList, ← Text.lines_eq_splitOn,
    ← Text.lines_eq_splitOn, Text.lines, Text.trim_linesFrom_withReturns, Text.lines]

/-- A change of layout leaves the statements as they are. -/
theorem Relaid.statements_eq (h : Relaid content content') :
    statements content = statements content' := by
  cases h with
  | returns content => exact (statements_withReturns content).symm
  | pad above below front line back hline hfront hback =>
    have hinner : '\n' ∉ line.toList := fun hmem => hline (by simp [hmem])
    have hstatement : statements (front ++ line ++ back) = statements line := by
      rw [statements_of_line hline, statements_of_line hinner, String.toList_append,
        String.toList_append, Text.trim_pad hfront hback]
    simp only [statements_intercalate, List.flatMap_append, List.flatMap_cons, hstatement]
  | insert above below line hline hsilent =>
    simp only [statements_intercalate, List.flatMap_append, List.flatMap_cons,
      statements_of_silent hline hsilent, List.nil_append]
  | newline content =>
    have hempty : statements "" = [] := by decide
    have h := statements_append content ""
    rw [hempty, List.append_nil, String.append_empty] at h
    exact h.symm

theorem statements_eq_of_eqvGen (h : Relation.EqvGen Relaid content content') :
    statements content = statements content' := by
  induction h with
  | rel _ _ h => exact h.statements_eq
  | refl _ => rfl
  | symm _ _ _ ih => exact ih.symm
  | trans _ _ _ _ _ ih ih' => exact ih.trans ih'

/-- Nothing but the statements of a file is read. -/
theorem read_eq_of_statements (name : String) (h : statements content = statements content') :
    read name content = read name content' := by
  apply read_eq_of_kinds
  · rw [headers, h, headers]
  · rw [headers, h, headers]
  · rw [letters, h, letters]

/-! ## Letters with blanks in between -/

/-- `Spaced d cs`: the text `cs` is `d` with blanks put in anywhere. -/
inductive Spaced : List Char → List Char → Prop
  | nil : Spaced [] []
  | keep (c : Char) {d cs : List Char} (h : Spaced d cs) : Spaced (c :: d) (c :: cs)
  | blank {c : Char} (hc : Text.isBlank c = true) {d cs : List Char} (h : Spaced d cs) :
      Spaced d (c :: cs)

theorem Spaced.refl (cs : List Char) : Spaced cs cs := by
  induction cs with
  | nil => exact .nil
  | cons c cs ih => exact .keep c ih

theorem isBlank_of_mem_alphabet {c : Char} (h : c ∈ Description.alphabet) :
    Text.isBlank c = false := by
  obtain ⟨letter, rfl⟩ := Description.mem_alphabet.1 h
  cases letter <;> rfl

/-- Letters are what is left when the blanks are gone. -/
theorem Spaced.squeeze_eq (h : Spaced d cs) (hd : ∀ c ∈ d, c ∈ Description.alphabet) :
    Text.squeeze cs = d := by
  induction h with
  | nil => rfl
  | keep c h ih =>
    obtain ⟨hc, hd⟩ := List.forall_mem_cons.1 hd
    rw [Text.squeeze, List.filter_cons, isBlank_of_mem_alphabet hc, ← Text.squeeze, ih hd]
    rfl
  | blank hc h ih =>
    rw [Text.squeeze, List.filter_cons, hc, ← Text.squeeze, ih hd]
    rfl

/-- A line of letters is no header and no comment. -/
theorem Line.ofText?_of_letters {line : List Char}
    (h : ∀ c ∈ Text.squeeze line, c ∈ Description.alphabet) :
    ofText? line =
      if Text.trim line = [] then none else some (letters (Text.squeeze line)) := by
  rw [ofText?_eq]
  cases htrim : Text.trim line with
  | nil => rfl
  | cons c rest =>
    have hc : c ∈ Description.alphabet := by
      refine h c ?_
      rw [← Text.squeeze_trim, htrim]
      exact List.mem_filter.2
        ⟨List.mem_cons_self, by rw [Text.isBlank_of_trim_eq_cons htrim]; rfl⟩
    have hcomment : c ≠ '#' := by rintro rfl; revert hc; decide
    have hword : ∀ first word, first ∉ Description.alphabet → ¬ first :: word <+: c :: rest := by
      intro first word hfirst hprefix
      obtain ⟨rfl, -⟩ := List.cons_prefix_cons.1 hprefix
      exact hfirst hc
    have hname : ¬ nameWord <+: c :: rest := hword _ _ (by decide)
    have htape : ¬ tapeWord <+: c :: rest := hword _ _ (by decide)
    rw [ofStatement, if_neg hname, if_neg htape, ← htrim, Text.squeeze_trim]
    simp [htrim, hcomment]

theorem Line.text_of_letters {line : List Char}
    (h : ∀ c ∈ Text.squeeze line, c ∈ Description.alphabet) :
    (ofText? line).toList.flatMap text = Text.squeeze line := by
  rw [ofText?_of_letters h]
  split
  · next htrim =>
    rw [← Text.squeeze_trim, htrim]
    rfl
  · simp [text]

/-- Where nothing but letters and blanks stands, there are lines of letters only. -/
theorem eq_letters_of_mem (h : ∀ c ∈ Text.squeeze content.toList, c ∈ Description.alphabet)
    {line : Line} (hline : line ∈ linesOf content) : ∃ text, line = .letters text := by
  obtain ⟨text, htext, hsays⟩ := List.mem_filterMap.1 hline
  rw [Line.ofText?_of_letters fun c hc => h c (Text.mem_squeeze_of_mem_lines htext hc)] at hsays
  split at hsays
  · cases hsays
  · exact ⟨_, (Option.some.inj hsays).symm⟩

theorem headers_of_letters (h : ∀ c ∈ Text.squeeze content.toList, c ∈ Description.alphabet) :
    headers nameWord content = [] ∧ headers tapeWord content = [] := by
  rw [← names_linesOf, ← tapes_linesOf, List.filterMap_eq_nil_iff, List.filterMap_eq_nil_iff]
  constructor
  all_goals
    intro line hline
    obtain ⟨text, rfl⟩ := eq_letters_of_mem h hline
    rfl

/-- All letters are found again, in order. -/
theorem letters_of_letters (h : ∀ c ∈ Text.squeeze content.toList, c ∈ Description.alphabet) :
    letters content = Text.squeeze content.toList := by
  rw [← text_linesOf, linesOf, List.filterMap_eq_flatMap_toList, List.flatMap_assoc,
    ← Text.squeeze_lines]
  refine List.flatMap_congr fun line hline => Line.text_of_letters fun c hc => ?_
  exact h c (Text.mem_squeeze_of_mem_lines hline hc)

/-- A file of letters is read as these letters, without a tape and under the name given for it. -/
theorem result_of_spaced (name : String) {d content : String}
    (hd : ∀ c ∈ d.toList, c ∈ Description.alphabet) (h : Spaced d.toList content.toList) :
    (read name content).result =
      ((Description.decode d).mapError Failure.description).map fun table =>
        ⟨name, d, none, table⟩ := by
  have hsqueeze := h.squeeze_eq hd
  rw [← hsqueeze] at hd
  obtain ⟨hnames, htapes⟩ := headers_of_letters hd
  rw [result_of_written, letters_of_letters hd, hsqueeze, hnames, htapes, String.ofList_toList]
  · rfl
  · rw [htapes]
    exact List.forall_mem_nil _

theorem read_of_spaced (name : String) {d content : String}
    (hd : ∀ c ∈ d.toList, c ∈ Description.alphabet) (h : Spaced d.toList content.toList) :
    read name content = read name d := by
  have hspaced := h.squeeze_eq hd
  have hplain := (Spaced.refl d.toList).squeeze_eq hd
  have hcontent := hspaced ▸ hd
  have hletters := hplain ▸ hd
  apply read_eq_of_kinds
  · rw [(headers_of_letters hcontent).1, (headers_of_letters hletters).1]
  · rw [(headers_of_letters hcontent).2, (headers_of_letters hletters).2]
  · rw [letters_of_letters hcontent, letters_of_letters hletters, hspaced, hplain]

/-- Changes of layout, as many as there may be, change nothing about what a file is read as; and
blanks between letters, be they line feeds or not, change nothing about what the letters are read
as, nor about the errors in them. -/
theorem read_of_relaid (name : String) :
    (∀ content content', Relation.EqvGen Relaid content content' →
      read name content = read name content') ∧
    ∀ d content : String, (∀ c ∈ d.toList, c ∈ Description.alphabet) →
      Spaced d.toList content.toList →
      read name content = read name d ∧
      (read name content).result =
        ((Description.decode d).mapError Failure.description).map fun table =>
          ⟨name, d, none, table⟩ := by
  constructor
  · intro content content' h
    exact read_eq_of_statements name (statements_eq_of_eqvGen h)
  · intro d content hd h
    exact ⟨read_of_spaced name hd h, result_of_spaced name hd h⟩

/-- A file with two lines that gets carriage returns, an indentation, a comment and a line feed at
the end; and letters that are broken in the middle. -/
theorem read_of_relaid_wrapped :
    read "file" "name: a\nDADDRDA;" = read "file" " name: a\r\n# c\nDADDRDA;\n" ∧
    (∀ c ∈ "DADDRDA;".toList, c ∈ Description.alphabet) ∧
    Spaced "DADDRDA;".toList "DAD D\nRDA; ".toList ∧
    (read "file" "DAD D\nRDA; ").result =
      .ok ⟨"file", "DADDRDA;", none, .ofList [⟨1, .blank, .blank, .right, 1⟩]⟩ := by
  have hreturns : Relaid "name: a\nDADDRDA;" "name: a\r\nDADDRDA;" := .returns "name: a\nDADDRDA;"
  have hpad : Relaid "name: a\r\nDADDRDA;" " name: a\r\nDADDRDA;" :=
    .pad [] ["DADDRDA;"] " " "name: a\r" "" (by decide) (by decide) (by decide)
  have hinsert : Relaid " name: a\r\nDADDRDA;" " name: a\r\n# c\nDADDRDA;" :=
    .insert [" name: a\r"] ["DADDRDA;"] "# c" (by decide) (.comment Text.Blank.nil [' ', 'c'])
  have hnewline : Relaid " name: a\r\n# c\nDADDRDA;" " name: a\r\n# c\nDADDRDA;\n" := .newline _
  have hrelaid := (((Relation.EqvGen.rel _ _ hreturns).trans _ _ _ (.rel _ _ hpad)).trans _ _ _
    (.rel _ _ hinsert)).trans _ _ _ (.rel _ _ hnewline)
  have hletters : ∀ c ∈ "DADDRDA;".toList, c ∈ Description.alphabet := by
    simp [Description.alphabet]
  have hspaced : Spaced "DADDRDA;".toList "DAD D\nRDA; ".toList :=
    .keep _ (.keep _ (.keep _ (.blank rfl (.keep _ (.blank rfl (.keep _ (.keep _ (.keep _ (.keep _
      (.blank rfl .nil))))))))))
  obtain ⟨hlayout, hblanks⟩ := read_of_relaid "file"
  exact ⟨hlayout _ _ hrelaid, hletters, hspaced, (hblanks _ _ hletters hspaced).2⟩

end Program

end QuintupleMachine
