import QuintupleMachine.Proofs.Canonical.Parsing

/-! # Where canonical text goes wrong

A text outside the grammar is refused at the end of its longest beginning that some text of the
grammar has too, and what is expected there can be told from that beginning alone.  The reader
stands at a place of the text when it gets stuck.  From every place the text can still be completed
(`Place.completes`), so what has been read is viable; and no text of the grammar takes the reader
past the place where it is stuck, so nothing longer is. -/

namespace QuintupleMachine

open Number

namespace Canonical

/-- Some text of the grammar begins like this. -/
def Viable (front : List Char) : Prop := ∃ rest, Grammatical (front ++ rest)

/-- The longest viable beginning of a text. -/
structure LongestViable (front text : List Char) : Prop where
  begins : front <+: text
  viable : Viable front
  longest : ∀ other, other <+: text → Viable other → other <+: front

/-- What is expected after a number, told from what stands before it. -/
def expectedAfterNumber : List Char → Expected
  | 'S' :: back =>
    if (back.dropWhile Char.isDigit).head? = some 'S' then .direction else .symbol
  | 'q' :: c :: _ => if (Direction.ofLetter? c).isSome then .endOfText else .symbol
  | _ => .symbol

/-- What is expected after a viable beginning, told from its end. -/
def expectedAfter (front : List Char) : Expected :=
  match front.reverse with
  | [] => .table
  | c :: back =>
    if c.isDigit then expectedAfterNumber (back.dropWhile Char.isDigit)
    else if c = ';' then .recordOrEnd
    else if c = 'q' then .stateNumber
    else if c = 'S' then .number
    -- Nothing but a move is left.
    else .state

example : expectedAfter "q1S0S2".toList = .direction ∧
    expectedAfter "q1S0S2Rq2".toList = .endOfText := by
  decide

end Canonical

namespace Place

/-! ## Every place can be completed -/

/-- The text can go on from a place in such a way that it may end. -/
def Completes (place : Place) : Prop :=
  ∃ rest records place', Reads place rest records place' ∧ ∃ last, place'.finish = some last

theorem Completes.of_step {place mid : Place} {c : Char} {record : Option Record}
    (h : Step place c record mid) (hmid : mid.Completes) : place.Completes := by
  obtain ⟨rest, records, place', hreads, hfinish⟩ := hmid
  exact ⟨c :: rest, _, place', .cons h hreads, hfinish⟩

theorem Completes.of_finish {place : Place} {last : List Record} (h : place.finish = some last) :
    place.Completes :=
  ⟨[], [], place, .nil place, last, h⟩

/-- A field with a digit in it can be completed, so a field can. -/
theorem Completes.field {f : List Char → Place} {d : Char} (first : Step (f []) d none (f [d]))
    (more : ∀ ds, ds ≠ [] → (f ds).Completes) (ds : List Char) : (f ds).Completes := by
  cases ds with
  | nil => exact .of_step first (more [d] (List.cons_ne_nil _ _))
  | cons d ds => exact more (d :: ds) (List.cons_ne_nil _ _)

theorem completes_next (p r w : List Char) (m : Direction) (ds : List Char) :
    (next p r w m ds).Completes :=
  .field (d := '1') (.nextDigit rfl) (fun _ hne => .of_finish (finish_next hne)) ds

theorem completes_moved (p r w : List Char) (m : Direction) : (moved p r w m).Completes :=
  .of_step .again (completes_next p r w m [])

theorem completes_write (p r ds : List Char) : (write p r ds).Completes :=
  .field (d := '0') (.writeDigit rfl)
    (fun _ hne => .of_step (.writeEnd .stay hne) (completes_moved p r _ .stay)) ds

theorem completes_read (p ds : List Char) : (read p ds).Completes :=
  .field (d := '0') (.readDigit rfl)
    (fun _ hne => .of_step (.readEnd hne) (completes_write p _ [])) ds

theorem completes_state (ds : List Char) : (state ds).Completes :=
  .field (d := '1') (.stateDigit rfl)
    (fun _ hne => .of_step (.stateEnd hne) (completes_read _ [])) ds

theorem completes (place : Place) : place.Completes := by
  cases place with
  | start | separated => exact .of_finish rfl
  | state ds => exact completes_state ds
  | read p ds => exact completes_read p ds
  | write p r ds => exact completes_write p r ds
  | moved p r w m => exact completes_moved p r w m
  | next p r w m ds => exact completes_next p r w m ds

/-! ## What is expected where the reader stands -/

theorem Step.target {place place' : Place} {c : Char} {record : Option Record}
    (h : Step place c record place') :
    place' ≠ start ∧ (place' = separated → record ≠ none) := by
  cases h <;> simp

/-- The reader is at the start only before the first character, and at a separator only after a
record. -/
theorem Reads.target {place place' : Place} {cs : List Char} {records : List Record}
    (h : Reads place cs records place') :
    (place' = start → place = start ∧ cs = [] ∧ records = []) ∧
      (place' = separated → place = separated ∨ records ≠ []) := by
  induction h with
  | nil => exact ⟨fun h => ⟨h, rfl, rfl⟩, .inl⟩
  | @cons _ mid _ _ _ record _ first _ ih =>
    obtain ⟨hstart, hseparated⟩ := first.target
    constructor
    · intro h
      exact absurd (ih.1 h).1 hstart
    · intro h
      right
      rcases ih.2 h with hmid | hrecords
      · cases record with
        | none => exact absurd rfl (hseparated hmid)
        | some r => exact List.cons_ne_nil _ _
      · exact List.append_ne_nil_of_right_ne_nil _ hrecords

end Place

namespace Canonical

open Place

theorem expectedAfter_concat (front : List Char) (c : Char) :
    expectedAfter (front ++ [c]) =
      if c.isDigit then expectedAfterNumber (front.reverse.dropWhile Char.isDigit)
      else if c = ';' then .recordOrEnd
      else if c = 'q' then .stateNumber
      else if c = 'S' then .number
      else .state := by
  rw [expectedAfter, List.reverse_append, List.reverse_singleton, List.singleton_append]

/-- Within a number only its mark and what stands before that count. -/
theorem expectedAfter_digits {front ds : List Char} {mark : Char} (hmark : mark.isDigit = false)
    (hne : ds ≠ []) (hds : Digits ds.reverse) :
    expectedAfter (front ++ mark :: ds.reverse) = expectedAfterNumber (mark :: front.reverse) := by
  cases ds with
  | nil => exact absurd rfl hne
  | cons d ds =>
    rw [List.reverse_cons] at hds ⊢
    obtain ⟨hds, hd⟩ := digits_append.1 hds
    rw [← List.cons_append, ← List.append_assoc, expectedAfter_concat, if_pos (hd d (by simp)),
      List.reverse_append, List.reverse_cons, List.reverse_reverse, List.append_assoc,
      List.dropWhile_append_of_pos fun c hc => hds c (List.mem_reverse.2 hc)]
    simp [hmark]

/-- The second of two symbol numbers is told from the first by the mark before. -/
theorem expectedAfterNumber_symbol {front ds : List Char} {mark : Char}
    (hmark : mark.isDigit = false) (hds : Digits ds) :
    expectedAfterNumber ('S' :: (front ++ mark :: ds).reverse) =
      if mark = 'S' then .direction else .symbol := by
  have hback : (front ++ mark :: ds).reverse.dropWhile Char.isDigit = mark :: front.reverse := by
    rw [List.reverse_append, List.reverse_cons, List.append_assoc,
      List.dropWhile_append_of_pos fun c hc => hds c (List.mem_reverse.1 hc)]
    simp [hmark]
  rw [expectedAfterNumber, hback, List.head?_cons]
  simp only [Option.some.injEq]

/-- Records that all have their mark end in it. -/
theorem reverse_terminated {records : List Record} (h : records ≠ []) :
    ∃ back, (terminated ';' Record.text records).reverse = ';' :: back := by
  have hsplit : records = records.dropLast ++ [records.getLast h] :=
    (List.dropLast_concat_getLast h).symm
  generalize records.dropLast = init, records.getLast h = last at hsplit
  refine ⟨(terminated ';' Record.text init ++ last.text).reverse, ?_⟩
  rw [hsplit, terminated_append]
  simp

theorem expectedAfterNumber_first (records : List Record) :
    expectedAfterNumber ('q' :: (terminated ';' Record.text records).reverse) = .symbol := by
  by_cases h : records = []
  · rw [h]
    rfl
  · obtain ⟨back, hback⟩ := reverse_terminated h
    rw [hback]
    rfl

/-- What the reader expects where it stands can be told from the text before. -/
theorem expectedAfter_of_reads {front : List Char} {records : List Record} {place : Place}
    (h : Reads start front records place) : expectedAfter front = place.expected := by
  obtain ⟨hp, -, htext⟩ := h.spec trivial
  obtain rfl : front = terminated ';' Record.text records ++ place.text := htext
  cases place with
  | start =>
    rw [(h.target.1 rfl).2.2]
    rfl
  | separated =>
    rcases h.target.2 rfl with h | hrecords
    · cases h
    · obtain ⟨back, hback⟩ := reverse_terminated hrecords
      rw [Place.text, List.append_nil, expectedAfter, hback]
      rfl
  | state ds =>
    rw [Place.text]
    cases ds with
    | nil => exact expectedAfter_concat _ _
    | cons d ds =>
      rw [expectedAfter_digits rfl (List.cons_ne_nil _ _) hp.1]
      exact expectedAfterNumber_first records
  | read p ds =>
    rw [Place.text, ← List.append_assoc]
    cases ds with
    | nil => exact expectedAfter_concat _ _
    | cons d ds =>
      rw [expectedAfter_digits rfl (List.cons_ne_nil _ _) hp.2]
      exact expectedAfterNumber_symbol rfl hp.1.2.1
  | write p r ds =>
    rw [Place.text, ← List.append_assoc]
    cases ds with
    | nil => exact expectedAfter_concat _ _
    | cons d ds =>
      rw [expectedAfter_digits rfl (List.cons_ne_nil _ _) hp.2.2, ← List.append_assoc]
      exact expectedAfterNumber_symbol rfl hp.2.1.2
  | moved p r w m =>
    rw [Place.text, ← List.append_assoc, expectedAfter_concat]
    cases m <;> rfl
  | next p r w m ds =>
    rw [Place.text, ← List.append_assoc, List.append_cons]
    cases ds with
    | nil => exact expectedAfter_concat _ _
    | cons d ds =>
      rw [expectedAfter_digits rfl (List.cons_ne_nil _ _) hp.2.2.2.1, List.reverse_append]
      simp [expectedAfterNumber, expected]

/-! ## The longest viable beginning -/

theorem ascii_of_step {place place' : Place} {c : Char} {record : Option Record}
    (h : Place.Step place c record place') : c.toNat < 128 := by
  have hdigit : ∀ d : Char, d.isDigit = true → d.toNat < 128 := by
    intro d hd
    simp only [Char.isDigit, Bool.and_eq_true, decide_eq_true_eq] at hd
    exact Nat.lt_of_le_of_lt (UInt32.le_iff_toNat_le.1 hd.2) (by decide)
  have hstate : ∀ ds d, extendsState ds d = true → d.toNat < 128 := by
    intro ds d hd
    exact hdigit d (Bool.and_eq_true_iff.1 hd).1
  cases h with
  | begin | stateEnd | readEnd | again | mark => decide
  | stateDigit h | nextDigit h => exact hstate _ c h
  | readDigit h | writeDigit h => exact hdigit c h
  | writeEnd m => cases m <;> decide

theorem ascii_of_reads {place place' : Place} {cs : List Char} {records : List Record}
    (h : Reads place cs records place') : ∀ c ∈ cs, c.toNat < 128 := by
  induction h with
  | nil => simp
  | cons first _ ih => exact List.forall_mem_cons.2 ⟨ascii_of_step first, ih⟩

theorem viable_of_reads {front : List Char} {records : List Record} {place : Place}
    (h : Reads start front records place) : Viable front := by
  obtain ⟨rest, more, place', hreads, last, hfinish⟩ := place.completes
  exact ⟨rest, _, written_of_finish (h.append hreads) hfinish⟩

/-- No text of the grammar takes the reader past a place where it is stuck. -/
theorem longest_of_stuck {front rest : List Char} {records : List Record} {place : Place}
    (h : Reads start front records place) (hstuck : Stuck place rest) :
    LongestViable front (front ++ rest) := by
  refine ⟨List.prefix_append _ _, viable_of_reads h, ?_⟩
  intro other hother hviable
  rcases List.prefix_or_prefix_of_prefix hother (List.prefix_append front rest) with hle | hle
  · exact hle
  · obtain ⟨more, rfl⟩ := hle
    obtain ⟨after, hrest⟩ := (List.prefix_append_right_inj front).1 hother
    cases more with
    | nil => exact ⟨[], by simp⟩
    | cons c more =>
      obtain ⟨tail, all, hw⟩ := hviable
      have hstuck' : Stuck place (c :: (more ++ tail)) := by
        refine ⟨?_, nofun⟩
        intro d hd
        apply hstuck.1
        rw [← hrest]
        exact hd
      rw [List.append_assoc] at hw
      have hok := recordsOf_eq_ok.2 hw
      rw [List.cons_append, recordsOf_of_stuck h hstuck'] at hok
      cases hok

/-- A text outside the grammar is refused at the end of its longest viable beginning, which is
plain ASCII, and is the whole text if that merely stops too early.  What is expected there depends
on the beginning alone. -/
theorem parse_error_of_longest (text : String) (h : ¬ Grammatical text.toList) :
    ∃ front, LongestViable front text.toList ∧ (∀ c ∈ front, c.toNat < 128) ∧
      (Viable text.toList → front = text.toList) ∧
      parse text =
        .error (.malformed (String.ofList front).utf8ByteSize text (expectedAfter front)) := by
  rcases reads_or_stuck text.toList with
    ⟨records, last, place, hreads, hfinish⟩ | ⟨front, rest, records, place, htext, hreads, hstuck⟩
  · exact absurd ⟨_, written_of_finish hreads hfinish⟩ h
  · have hlongest : LongestViable front text.toList := htext ▸ longest_of_stuck hreads hstuck
    refine ⟨front, hlongest, ascii_of_reads hreads, ?_, ?_⟩
    · intro hviable
      have hle := hlongest.longest _ List.prefix_rfl hviable
      exact hlongest.begins.eq_of_length_le hle.length_le
    · rw [parse, read, htext, recordsOf_of_stuck hreads hstuck, expectedAfter_of_reads hreads]

/-- A text that goes wrong at its fourth character, which takes two bytes. -/
theorem parse_error_of_longest_wide :
    ¬ Grammatical "q12éS0".toList ∧
      ∃ front, LongestViable front "q12éS0".toList ∧
        parse "q12éS0" =
          .error (.malformed (String.ofList front).utf8ByteSize "q12éS0"
            (expectedAfter front)) := by
  have hno : ¬ Grammatical "q12éS0".toList := recordsOf_eq_error.1 ⟨⟨3, .symbol⟩, rfl⟩
  obtain ⟨front, hfront, -, -, herror⟩ := parse_error_of_longest "q12éS0" hno
  exact ⟨hno, front, hfront, herror⟩

end Canonical

end QuintupleMachine
