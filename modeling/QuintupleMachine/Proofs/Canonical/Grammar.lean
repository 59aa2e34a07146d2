import QuintupleMachine.Canonical.Place
import QuintupleMachine.Proofs.Numeral
import QuintupleMachine.Proofs.Separated

/-! # The language of canonical text

Canonical text is a sequence of records `q[1-9][0-9]*S[0-9]+S[0-9]+(L|R|N)q[1-9][0-9]*`, each
followed by `;`, which the last may leave out.  `Canonical.Written` states this without a reader,
and `recordsOf_eq_ok` says that the reader finds the records of exactly these texts.

The reader is followed place by place.  `Place.text` is what has been read of the unfinished
record, and one step of the reader lengthens it by one character or completes the record
(`Place.Step.spec`); `Place.Reads` is any number of steps. -/

namespace QuintupleMachine

open Number

/-- The fields of a record are written as the grammar has them. -/
structure Record.Proper (record : Record) : Prop where
  state : StateNumeral record.state
  read : Numeral record.read
  write : Numeral record.write
  next : StateNumeral record.next

theorem Record.text_eq (record : Record) :
    record.text = 'q' :: (record.state ++ 'S' :: (record.read ++ 'S' :: (record.write ++
      record.direction.letter :: 'q' :: record.next))) := by
  simp [text]

namespace Canonical

/-- A text consists of these records. -/
def Written (records : List Record) (text : List Char) : Prop :=
  (∀ record ∈ records, record.Proper) ∧ Separated ';' Record.text records text

/-- A text belongs to the canonical grammar. -/
def Grammatical (text : List Char) : Prop := ∃ records, Written records text

end Canonical

namespace Place

/-- The text of the unfinished record up to a place. -/
def text : Place → List Char
  | start => []
  | separated => []
  | state ds => 'q' :: ds.reverse
  | read p ds => 'q' :: p ++ 'S' :: ds.reverse
  | write p r ds => 'q' :: p ++ 'S' :: r ++ 'S' :: ds.reverse
  | moved p r w m => 'q' :: p ++ 'S' :: r ++ 'S' :: w ++ [m.letter]
  | next p r w m ds => 'q' :: p ++ 'S' :: r ++ 'S' :: w ++ m.letter :: 'q' :: ds.reverse

/-- The fields read so far are written as the grammar has them. -/
def Proper : Place → Prop
  | start => True
  | separated => True
  | state ds => StateDigits ds.reverse
  | read p ds => StateNumeral p ∧ Digits ds.reverse
  | write p r ds => StateNumeral p ∧ Numeral r ∧ Digits ds.reverse
  | moved p r w _ => StateNumeral p ∧ Numeral r ∧ Numeral w
  | next p r w _ ds => StateNumeral p ∧ Numeral r ∧ Numeral w ∧ StateDigits ds.reverse

/-! ## One character -/

/-- Where a record can start. -/
def BeforeRecord (place : Place) : Prop := place = start ∨ place = separated

/-- `Step place c record place'`: at `place` the character `c` can stand; after it the reader is at
`place'`, and it completes `record`, if any. -/
inductive Step : Place → Char → Option Record → Place → Prop
  | begin {place : Place} (h : place.BeforeRecord) : Step place 'q' none (state [])
  | stateDigit {c : Char} {ds : List Char} (h : extendsState ds c = true) :
      Step (state ds) c none (state (c :: ds))
  | stateEnd {ds : List Char} (h : ds ≠ []) : Step (state ds) 'S' none (read ds.reverse [])
  | readDigit {c : Char} {p ds : List Char} (h : c.isDigit = true) :
      Step (read p ds) c none (read p (c :: ds))
  | readEnd {p ds : List Char} (h : ds ≠ []) : Step (read p ds) 'S' none (write p ds.reverse [])
  | writeDigit {c : Char} {p r ds : List Char} (h : c.isDigit = true) :
      Step (write p r ds) c none (write p r (c :: ds))
  | writeEnd {p r ds : List Char} (m : Direction) (h : ds ≠ []) :
      Step (write p r ds) m.letter none (moved p r ds.reverse m)
  | again {p r w : List Char} {m : Direction} : Step (moved p r w m) 'q' none (next p r w m [])
  | nextDigit {c : Char} {p r w ds : List Char} {m : Direction} (h : extendsState ds c = true) :
      Step (next p r w m ds) c none (next p r w m (c :: ds))
  | mark {p r w ds : List Char} {m : Direction} (h : ds ≠ []) :
      Step (next p r w m ds) ';' (some ⟨p, r, w, m, ds.reverse⟩) separated

theorem finish_of_beforeRecord {place : Place} (h : place.BeforeRecord) :
    place.finish = some [] := by
  rcases h with rfl | rfl <;> rfl

theorem isDigit_letter (m : Direction) : m.letter.isDigit = false := by
  cases m <;> rfl

theorem advance_of_step {place place' : Place} {c : Char} {record : Option Record}
    (h : Step place c record place') : place.advance c = some (record, place') := by
  have hS : ∀ ds, extendsState ds 'S' = false := fun _ => rfl
  have hmark : ∀ ds, extendsState ds ';' = false := fun _ => rfl
  cases h with
  | begin h => rcases h with rfl | rfl <;> rfl
  | stateDigit h | readDigit h | writeDigit h | nextDigit h => simp [advance, h]
  | stateEnd h => simp [advance, hS, h]
  | readEnd h => simp [advance, h]
  | writeEnd m h => simp [advance, isDigit_letter, h]
  | again => rfl
  | mark h => simp [advance, hmark, h]

theorem step_of_advance {place place' : Place} {c : Char} {record : Option Record}
    (h : place.advance c = some (record, place')) : Step place c record place' := by
  cases place with
  | start | separated =>
    simp only [advance, Option.ite_none_right_eq_some] at h
    obtain ⟨rfl, h⟩ := h
    cases h
    exact .begin (by simp [BeforeRecord])
  | state ds =>
    simp only [advance] at h
    split at h
    · next hc =>
      cases h
      exact .stateDigit hc
    · simp only [Option.ite_none_right_eq_some] at h
      obtain ⟨⟨hne, rfl⟩, h⟩ := h
      cases h
      exact .stateEnd hne
  | read p ds =>
    simp only [advance] at h
    split at h
    · next hc =>
      cases h
      exact .readDigit hc
    · simp only [Option.ite_none_right_eq_some] at h
      obtain ⟨⟨hne, rfl⟩, h⟩ := h
      cases h
      exact .readEnd hne
  | write p r ds =>
    simp only [advance] at h
    split at h
    · next hc =>
      cases h
      exact .writeDigit hc
    · simp only [Option.ite_none_right_eq_some, Option.map_eq_some_iff] at h
      obtain ⟨hne, direction, hc, h⟩ := h
      cases h
      obtain rfl := Direction.ofLetter?_eq_some.1 hc
      exact .writeEnd direction hne
  | moved p r w m =>
    simp only [advance, Option.ite_none_right_eq_some] at h
    obtain ⟨rfl, h⟩ := h
    cases h
    exact .again
  | next p r w m ds =>
    simp only [advance] at h
    split at h
    · next hc =>
      cases h
      exact .nextDigit hc
    · simp only [Option.ite_none_right_eq_some] at h
      obtain ⟨⟨hne, rfl⟩, h⟩ := h
      cases h
      exact .mark hne

theorem digits_reverse_cons {ds : List Char} {c : Char} (h : Digits ds.reverse)
    (hc : c.isDigit = true) : Digits (c :: ds).reverse := by
  rw [List.reverse_cons, digits_append]
  exact ⟨h, by simpa [Digits] using hc⟩

theorem stateDigits_reverse_cons {ds : List Char} {c : Char} (h : StateDigits ds.reverse)
    (hc : extendsState ds c = true) : StateDigits (c :: ds).reverse := by
  simp only [extendsState, Bool.and_eq_true, Bool.or_eq_true, decide_eq_true_eq] at hc
  refine ⟨digits_reverse_cons h.1 hc.1, ?_⟩
  cases ds with
  | nil => simpa using hc.2
  | cons d ds =>
    rw [List.reverse_cons, List.head?_append,
      Option.or_of_isSome (List.isSome_head?.2 (by simp))]
    exact h.2

theorem numeral_reverse {ds : List Char} (hne : ds ≠ []) (h : Digits ds.reverse) :
    Numeral ds.reverse :=
  ⟨by simpa using hne, h⟩

theorem stateNumeral_reverse {ds : List Char} (hne : ds ≠ []) (h : StateDigits ds.reverse) :
    StateNumeral ds.reverse :=
  ⟨by simpa using hne, h⟩

/-- What one character does: the unfinished record grows by it, or the character is the mark after
a record that is now complete. -/
theorem Step.spec {place place' : Place} {c : Char} {record : Option Record}
    (h : Step place c record place') (hp : place.Proper) :
    place'.Proper ∧ (∀ r ∈ record, r.Proper) ∧
      place.text ++ [c] = terminated ';' Record.text record.toList ++ place'.text := by
  cases h with
  | begin h =>
    refine ⟨.nil, by simp, ?_⟩
    rcases h with rfl | rfl <;> rfl
  | stateDigit h => exact ⟨stateDigits_reverse_cons hp h, by simp, by simp [text]⟩
  | stateEnd hne => exact ⟨⟨stateNumeral_reverse hne hp, .nil⟩, by simp, by simp [text]⟩
  | readDigit h => exact ⟨⟨hp.1, digits_reverse_cons hp.2 h⟩, by simp, by simp [text]⟩
  | readEnd hne => exact ⟨⟨hp.1, numeral_reverse hne hp.2, .nil⟩, by simp, by simp [text]⟩
  | writeDigit h =>
    obtain ⟨hstate, hread, hds⟩ := hp
    exact ⟨⟨hstate, hread, digits_reverse_cons hds h⟩, by simp, by simp [text]⟩
  | writeEnd m hne =>
    obtain ⟨hstate, hread, hds⟩ := hp
    exact ⟨⟨hstate, hread, numeral_reverse hne hds⟩, by simp, by simp [text]⟩
  | again =>
    obtain ⟨hstate, hread, hwrite⟩ := hp
    exact ⟨⟨hstate, hread, hwrite, .nil⟩, by simp, by simp [text]⟩
  | nextDigit h =>
    obtain ⟨hstate, hread, hwrite, hds⟩ := hp
    exact ⟨⟨hstate, hread, hwrite, stateDigits_reverse_cons hds h⟩, by simp, by simp [text]⟩
  | mark hne =>
    obtain ⟨hstate, hread, hwrite, hds⟩ := hp
    refine ⟨trivial, ?_, by simp [text, Record.text]⟩
    rintro _ ⟨⟩
    exact ⟨hstate, hread, hwrite, stateNumeral_reverse hne hds⟩

theorem finish_next {p r w ds : List Char} {m : Direction} (hne : ds ≠ []) :
    (next p r w m ds).finish = some [⟨p, r, w, m, ds.reverse⟩] := by
  cases ds with
  | nil => exact absurd rfl hne
  | cons d ds => rfl

/-- Where the text may end, what is unfinished is the last record without its mark. -/
theorem finish_spec {place : Place} {last : List Record} (hp : place.Proper)
    (h : place.finish = some last) : Canonical.Written last place.text := by
  cases place with
  | start | separated =>
    cases h
    exact ⟨by simp, .nil⟩
  | state ds | read p ds | write p r ds | moved p r w m => cases h
  | next p r w m ds =>
    obtain ⟨hstate, hread, hwrite, hds⟩ := hp
    by_cases hne : ds = []
    · rw [hne] at h
      cases h
    · rw [finish_next hne] at h
      cases h
      refine ⟨?_, .last _⟩
      intro record hrecord
      obtain rfl := List.mem_singleton.1 hrecord
      exact ⟨hstate, hread, hwrite, stateNumeral_reverse hne hds⟩

/-! ## Any number of characters -/

/-- `Reads place cs records place'`: from `place` the reader gets over `cs` to `place'`, and
completes `records` on the way. -/
inductive Reads : Place → List Char → List Record → Place → Prop
  | nil (place : Place) : Reads place [] [] place
  | cons {place mid place' : Place} {c : Char} {cs : List Char} {record : Option Record}
      {records : List Record} (first : Step place c record mid)
      (rest : Reads mid cs records place') :
      Reads place (c :: cs) (record.toList ++ records) place'

namespace Reads

theorem append {place mid place' : Place} {cs ds : List Char} {records more : List Record}
    (h : Reads place cs records mid) (h' : Reads mid ds more place') :
    Reads place (cs ++ ds) (records ++ more) place' := by
  induction h with
  | nil => exact h'
  | cons first _ ih =>
    rw [List.append_assoc]
    exact cons first (ih h')

/-- What has been read is the completed records, each with its mark, and the unfinished one. -/
theorem spec {place place' : Place} {cs : List Char} {records : List Record}
    (h : Reads place cs records place') (hp : place.Proper) :
    place'.Proper ∧ (∀ record ∈ records, record.Proper) ∧
      place.text ++ cs = terminated ';' Record.text records ++ place'.text := by
  induction h with
  | nil => exact ⟨hp, by simp, by simp⟩
  | @cons _ _ _ c cs record records first _ ih =>
    obtain ⟨hmid, hrecord, htext⟩ := first.spec hp
    obtain ⟨hp', hrecords, htext'⟩ := ih hmid
    refine ⟨hp', ?_, ?_⟩
    · intro r hr
      rcases List.mem_append.1 hr with hr | hr
      · exact hrecord r (Option.mem_toList.1 hr)
      · exact hrecords r hr
    · rw [← List.singleton_append, ← List.append_assoc, htext, List.append_assoc, htext',
        terminated_append, List.append_assoc]

/-- The reader gets over a longest part of any text: the next character, if there is one, cannot
stand where it does. -/
theorem stalls (place : Place) (cs : List Char) :
    ∃ front rest records place', cs = front ++ rest ∧ Reads place front records place' ∧
      ∀ c ∈ rest.head?, place'.advance c = none := by
  induction cs generalizing place with
  | nil => exact ⟨[], [], [], place, rfl, .nil place, by simp⟩
  | cons c cs ih =>
    cases h : place.advance c with
    | none => exact ⟨[], c :: cs, [], place, rfl, .nil place, by simpa using h⟩
    | some result =>
      obtain ⟨front, rest, records, place', rfl, hreads, hstop⟩ := ih result.2
      exact ⟨c :: front, rest, _, place', rfl, .cons (step_of_advance h) hreads, hstop⟩

/-- The digits of a field are read one after the other, once its first digit is. -/
theorem field (f : List Char → Place) {ds : List Char} (hne : ds ≠ []) (hds : Digits ds)
    (hfirst : ∀ d ∈ ds.head?, Step (f []) d none (f [d]))
    (hlater : ∀ d e es, d.isDigit = true → Step (f (e :: es)) d none (f (d :: e :: es))) :
    Reads (f []) ds [] (f ds.reverse) := by
  have later : ∀ es d ds, Digits es → Reads (f (d :: ds)) es [] (f (es.reverse ++ d :: ds)) := by
    intro es
    induction es with
    | nil => exact fun d ds _ => .nil _
    | cons e es ih =>
      intro d ds hes
      obtain ⟨he, hes⟩ := List.forall_mem_cons.1 hes
      rw [List.reverse_cons, List.append_assoc]
      exact .cons (hlater e d ds he) (ih e (d :: ds) hes)
  cases ds with
  | nil => exact absurd rfl hne
  | cons d ds =>
    rw [List.reverse_cons]
    exact .cons (hfirst d rfl) (later ds d [] (List.forall_mem_cons.1 hds).2)

theorem stateNumeral (f : List Char → Place) {ds : List Char} (hds : StateNumeral ds)
    (h : ∀ es d, extendsState es d = true → Step (f es) d none (f (d :: es))) :
    Reads (f []) ds [] (f ds.reverse) := by
  refine field f hds.1 hds.2.1 ?_ fun d e es hd => h _ _ (by simp [extendsState, hd])
  intro d hd
  refine h [] d ?_
  have hdigit := hds.2.1 d (List.mem_of_mem_head? hd)
  have hzero : d ≠ '0' := fun h0 => hds.2.2 (h0 ▸ hd)
  simp [extendsState, hdigit, hzero]

theorem numeral (f : List Char → Place) {ds : List Char} (hds : Numeral ds)
    (h : ∀ es d, d.isDigit = true → Step (f es) d none (f (d :: es))) :
    Reads (f []) ds [] (f ds.reverse) :=
  field f hds.1 hds.2 (fun d hd => h [] d (hds.2 d (List.mem_of_mem_head? hd)))
    fun d _ _ hd => h _ d hd

/-- The text of a record is read field by field, and its last number stays open: it could still
grow. -/
theorem record {place : Place} (h : place.BeforeRecord) {r : Record} (hr : r.Proper) :
    Reads place r.text [] (.next r.state r.read r.write r.direction r.next.reverse) := by
  have hstate : Reads (.state []) r.state [] (.state r.state.reverse) :=
    stateNumeral .state hr.state fun _ _ => .stateDigit
  have hread : Reads (.read r.state []) r.read [] (.read r.state r.read.reverse) :=
    numeral (.read r.state) hr.read fun _ _ => .readDigit
  have hwrite : Reads (.write r.state r.read []) r.write []
      (.write r.state r.read r.write.reverse) :=
    numeral (.write r.state r.read) hr.write fun _ _ => .writeDigit
  have hnext : Reads (.next r.state r.read r.write r.direction []) r.next []
      (.next r.state r.read r.write r.direction r.next.reverse) :=
    stateNumeral (.next r.state r.read r.write r.direction) hr.next fun _ _ => .nextDigit
  have hstateEnd : Step (.state r.state.reverse) 'S' none (.read r.state []) := by
    simpa using Step.stateEnd (List.reverse_ne_nil_iff.2 hr.state.1)
  have hreadEnd : Step (.read r.state r.read.reverse) 'S' none (.write r.state r.read []) := by
    simpa using Step.readEnd (List.reverse_ne_nil_iff.2 hr.read.1)
  have hwriteEnd : Step (.write r.state r.read r.write.reverse) r.direction.letter none
      (.moved r.state r.read r.write r.direction) := by
    simpa using Step.writeEnd r.direction (List.reverse_ne_nil_iff.2 hr.write.1)
  rw [Record.text_eq]
  exact .cons (.begin h) (hstate.append (.cons hstateEnd (hread.append (.cons hreadEnd
    (hwrite.append (.cons hwriteEnd (.cons .again hnext)))))))

/-- Reading a whole text of records leads to a place where the text may end. -/
theorem written {place : Place} (h : place.BeforeRecord) {records : List Record} {text : List Char}
    (hw : Canonical.Written records text) :
    ∃ done last place', Reads place text done place' ∧ place'.finish = some last ∧
      records = done ++ last := by
  obtain ⟨hproper, hsep⟩ := hw
  induction hsep generalizing place with
  | nil => exact ⟨[], [], place, .nil place, finish_of_beforeRecord h, rfl⟩
  | last r =>
    have hr := hproper r List.mem_cons_self
    refine ⟨[], [r], _, record h hr, ?_, rfl⟩
    rw [finish_next (List.reverse_ne_nil_iff.2 hr.next.1), List.reverse_reverse]
  | cons r _ ih =>
    obtain ⟨hr, hproper⟩ := List.forall_mem_cons.1 hproper
    obtain ⟨done, last, place', hreads, hfinish, rfl⟩ := ih (.inr rfl) hproper
    have hmark : Step (.next r.state r.read r.write r.direction r.next.reverse) ';' (some r)
        separated := by
      simpa using Step.mark (List.reverse_ne_nil_iff.2 hr.next.1)
    exact ⟨r :: done, last, place', (record h hr).append (.cons hmark hreads), hfinish, rfl⟩

end Reads

theorem utf8ByteSize_ofList_cons (c : Char) (cs : List Char) :
    (String.ofList (c :: cs)).utf8ByteSize = c.utf8Size + (String.ofList cs).utf8ByteSize := by
  rw [← List.singleton_append, String.ofList_append, String.utf8ByteSize_append,
    ← String.singleton_eq_ofList, String.utf8ByteSize_singleton]

/-- The reader goes along with `Reads`, counting bytes. -/
theorem readRecords_append {place place' : Place} {cs : List Char} {records : List Record}
    (h : Reads place cs records place') (offset : Nat) (done : List Record) (rest : List Char) :
    readRecords place offset done (cs ++ rest) =
      readRecords place' (offset + (String.ofList cs).utf8ByteSize)
        (records.reverse ++ done) rest := by
  induction h generalizing offset done with
  | nil => rfl
  | @cons _ _ _ c cs record records first _ ih =>
    have hback : record.toList.reverse = record.toList := by cases record <;> rfl
    rw [List.cons_append, readRecords, advance_of_step first, List.reverse_append, hback,
      List.append_assoc, utf8ByteSize_ofList_cons, ← Nat.add_assoc]
    exact ih _ _

theorem reverse_of_finish {place : Place} {last : List Record} (h : place.finish = some last) :
    last.reverse = last := by
  unfold finish at h
  split at h <;> cases h <;> rfl

/-- From here the reader does not get on: the next character, if there is one, cannot stand here,
and the text cannot end here. -/
def Stuck (place : Place) (rest : List Char) : Prop :=
  (∀ c ∈ rest.head?, place.advance c = none) ∧ (rest = [] → place.finish = none)

end Place

/-! ## What the reader finds -/

open Place Canonical

theorem recordsOf_of_finish {text : List Char} {records last : List Record} {place : Place}
    (h : Reads start text records place) (hfinish : place.finish = some last) :
    recordsOf text = .ok (records ++ last) := by
  rw [recordsOf, ← List.append_nil text, readRecords_append h, readRecords, hfinish]
  simp [reverse_of_finish hfinish]

theorem recordsOf_of_stuck {front rest : List Char} {records : List Record} {place : Place}
    (h : Reads start front records place) (hstuck : Stuck place rest) :
    recordsOf (front ++ rest) = .error ⟨(String.ofList front).utf8ByteSize, place.expected⟩ := by
  rw [recordsOf, readRecords_append h, Nat.zero_add]
  cases rest with
  | nil =>
    rw [readRecords, hstuck.2 rfl]
  | cons c cs =>
    rw [readRecords, hstuck.1 c rfl]

/-- Every text is read to an end where it may end, or up to a place where the reader is stuck. -/
theorem reads_or_stuck (text : List Char) :
    (∃ records last place, Reads start text records place ∧ place.finish = some last) ∨
      ∃ front rest records place, text = front ++ rest ∧ Reads start front records place ∧
        Stuck place rest := by
  obtain ⟨front, rest, records, place, rfl, hreads, hstop⟩ := Reads.stalls start text
  cases rest with
  | cons c cs => exact .inr ⟨front, c :: cs, records, place, rfl, hreads, hstop, nofun⟩
  | nil =>
    cases hfinish : place.finish with
    | none => exact .inr ⟨front, [], records, place, rfl, hreads, hstop, fun _ => hfinish⟩
    | some last =>
      rw [List.append_nil]
      exact .inl ⟨records, last, place, hreads, hfinish⟩

theorem written_of_finish {text : List Char} {records last : List Record} {place : Place}
    (h : Reads start text records place) (hfinish : place.finish = some last) :
    Written (records ++ last) text := by
  obtain ⟨hp, hrecords, htext⟩ := h.spec trivial
  obtain ⟨hlast, hsep⟩ := finish_spec hp hfinish
  refine ⟨List.forall_mem_append.2 ⟨hrecords, hlast⟩, ?_⟩
  rw [show text = terminated ';' Record.text records ++ place.text from htext]
  exact hsep.prepend records

/-- The reader finds the records of exactly the texts of the grammar. -/
theorem recordsOf_eq_ok {text : List Char} {records : List Record} :
    recordsOf text = .ok records ↔ Written records text := by
  constructor
  · intro h
    rcases reads_or_stuck text with
      ⟨done, last, place, hreads, hfinish⟩ | ⟨front, rest, done, place, rfl, hreads, hstuck⟩
    · rw [recordsOf_of_finish hreads hfinish] at h
      cases h
      exact written_of_finish hreads hfinish
    · rw [recordsOf_of_stuck hreads hstuck] at h
      cases h
  · intro h
    obtain ⟨done, last, place, hreads, hfinish, rfl⟩ := Reads.written (.inl rfl) h
    exact recordsOf_of_finish hreads hfinish

/-- The reader refuses exactly the texts outside the grammar. -/
theorem recordsOf_eq_error {text : List Char} :
    (∃ e, recordsOf text = .error e) ↔ ¬ Grammatical text := by
  constructor
  · rintro ⟨e, h⟩ ⟨records, hw⟩
    rw [recordsOf_eq_ok.2 hw] at h
    cases h
  · intro hno
    cases h : recordsOf text with
    | error e => exact ⟨e, rfl⟩
    | ok records => exact absurd ⟨records, recordsOf_eq_ok.1 h⟩ hno

end QuintupleMachine
