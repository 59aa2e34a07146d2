import QuintupleMachine.Program.Catalogue
import QuintupleMachine.Proofs.Machine.Transduction
import QuintupleMachine.Proofs.Notations
import QuintupleMachine.Proofs.Program.File

/-! # What the programs of the catalogue do

The tables of the catalogue have no problems and only move to the right, so each of them transduces
any tape (`Program.Rewrites.of_transduce`).  Two of them have a single state, which treats all cells
alike.  The third accepts whatever it reads and goes round its four states, so that the index of a
cell tells the state in which the head comes to it (`Table.transduce_alternating`). -/

namespace QuintupleMachine

/-- The symbol that stands in a cell if `0` and `1` take turns in every other cell. -/
def alternate (i : Nat) : Symbol :=
  if i % 4 = 0 then .zero else if i % 4 = 2 then .one else .blank

namespace Table

/-- The table of the program that prints `0` and `1` in turn. -/
def alternating : Table :=
  .ofList [⟨1, .blank, .zero, .right, 2⟩, ⟨2, .blank, .blank, .right, 3⟩,
    ⟨3, .blank, .one, .right, 4⟩, ⟨4, .blank, .blank, .right, 1⟩]

/-- The table of the program that prints `1`. -/
def ones : Table := .ofList [⟨1, .blank, .one, .right, 1⟩]

/-- The table of the program that turns `1` into `0`. -/
def onesToZeros : Table := .ofList [⟨1, .one, .zero, .right, 1⟩]

/-! ## What the tables write -/

/-- The state for a cell is its index modulo four. -/
theorem get?_alternating (k : Nat) :
    alternating.get? (k % 4 + 1) =
      some ⟨k % 4 + 1, .blank, alternate k, .right, (k + 1) % 4 + 1⟩ := by
  have hrules : ∀ r < 4, alternating.get? (r + 1) =
      some ⟨r + 1, .blank, alternate r, .right, (r + 1) % 4 + 1⟩ := by
    decide
  rw [hrules (k % 4) (Nat.mod_lt k (by decide)), alternate, alternate, Nat.mod_mod, Nat.mod_add_mod]

theorem transduce_alternating (k : Nat) (cells : List Symbol) :
    alternating.transduce (k % 4 + 1) cells = cells.mapIdx fun i _ => alternate (k + i) := by
  induction cells generalizing k with
  | nil => rfl
  | cons symbol ahead ih =>
    rw [transduce_cons (get?_alternating k), List.mapIdx_cons]
    simp only [Quintuple.accepts, decide_true, Bool.true_or, if_true, ih, Nat.add_zero,
      Nat.add_assoc, Nat.add_comm 1]

theorem transduce_ones (cells : List Symbol) :
    ones.transduce 1 cells = cells.mapIdx fun _ _ => .one := by
  have hrule : ones.get? 1 = some ⟨1, .blank, .one, .right, 1⟩ := rfl
  induction cells with
  | nil => rfl
  | cons symbol ahead ih =>
    rw [transduce_cons hrule, List.mapIdx_cons]
    simp only [Quintuple.accepts, decide_true, Bool.true_or, if_true, ih]

theorem transduce_onesToZeros (cells : List Symbol) :
    onesToZeros.transduce 1 cells =
      cells.mapIdx fun _ symbol => if symbol = .one then .zero else symbol := by
  have hrule : onesToZeros.get? 1 = some ⟨1, .one, .zero, .right, 1⟩ := rfl
  induction cells with
  | nil => rfl
  | cons symbol ahead ih =>
    rw [transduce_cons hrule, List.mapIdx_cons, ite_self, ih]
    cases symbol <;> rfl

end Table

namespace Program

/-- On a tape, the program fires once for each cell and leaves the tape, and what was in cell `i`
has become `f i` of it. -/
def Rewrites (p : Program) (tape : Tape) (f : Nat → Symbol → Symbol) : Prop :=
  ∃ last, (Machine.start p.table tape).Fired tape.length last ∧
    (Machine.start p.table tape).run = some (.offTape, last) ∧
    ∀ i, last.tape.get? i = (tape.get? i).map (f i)

theorem Rewrites.of_transduce {p : Program} {tape : Tape} {f : Nat → Symbol → Symbol}
    (hright : p.table.MovesRight) (hclean : p.table.problems = [])
    (hlength : tape.length ≤ Number.greatest)
    (h : ∀ cells, p.table.transduce entryState cells = cells.mapIdx f) : p.Rewrites tape f := by
  obtain ⟨last, hfired, hhalt, hcells⟩ := Machine.exists_pass hright hclean hlength
  refine ⟨last, hfired, hfired.run hhalt, fun i => ?_⟩
  rw [Tape.get?_eq_toList, hcells, h, List.getElem?_mapIdx, Tape.get?_eq_toList]

/-! ## Reading the texts -/

/-- A file with a name, a tape and the description of a table is read as the program that has all
three. -/
theorem result_of_description (other : String) {content name tape : String} {table : Table}
    (hrange : table.InRange) (hpos : table.Positive) (htape : Tape.Written tape.toList)
    (hnames : headers nameWord content = [name.toList])
    (htapes : headers tapeWord content = [tape.toList])
    (hletters : letters content = table.description.toList) :
    (read other content).result = .ok ⟨name, table.description, some tape, table⟩ := by
  have hwritten : ∀ value ∈ headers tapeWord content, Tape.Written value := by
    rw [htapes, List.forall_mem_singleton]
    exact htape
  rw [result_of_written other hwritten, hnames, htapes, hletters, String.ofList_toList,
    Table.decode_description hrange hpos, List.getLast?_singleton, Option.map_some,
    String.ofList_toList]
  simp only [List.getLast?_singleton, Option.map_some, Option.getD_some, String.ofList_toList]
  rfl

namespace Catalogue

theorem statements_alternating :
    statements alternating =
      ["name: alternating".toList, "tape: ________________________________________".toList,
        "DADDCRDAA;".toList, "DAADDRDAAA;".toList, "DAAADDCCRDAAAA;".toList,
        "DAAAADDRDA;".toList] := by
  rw [alternating, statements_intercalate]
  rfl

theorem statements_ones :
    statements ones = ["name: ones".toList, "tape: __________".toList, "DADDCCRDA;".toList] := by
  rw [ones, statements_intercalate]
  rfl

theorem statements_onesToZeros :
    statements onesToZeros =
      ["name: ones-to-zeros".toList, "tape: 1_01_1_11".toList, "DADCCDCRDA;".toList] := by
  rw [onesToZeros, statements_intercalate]
  rfl

theorem result_alternating :
    (read "alternating" alternating).result =
      .ok ⟨"alternating", Table.alternating.description,
        some "________________________________________", Table.alternating⟩ := by
  apply result_of_description "alternating" (by decide) (by decide) (by decide)
  · rw [headers, statements_alternating]
    rfl
  · rw [headers, statements_alternating]
    rfl
  · rw [letters, statements_alternating, Table.description, String.toList_ofList]
    rfl

theorem result_ones :
    (read "ones" ones).result =
      .ok ⟨"ones", Table.ones.description, some "__________", Table.ones⟩ := by
  apply result_of_description "ones" (by decide) (by decide) (by decide)
  · rw [headers, statements_ones]
    rfl
  · rw [headers, statements_ones]
    rfl
  · rw [letters, statements_ones, Table.description, String.toList_ofList]
    rfl

theorem result_onesToZeros :
    (read "ones-to-zeros" onesToZeros).result =
      .ok ⟨"ones-to-zeros", Table.onesToZeros.description, some "1_01_1_11",
        Table.onesToZeros⟩ := by
  apply result_of_description "ones-to-zeros" (by decide) (by decide) (by decide)
  · rw [headers, statements_onesToZeros]
    rfl
  · rw [headers, statements_onesToZeros]
    rfl
  · rw [letters, statements_onesToZeros, Table.description, String.toList_ofList]
    rfl

/-- The texts are not opened here, or else the checker reads all of them once more. -/
theorem toOption_read {entry : String × String} {p : Program}
    (h : (read entry.1 entry.2).result = .ok p) :
    (read entry.1 entry.2).result.toOption = some p := by
  rw [h]
  rfl

theorem programs_eq {a b c : Program} (ha : (read "alternating" alternating).result = .ok a)
    (hb : (read "ones" ones).result = .ok b)
    (hc : (read "ones-to-zeros" onesToZeros).result = .ok c) : programs = [a, b, c] := by
  rw [programs, texts, List.filterMap_cons_some (b := a), List.filterMap_cons_some (b := b),
    List.filterMap_cons_some (b := c), List.filterMap_nil]
  · exact @toOption_read ("ones-to-zeros", onesToZeros) c hc
  · exact @toOption_read ("ones", ones) b hb
  · exact @toOption_read ("alternating", alternating) a ha

end Catalogue

/-- The catalogue has three programs.  On every tape whose length is a 64-bit number each of them
leaves the tape after one firing for each cell.  The first has then written `0`, blank, `1` and
blank in turn, the second `1` in every cell, and the third has turned every `1` into `0` and changed
no other cell. -/
theorem catalogue_rewrites (tape : Tape) (hlength : tape.length ≤ Number.greatest) :
    ∃ a b c : Program, Catalogue.programs = [a, b, c] ∧
      (read "alternating" Catalogue.alternating).result = .ok a ∧
      a.Rewrites tape (fun i _ => alternate i) ∧
      (read "ones" Catalogue.ones).result = .ok b ∧
      b.Rewrites tape (fun _ _ => .one) ∧
      (read "ones-to-zeros" Catalogue.onesToZeros).result = .ok c ∧
      c.Rewrites tape (fun _ symbol => if symbol = .one then .zero else symbol) := by
  have ha := Catalogue.result_alternating
  have hb := Catalogue.result_ones
  have hc := Catalogue.result_onesToZeros
  refine ⟨_, _, _, Catalogue.programs_eq ha hb hc, ha, ?_, hb, ?_, hc, ?_⟩
  · refine .of_transduce (by decide) (by decide) hlength fun cells => ?_
    have hcells := Table.transduce_alternating 0 cells
    simp only [Nat.zero_add] at hcells
    exact hcells
  · exact .of_transduce (by decide) (by decide) hlength Table.transduce_ones
  · exact .of_transduce (by decide) (by decide) hlength Table.transduce_onesToZeros

/-- A tape of five cells with all three symbols. -/
theorem catalogue_rewrites_five :
    ∃ a c last last', (read "alternating" Catalogue.alternating).result = .ok a ∧
      (Machine.start a.table ⟨#[.one, .blank, .zero, .one, .one]⟩).run = some (.offTape, last) ∧
      last.tape = ⟨#[.zero, .blank, .one, .blank, .zero]⟩ ∧
      (read "ones-to-zeros" Catalogue.onesToZeros).result = .ok c ∧
      (Machine.start c.table ⟨#[.one, .blank, .zero, .one, .one]⟩).run = some (.offTape, last') ∧
      last'.tape = ⟨#[.zero, .blank, .zero, .zero, .zero]⟩ := by
  obtain ⟨a, b, c, -, ha, ⟨last, -, hrun, hcells⟩, -, -, hc, ⟨last', -, hrun', hcells'⟩⟩ :=
    catalogue_rewrites ⟨#[.one, .blank, .zero, .one, .one]⟩ (by decide)
  refine ⟨a, c, last, last', ha, hrun, Tape.ext_get? fun i => ?_, hc, hrun',
    Tape.ext_get? fun i => ?_⟩
  · rw [hcells]
    match i with
    | 0 | 1 | 2 | 3 | 4 | _ + 5 => rfl
  · rw [hcells']
    match i with
    | 0 | 1 | 2 | 3 | 4 | _ + 5 => rfl

end Program

end QuintupleMachine
