import QuintupleMachine.CommandLine.Command

/-! # A flag before other arguments

Arguments are read one after the other, and what was given before matters to them only where an
option is repeated.  So a flag that stands in front of other arguments is found among what was given
in the end, and makes no other difference (`Adds.readArguments`). -/

namespace QuintupleMachine.CommandLine

/-- `Adds name plain given`: apart from the flag `name`, which was given first, the arguments in
`given` are those in `plain`. -/
structure Adds (name : String) (plain given : Given) : Prop where
  options : given.options = plain.options ++ [(name, "")]
  positionals : given.positionals = plain.positionals
  lacks : plain.has name = false

namespace Adds

variable {name other : String} {plain given result : Given} {specs : List OptionSpec}
  {spec : OptionSpec} {waiting : Option OptionSpec} {room : Nat}

theorem has (h : Adds name plain given) (other : String) :
    given.has other = (plain.has other || decide (name = other)) := by
  simp [Given.has, h.options]

theorem has_self (h : Adds name plain given) : given.has name = true := by
  simp [h.has]

theorem has_of_ne (h : Adds name plain given) (hne : name ≠ other) :
    given.has other = plain.has other := by
  simp [h.has, hne]

theorem value?_of_ne (h : Adds name plain given) (hne : name ≠ other) :
    given.value? other = plain.value? other := by
  simp [Given.value?, h.options, List.find?_append, hne]

/-- Any other option may be given as well. -/
theorem cons (h : Adds name plain given) (hne : spec.name ≠ name) (value : String) :
    Adds name { plain with options := (spec.name, value) :: plain.options }
      { given with options := (spec.name, value) :: given.options } where
  options := congrArg _ h.options
  positionals := h.positionals
  lacks := by
    have hlacks := h.lacks
    unfold Given.has at hlacks ⊢
    rw [List.any_cons, hlacks, decide_eq_false hne]
    rfl

/-! ## Reading -/

theorem addFlag (h : Adds name plain given) (hspec : spec.name = name → spec.kind = .flag)
    (hread : given.addFlag spec = .ok result) :
    ∃ rest, plain.addFlag spec = .ok rest ∧ Adds name rest result := by
  unfold Given.addFlag at hread ⊢
  cases hkind : spec.kind with
  | help | version | value accepts => rw [hkind] at hread; cases hread
  | counter =>
    rw [hkind] at hread
    cases hread
    have hne : spec.name ≠ name := by
      intro heq
      rw [hspec heq] at hkind
      cases hkind
    exact ⟨_, rfl, h.cons hne ""⟩
  | flag =>
    rw [hkind] at hread
    dsimp only at hread ⊢
    split at hread
    · cases hread
    · next hnew =>
      cases hread
      have hne : name ≠ spec.name := by
        rintro rfl
        exact hnew h.has_self
      rw [h.has_of_ne hne] at hnew
      exact ⟨_, if_neg hnew, h.cons hne.symm ""⟩

theorem addValue (h : Adds name plain given) (hspec : spec.name = name → spec.kind = .flag)
    {value : String} (hread : given.addValue spec value = .ok result) :
    ∃ rest, plain.addValue spec value = .ok rest ∧ Adds name rest result := by
  unfold Given.addValue at hread ⊢
  cases hkind : spec.kind with
  | help | version | counter | flag => rw [hkind] at hread; cases hread
  | value accepts =>
    rw [hkind] at hread
    dsimp only at hread ⊢
    have hne : spec.name ≠ name := by
      intro heq
      rw [hspec heq] at hkind
      cases hkind
    rw [h.has_of_ne hne.symm] at hread
    split at hread
    · cases hread
    · next hnew =>
      split at hread
      · next haccepts =>
        cases hread
        rw [if_neg hnew, if_pos haccepts]
        exact ⟨_, rfl, h.cons hne value⟩
      · cases hread

theorem addPositionals (h : Adds name plain given) {arguments : List String}
    (hread : CommandLine.addPositionals room given arguments = .ok result) :
    ∃ rest, CommandLine.addPositionals room plain arguments = .ok rest ∧ Adds name rest result := by
  induction arguments generalizing plain given with
  | nil =>
    cases hread
    exact ⟨plain, rfl, h⟩
  | cons argument arguments ih =>
    rw [CommandLine.addPositionals] at hread ⊢
    split at hread
    · next hroom =>
      rw [h.positionals] at hroom
      rw [if_pos hroom]
      have hnext : Adds name { plain with positionals := plain.positionals ++ [argument] }
          { given with positionals := given.positionals ++ [argument] } :=
        ⟨h.options, congrArg (· ++ [argument]) h.positionals, h.lacks⟩
      exact ih hnext hread
    · cases hread

/-- An argument that is complete leaves no option waiting for its value. -/
theorem complete {one two : Except Interruption Given}
    (h : ∀ result, two = .ok result → ∃ rest, one = .ok rest ∧ Adds name rest result)
    (hread : two.map (·, none) = .ok (result, waiting)) :
    ∃ rest, one.map (·, none) = .ok (rest, waiting) ∧ Adds name rest result ∧
      ∀ spec ∈ waiting, spec ∈ specs := by
  cases two with
  | error e => cases hread
  | ok given =>
    cases hread
    obtain ⟨rest, rfl, hrest⟩ := h _ rfl
    exact ⟨rest, rfl, hrest, by simp⟩

section

variable (hspecs : ∀ spec ∈ specs, spec.name = name → spec.kind = .flag)
include hspecs

theorem readShort (h : Adds name plain given) {letters : List Char}
    (hread : CommandLine.readShort specs given letters = .ok (result, waiting)) :
    ∃ rest, CommandLine.readShort specs plain letters = .ok (rest, waiting) ∧
      Adds name rest result ∧ ∀ spec ∈ waiting, spec ∈ specs := by
  induction letters generalizing plain given with
  | nil =>
    cases hread
    exact ⟨plain, rfl, h, by simp⟩
  | cons c cs ih =>
    rw [CommandLine.readShort] at hread ⊢
    cases hfind : specs.find? (fun spec => spec.short = some c) with
    | none => rw [hfind] at hread; cases hread
    | some spec =>
      have hmem : spec ∈ specs := List.mem_of_find?_eq_some hfind
      rw [hfind] at hread
      dsimp only at hread ⊢
      split at hread
      · next htakes =>
        rw [if_pos htakes]
        split at hread
        · cases hread
          exact ⟨plain, rfl, h, by simpa using hmem⟩
        · exact complete (fun _ => h.addValue (hspecs spec hmem)) hread
        · exact complete (fun _ => h.addValue (hspecs spec hmem)) hread
      · next htakes =>
        rw [if_neg htakes]
        split at hread
        · next next hnext =>
          obtain ⟨rest, hrest, hadds⟩ := h.addFlag (hspecs spec hmem) hnext
          rw [hrest]
          exact ih hadds hread
        · cases hread

theorem readLong (h : Adds name plain given) {long : List Char} {value : Option (List Char)}
    (hread : CommandLine.readLong specs given long value = .ok (result, waiting)) :
    ∃ rest, CommandLine.readLong specs plain long value = .ok (rest, waiting) ∧
      Adds name rest result ∧ ∀ spec ∈ waiting, spec ∈ specs := by
  unfold CommandLine.readLong at hread ⊢
  cases hfind : specs.find? (fun spec => spec.name = String.ofList long) with
  | none => rw [hfind] at hread; cases hread
  | some spec =>
    have hmem : spec ∈ specs := List.mem_of_find?_eq_some hfind
    rw [hfind] at hread
    cases value with
    | some value => exact complete (fun _ => h.addValue (hspecs spec hmem)) hread
    | none =>
      dsimp only at hread ⊢
      split at hread
      · next htakes =>
        cases hread
        rw [if_pos htakes]
        exact ⟨plain, rfl, h, by simpa using hmem⟩
      · next htakes =>
        rw [if_neg htakes]
        exact complete (fun _ => h.addFlag (hspecs spec hmem)) hread

/-- What is read after a flag is what is read without it, and the flag is not given again. -/
theorem readArguments (h : Adds name plain given) (hwaiting : ∀ spec ∈ waiting, spec ∈ specs)
    {arguments : List String}
    (hread : CommandLine.readArguments specs room waiting given arguments = .ok result) :
    ∃ rest, CommandLine.readArguments specs room waiting plain arguments = .ok rest ∧
      Adds name rest result := by
  induction arguments generalizing plain given waiting with
  | nil =>
    cases waiting with
    | some spec => cases hread
    | none =>
      cases hread
      exact ⟨plain, rfl, h⟩
  | cons argument arguments ih =>
    unfold CommandLine.readArguments at hread ⊢
    cases waiting with
    | some spec =>
      have hspec := hspecs spec (hwaiting spec rfl)
      cases hword : Word.ofArgument argument with
      | escape | long | short => rw [hword] at hread; cases hread
      | plain =>
        rw [hword] at hread
        dsimp only at hread ⊢
        split at hread
        · next next hnext =>
          obtain ⟨rest, hrest, hadds⟩ := h.addValue hspec hnext
          rw [hrest]
          exact ih hadds (by simp) hread
        · cases hread
    | none =>
      cases hword : Word.ofArgument argument with
      | escape =>
        rw [hword] at hread
        exact h.addPositionals hread
      | plain =>
        rw [hword] at hread
        dsimp only at hread ⊢
        split at hread
        · next next hnext =>
          obtain ⟨rest, hrest, hadds⟩ := h.addPositionals hnext
          rw [hrest]
          exact ih hadds (by simp) hread
        · cases hread
      | long long value =>
        rw [hword] at hread
        dsimp only at hread ⊢
        split at hread
        · next next waiting hnext =>
          obtain ⟨rest, hrest, hadds, hwaiting⟩ := h.readLong hspecs hnext
          rw [hrest]
          exact ih hadds hwaiting hread
        · cases hread
      | short letters =>
        rw [hword] at hread
        dsimp only at hread ⊢
        split at hread
        · next next waiting hnext =>
          obtain ⟨rest, hrest, hadds, hwaiting⟩ := h.readShort hspecs hnext
          rw [hrest]
          exact ih hadds hwaiting hread
        · cases hread

end

end Adds

end QuintupleMachine.CommandLine
