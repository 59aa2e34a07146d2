import QuintupleMachine.Proofs.Description.Language

/-! # Descriptions behind one another

Behind a `;` a new rule begins, whatever stood before.  So a text that is cut behind a `;` is a
description exactly if both parts are, and it stands for the table of the first part, overridden by
the table of the second (`decode_append_eq_ok`).  Where no state is defined in both parts, their
order does not matter. -/

namespace QuintupleMachine

namespace Table

/-- The rules of two tables; for a state that both define the rule of the second one counts. -/
def override (below above : Table) : Table := above.quintuples.foldl insert below

variable {below above : Table}

theorem get?_override (below above : Table) (state : Nat) :
    (below.override above).get? state =
      if above.defines state then above.get? state else below.get? state := by
  have habove : lastRule? above.quintuples state = above.get? state := by
    rw [← get?_ofList, ofList_quintuples]
  rw [override, get?_foldl_insert, habove, defines]
  cases above.get? state <;> rfl

/-- Tables that define no state in common may override one another in any order. -/
theorem override_comm
    (h : ∀ state, ¬ (below.defines state = true ∧ above.defines state = true)) :
    below.override above = above.override below := by
  have undefined : ∀ {table : Table} {state}, ¬ table.defines state = true →
      table.get? state = none := by
    intro table state hno
    rwa [defines, Option.isSome_iff_ne_none, not_not] at hno
  apply ext_get?
  intro state
  rw [get?_override, get?_override]
  by_cases hbelow : below.defines state = true
  · have habove : ¬ above.defines state = true := fun habove => h state ⟨hbelow, habove⟩
    rw [if_neg habove, if_pos hbelow]
  · rw [if_neg hbelow, undefined hbelow]
    split
    · rfl
    · next habove => exact (undefined habove).symm

/-- The table of rules behind one another. -/
theorem ofList_append (rules more : List Quintuple) :
    ofList (rules ++ more) = (ofList rules).override (ofList more) := by
  apply ext_get?
  intro state
  rw [get?_override, defines, get?_ofList, lastRule?_append, get?_ofList, get?_ofList]
  cases lastRule? more state <;> rfl

end Table

namespace Description

/-- A text behind which a rule can begin: it is empty or ends with `;`. -/
def Complete (letters : String) : Prop :=
  letters.toList = [] ∨ letters.toList.getLast? = some ';'

variable {first second : String}

/-- The rules of two texts, one behind the other, are those of the first and those of the second. -/
theorem separated_append_iff (hfirst : Complete first) {runs : List Runs} :
    Separated ';' Runs.letters runs (first ++ second).toList ↔
      ∃ rs more, runs = rs ++ more ∧ Separated ';' Runs.letters rs first.toList ∧
        Separated ';' Runs.letters more second.toList := by
  rw [String.toList_append]
  exact Separated.append_iff Runs.mark_notMem_letters Runs.letters_ne_nil hfirst

/-- Two texts behind one another stand for a table exactly if each of them does, and the table of
the second overrides that of the first. -/
theorem decode_append_eq_ok (hfirst : Complete first)
    (hlength : (first ++ second).length ≤ Number.greatest) {table : Table} :
    decode (first ++ second) = .ok table ↔
      ∃ below above, decode first = .ok below ∧ decode second = .ok above ∧
        table = below.override above := by
  have hlengths : first.length ≤ Number.greatest ∧ second.length ≤ Number.greatest := by
    rw [String.length_append] at hlength
    omega
  rw [decode_eq_ok hlength]
  simp only [decode_eq_ok hlengths.1, decode_eq_ok hlengths.2]
  constructor
  · rintro ⟨runs, hruns, rfl⟩
    obtain ⟨runs, more, rfl, hruns, hmore⟩ := (separated_append_iff hfirst).1 hruns
    refine ⟨_, _, ⟨runs, hruns, rfl⟩, ⟨more, hmore, rfl⟩, ?_⟩
    rw [List.map_append, Table.ofList_append]
  · rintro ⟨_, _, ⟨runs, hruns, rfl⟩, ⟨more, hmore, rfl⟩, rfl⟩
    refine ⟨runs ++ more, (separated_append_iff hfirst).2 ⟨runs, more, rfl, hruns, hmore⟩, ?_⟩
    rw [List.map_append, Table.ofList_append]

/-- Let a text be empty or end with `;`.  With another text behind it, it is a description exactly
if both are, and then each state has its rule from the second text, or else from the first.  Complete
descriptions that define no state in common may therefore be exchanged. -/
theorem decode_append (first second : String) (hfirst : Complete first)
    (hlength : (first ++ second).length ≤ Number.greatest) :
    ((∃ table, decode (first ++ second) = .ok table) ↔
      (∃ below, decode first = .ok below) ∧ ∃ above, decode second = .ok above) ∧
    (∀ below above table, decode first = .ok below → decode second = .ok above →
      decode (first ++ second) = .ok table →
      ∀ state, table.get? state =
        if above.defines state then above.get? state else below.get? state) ∧
    (Complete second → ∀ below above, decode first = .ok below → decode second = .ok above →
      (∀ state, ¬ (below.defines state = true ∧ above.defines state = true)) →
      decode (first ++ second) = decode (second ++ first)) := by
  have happend {below above : Table} (hbelow : decode first = .ok below)
      (habove : decode second = .ok above) :
      decode (first ++ second) = .ok (below.override above) :=
    (decode_append_eq_ok hfirst hlength).2 ⟨below, above, hbelow, habove, rfl⟩
  refine ⟨?_, ?_, ?_⟩
  · constructor
    · rintro ⟨table, h⟩
      obtain ⟨below, above, hbelow, habove, -⟩ := (decode_append_eq_ok hfirst hlength).1 h
      exact ⟨⟨below, hbelow⟩, ⟨above, habove⟩⟩
    · rintro ⟨⟨below, hbelow⟩, ⟨above, habove⟩⟩
      exact ⟨_, happend hbelow habove⟩
  · intro below above table hbelow habove h state
    rw [happend hbelow habove] at h
    obtain rfl := Except.ok.inj h
    exact Table.get?_override below above state
  · intro hsecond below above hbelow habove hdisjoint
    have hlength' : (second ++ first).length ≤ Number.greatest := by
      rw [String.length_append] at hlength ⊢
      omega
    rw [happend hbelow habove, Table.override_comm hdisjoint, eq_comm,
      decode_append_eq_ok hsecond hlength']
    exact ⟨above, below, habove, hbelow, rfl⟩

/-- State 1 is overridden by a text without a last `;`, and two rules for other states change
places. -/
theorem decode_append_rules :
    (∃ table, decode ("DADDRDA;" ++ "DADDCRDAA") = .ok table ∧
      table.get? 1 = some ⟨1, .blank, .zero, .right, 2⟩) ∧
    decode ("DADDRDA;" ++ "DAADDLDA;") = decode ("DAADDLDA;" ++ "DADDRDA;") := by
  have hcomplete : Complete "DADDRDA;" := .inr rfl
  have hbelow : decode "DADDRDA;" = .ok (.ofList [⟨1, .blank, .blank, .right, 1⟩]) := rfl
  constructor
  · have habove : decode "DADDCRDAA" = .ok (.ofList [⟨1, .blank, .zero, .right, 2⟩]) := rfl
    obtain ⟨happend, hget, -⟩ := decode_append "DADDRDA;" "DADDCRDAA" hcomplete (by decide)
    obtain ⟨table, htable⟩ := happend.2 ⟨⟨_, hbelow⟩, ⟨_, habove⟩⟩
    exact ⟨table, htable, hget _ _ _ hbelow habove htable 1⟩
  · have habove : decode "DAADDLDA;" = .ok (.ofList [⟨2, .blank, .blank, .left, 1⟩]) := rfl
    refine (decode_append "DADDRDA;" "DAADDLDA;" hcomplete (by decide)).2.2 (.inr rfl) _ _
      hbelow habove ?_
    rintro state ⟨hfirst, hsecond⟩
    obtain ⟨_, hmem, rfl⟩ := Table.defines_ofList.1 hfirst
    obtain ⟨_, hmem', hstate⟩ := Table.defines_ofList.1 hsecond
    rw [List.mem_singleton] at hmem hmem'
    rw [hmem, hmem'] at hstate
    cases hstate

end Description

end QuintupleMachine
