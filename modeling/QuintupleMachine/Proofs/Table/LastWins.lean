import QuintupleMachine.Json.Form
import QuintupleMachine.Proofs.Notations

/-! # The last rule wins

However a table is made from a list of rules, one rule after the other, all at once or from an array
in JSON, it is the same table: each state has the last of its rules (`LastWins`).  Its own list of
rules is what is left of the list without the rules that are replaced later on (`latest`), by
ascending state.  A table is made again from this list, and from its own JSON. -/

namespace QuintupleMachine

/-! ## Rules that are not replaced -/

/-- The rules that no later rule for the same state follows, in order. -/
def latest : List Quintuple → List Quintuple
  | [] => []
  | rule :: rules =>
    if ∀ later ∈ rules, later.state ≠ rule.state then rule :: latest rules else latest rules

/-- The rules that are left are the last ones for their states. -/
theorem mem_latest {rules : List Quintuple} {rule : Quintuple} :
    rule ∈ latest rules ↔ lastRule? rules rule.state = some rule := by
  induction rules with
  | nil => simp [latest, lastRule?]
  | cons first rules ih =>
    rw [latest, lastRule?_cons]
    split
    · next hlast =>
      rw [List.mem_cons, ih]
      by_cases hstate : first.state = rule.state
      · have hnone : lastRule? rules rule.state = none := lastRule?_eq_none.2 (hstate ▸ hlast)
        simp [hstate, hnone, eq_comm]
      · have hne : rule ≠ first := fun h => hstate (congrArg Quintuple.state h.symm)
        simp [hstate, hne]
    · next hlater =>
      -- the rule for the first state comes later, so the first rule never counts
      rw [ih]
      cases hrule : lastRule? rules rule.state with
      | some last => simp
      | none =>
        have hne : first.state ≠ rule.state :=
          fun hstate => hlater (hstate ▸ lastRule?_eq_none.1 hrule)
        simp [hne]

/-- No two of the rules that are left are for the same state. -/
theorem pairwise_latest (rules : List Quintuple) :
    (latest rules).Pairwise fun a b => a.state ≠ b.state := by
  induction rules with
  | nil => exact .nil
  | cons first rules ih =>
    rw [latest]
    split
    · next hlast =>
      refine List.pairwise_cons.2 ⟨fun rule hrule => ?_, ih⟩
      exact (hlast rule (of_lastRule?_eq_some (mem_latest.1 hrule)).1).symm
    · exact ih

/-- The rules that are left, by ascending state. -/
def ordered (rules : List Quintuple) : List Quintuple :=
  (latest rules).mergeSort fun a b => a.state ≤ b.state

theorem mem_ordered {rules : List Quintuple} {rule : Quintuple} :
    rule ∈ ordered rules ↔ lastRule? rules rule.state = some rule := by
  rw [ordered, List.mem_mergeSort, mem_latest]

theorem ascends_ordered (rules : List Quintuple) :
    Ascending.Ascends Quintuple.state (ordered rules) := by
  have hle : (ordered rules).Pairwise fun a b => a.state ≤ b.state := by
    have h := @List.pairwise_mergeSort Quintuple (fun a b => decide (a.state ≤ b.state))
      (fun a b c hab hbc => by simp only [decide_eq_true_eq] at *; omega)
      (fun a b => by simp only [Bool.or_eq_true, decide_eq_true_eq]; omega) (latest rules)
    exact h.imp of_decide_eq_true
  have hne : (ordered rules).Pairwise fun a b => a.state ≠ b.state :=
    (List.mergeSort_perm (latest rules) _).symm.pairwise (pairwise_latest rules) Ne.symm
  exact (hle.and hne).imp fun h => Nat.lt_of_le_of_ne h.1 h.2

namespace Table

/-- A table lists the rules that are left, by ascending state. -/
theorem quintuples_eq_ordered (rules : List Quintuple) :
    (ofList rules).quintuples = ordered rules := by
  refine (ofList rules).ascends.eq_of_mem_iff (ascends_ordered rules) fun rule => ?_
  rw [mem_ordered, ← get?_ofList, get?_eq_some]
  simp

/-- The last of the ascending states is the greatest of all. -/
theorem maxState?_ofList (rules : List Quintuple) :
    (ofList rules).maxState? = (rules.map Quintuple.state).max? := by
  rw [maxState?]
  cases h : (ofList rules).states.getLast? with
  | none =>
    have hnone : rules.map Quintuple.state = [] := by
      apply List.eq_nil_iff_forall_not_mem.2
      intro state hstate
      rw [← mem_states_ofList, List.getLast?_eq_none_iff.1 h] at hstate
      cases hstate
    rw [hnone]
    rfl
  | some last =>
    obtain ⟨states, hstates⟩ := List.getLast?_eq_some_iff.1 h
    have hbelow : ∀ state ∈ states, state < last := by
      have hpairwise := (ofList rules).pairwise_states
      rw [hstates, List.pairwise_append] at hpairwise
      exact fun state hstate => hpairwise.2.2 state hstate last (List.mem_singleton_self last)
    refine (List.max?_eq_some_iff.2 ⟨?_, ?_⟩).symm
    · rw [← mem_states_ofList, hstates]
      simp
    · intro state hstate
      rw [← mem_states_ofList, hstates, List.mem_append, List.mem_singleton] at hstate
      rcases hstate with hstate | rfl
      · exact Nat.le_of_lt (hbelow state hstate)
      · exact Nat.le_refl state

end Table

/-! ## Tables in JSON -/

theorem Quintuple.ofJson?_toJson {rule : Quintuple} (h : rule.InRange) :
    ofJson? rule.toJson = some rule := by
  simp [toJson, ofJson?, Json.fieldsOf?, Json.field?, Json.number?, h.1, h.2]

namespace Table

theorem mapM_toJson {rules : List Quintuple} (h : ∀ rule ∈ rules, rule.InRange) :
    (rules.map Quintuple.toJson).mapM Quintuple.ofJson? = some rules := by
  induction rules with
  | nil => rfl
  | cons rule rules ih =>
    obtain ⟨hrule, hrules⟩ := List.forall_mem_cons.1 h
    rw [List.map_cons, List.mapM_cons, Quintuple.ofJson?_toJson hrule, ih hrules]
    rfl

/-- A table is the table of the rules that an array in JSON stands for. -/
theorem ofJson?_of_mapM {items : List Json} {rules : List Quintuple}
    (h : items.mapM Quintuple.ofJson? = some rules) :
    ofJson? (.array items) = some (ofList rules) := by
  rw [ofJson?, h]
  rfl

theorem ofJson?_toJson {table : Table} (h : table.InRange) : ofJson? table.toJson = some table := by
  rw [toJson, ofJson?_of_mapM (mapM_toJson h), ofList_quintuples]

theorem inRange_ofList {rules : List Quintuple} (h : ∀ rule ∈ rules, rule.InRange) :
    (ofList rules).InRange :=
  fun rule hrule => h rule (mem_of_mem_ofList hrule)

/-! ## The map of some rules -/

/-- A table maps each state to the last of its rules, and lists states and rules in order. -/
structure LastWins (rules : List Quintuple) (table : Table) : Prop where
  get?_eq : ∀ state, table.get? state = lastRule? rules state
  /-- What a state looks up is a rule for this state. -/
  state_eq : ∀ state rule, table.get? state = some rule → rule.state = state
  quintuples_ascend : table.quintuples.Pairwise fun a b => a.state < b.state
  states_ascend : table.states.Pairwise (· < ·)
  /-- Rules for one state count once. -/
  size_eq : table.size = (rules.map Quintuple.state).toFinset.card
  maxState_eq : table.maxState? = (rules.map Quintuple.state).max?
  /-- The list of a table is the given list without replaced rules, by ascending state. -/
  quintuples_eq : table.quintuples = ordered rules

theorem lastWins_ofList (rules : List Quintuple) : LastWins rules (ofList rules) where
  get?_eq := get?_ofList rules
  state_eq _ _ := state_of_get?
  quintuples_ascend := (ofList rules).ascends
  states_ascend := (ofList rules).pairwise_states
  size_eq := size_ofList rules
  maxState_eq := maxState?_ofList rules
  quintuples_eq := quintuples_eq_ordered rules

/-- Rules that are exchanged one after the other make up the table of their list. -/
theorem foldl_exchange (rules : List Quintuple) :
    rules.foldl (fun table rule => (table.exchange rule).2) empty = ofList rules := by
  simp only [exchange_eq]
  rfl

/-- Rules that are exchanged one after the other, or collected, or read from an array in JSON, make
up the map of the last rule for each state; what is exchanged is the rule that the state had before,
and no other state notices.  A table is made again from its list, which in JSON is that of the rules
without those replaced, by ascending state; so reading it a second time changes nothing. -/
theorem last_rules_win (rules : List Quintuple) (hrange : ∀ rule ∈ rules, rule.InRange) :
    LastWins rules (rules.foldl (fun table rule => (table.exchange rule).2) empty) ∧
    LastWins rules (ofList rules) ∧
    (∀ (table : Table) (rule : Quintuple), (table.exchange rule).1 = table.get? rule.state ∧
      (table.exchange rule).2.get? rule.state = some rule ∧
      ∀ state, state ≠ rule.state → (table.exchange rule).2.get? state = table.get? state) ∧
    (∀ table : Table, ofList table.quintuples = table) ∧
    (rules.map Quintuple.toJson).mapM Quintuple.ofJson? = some rules ∧
    ∀ items : List Json, items.mapM Quintuple.ofJson? = some rules →
      ∃ table, ofJson? (.array items) = some table ∧ LastWins rules table ∧
        table.toJson = .array ((ordered rules).map Quintuple.toJson) ∧
        ofJson? table.toJson = some table := by
  refine ⟨?_, lastWins_ofList rules, ?_, ofList_quintuples, mapM_toJson hrange, ?_⟩
  · rw [foldl_exchange]
    exact lastWins_ofList rules
  · intro table rule
    rw [exchange_eq]
    refine ⟨rfl, ?_, ?_⟩
    · rw [get?_insert, if_pos rfl]
    · intro state hstate
      rw [get?_insert, if_neg hstate.symm]
  · intro items hitems
    refine ⟨_, ofJson?_of_mapM hitems, lastWins_ofList rules, ?_, ?_⟩
    · rw [toJson, quintuples_eq_ordered]
    · exact ofJson?_toJson (inRange_ofList hrange)

/-- The least and the greatest state, of which the greatest is defined twice. -/
theorem last_rules_win_limits :
    ∃ table, ofJson? (.array ([⟨18446744073709551615, .zero, .one, .left, 1⟩,
        ⟨0, .blank, .one, .stay, 0⟩, ⟨18446744073709551615, .one, .zero, .right, 2⟩].map
          Quintuple.toJson)) = some table ∧
      table.get? 18446744073709551615 = some ⟨18446744073709551615, .one, .zero, .right, 2⟩ ∧
      table.maxState? = some 18446744073709551615 ∧ table.size = 2 ∧
      ofJson? table.toJson = some table := by
  obtain ⟨-, -, -, -, hwritten, hread⟩ := last_rules_win
    [⟨18446744073709551615, .zero, .one, .left, 1⟩, ⟨0, .blank, .one, .stay, 0⟩,
      ⟨18446744073709551615, .one, .zero, .right, 2⟩] (by decide)
  obtain ⟨table, htable, hmap, -, hagain⟩ := hread _ hwritten
  refine ⟨table, htable, ?_, ?_, ?_, hagain⟩
  · rw [hmap.get?_eq]
    decide
  · rw [hmap.maxState_eq]
    decide
  · rw [hmap.size_eq]
    decide

end Table

end QuintupleMachine
