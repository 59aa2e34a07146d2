import Mathlib.Data.Finset.Card
import QuintupleMachine.Proofs.Diagnosis.Problems
import QuintupleMachine.Proofs.Machine.History

/-! # One chain of states for all tapes

A table has one rule for each state, so a firing that accepts what it reads leaves only one state to
go on in, and a firing that does not leaves the state as it is.  The tape decides when the state
changes, but not what it changes to: after as many accepting firings, the runs on all tapes are in
the same state (`Reached.orbit_state`).

Where this chain of states ends, the accepting firings end as well, and with them the writing.  So
the cells that a run ever changes are no more than the links of the chain (`state_trajectory`). -/

namespace QuintupleMachine

/-! ## Records of one run -/

namespace Runner

variable {σ : Type} {r : Runner σ} {s : σ}

theorem advance_add (k n : Nat) (s : σ) : r.advance (k + n) s = r.advance n (r.advance k s) := by
  induction k generalizing s with
  | zero => rw [Nat.zero_add, advance]
  | succ k ih =>
    cases hs : r.halt? s with
    | some halt => simp only [advance_of_halt hs]
    | none => rw [Nat.succ_add, advance_of_running hs, advance_of_running hs, ih]

/-- The last firing of a run that is not over. -/
theorem advance_succ {n : Nat} (h : r.halt? (r.advance n s) = none) :
    r.advance (n + 1) s = r.fire (r.advance n s) := by
  rw [advance_add, advance_of_running h, advance]

/-- A record only grows. -/
theorem suffix_advance (n : Nat) (recorded : σ × List σ) :
    recorded.2 <:+ (r.recording.advance n recorded).2 := by
  induction n generalizing recorded with
  | zero => exact List.suffix_rfl
  | succ n ih =>
    cases hrunning : r.recording.halt? recorded with
    | some halt => rw [advance_of_halt hrunning]
    | none =>
      rw [advance_of_running hrunning]
      exact (List.suffix_cons recorded.1 recorded.2).trans (ih (r.recording.fire recorded))

theorem suffix_of_le {n n' : Nat} (h : n ≤ n') (recorded : σ × List σ) :
    (r.recording.advance n recorded).2 <:+ (r.recording.advance n' recorded).2 := by
  obtain ⟨k, rfl⟩ := Nat.exists_eq_add_of_le h
  rw [advance_add]
  exact suffix_advance k _

end Runner

namespace Machine

variable {table : Table} {tape : Tape} {past past' : List Machine} {m m' : Machine}
  {head i j q : Nat} {symbol : Symbol} {rule : Quintuple}

namespace Reached

/-- What is reached is reached without a reset. -/
theorem exists_advance (h : Reached table tape past m) :
    ∃ n, runner.recording.advance n (start table tape, []) = (m, past) := by
  induction h using Reached.induction with
  | start => exact ⟨0, rfl⟩
  | @fire past m h hrunning ih =>
    obtain ⟨n, hn⟩ := ih
    refine ⟨n + 1, ?_⟩
    rw [Runner.advance_succ, hn]
    · rfl
    · rw [hn]
      exact hrunning

/-- Of two records of one run, one goes on from the other. -/
theorem suffix_or (h : Reached table tape past m) (h' : Reached table tape past' m') :
    past <:+ past' ∨ past' <:+ past := by
  obtain ⟨n, hn⟩ := h.exists_advance
  obtain ⟨n', hn'⟩ := h'.exists_advance
  rcases Nat.le_total n n' with hle | hle
  · have hgrows := Runner.suffix_of_le (r := runner) hle (start table tape, [])
    rw [hn, hn'] at hgrows
    exact .inl hgrows
  · have hgrows := Runner.suffix_of_le (r := runner) hle (start table tape, [])
    rw [hn, hn'] at hgrows
    exact .inr hgrows

end Reached

/-! ## Accepting firings -/

/-- Whether the machine is about to fire a rule that accepts what it reads. -/
def accepts (m : Machine) : Bool := (m.firing?.map Firing.accepted).getD false

theorem Fires.accepts (h : m.Fires head symbol rule) : m.accepts = rule.accepts symbol := by
  simp only [Machine.accepts, firing?, h.head_eq, h.state_eq, Option.bind_some,
    CompiledState.fire_mk, Quintuple.fire, h.symbol_eq]
  cases rule.accepts symbol <;> rfl

/-- An accepting firing hands over, and any other leaves the state as it is. -/
theorem state_fire (htable : m.table = .compile table) (h : m.halt? = none) :
    if m.accepts then table.next? m.state = some m.fire.state else m.fire.state = m.state := by
  obtain ⟨head, symbol, rule, hfires⟩ := halt?_eq_none.1 h
  rw [hfires.accepts, hfires.fire, Table.next?_of_get? (hfires.rule_eq htable)]
  split <;> rfl

/-- The state is as many hand-overs from the entry state as there were accepting firings. -/
theorem Reached.orbit_state (h : Reached table tape past m) :
    orbit table.next? (past.countP accepts) entryState = some m.state := by
  induction h using Reached.induction with
  | start => rfl
  | @fire past m h hrunning ih =>
    have hstate := state_fire h.table_eq hrunning
    rw [List.countP_cons]
    split at hstate
    · next haccepts => rw [if_pos haccepts, orbit_succ, ih, Option.bind_some, hstate]
    · next haccepts => rw [if_neg haccepts, Nat.add_zero, ih, hstate]

/-- No firing accepts past the end of the chain. -/
theorem Reached.countP_le (h : Reached table tape past m)
    (hq : orbit table.next? j entryState = some q) (hundefined : table.defines q = false) :
    past.countP accepts ≤ j := by
  refine Nat.le_of_not_lt fun hlt => ?_
  have hnext : (orbit table.next? (j + 1) entryState).isSome :=
    isSome_orbit_of_le hlt (Option.isSome_of_eq_some h.orbit_state)
  rw [orbit_succ, hq, Option.bind_some, Table.next?, Table.get?_eq_none.2 hundefined] at hnext
  cases hnext

/-! ## Written cells -/

/-- The cells under the head before the accepting firings. -/
def writtenCells (past : List Machine) : List Nat := (past.filter accepts).filterMap Machine.head

theorem length_writtenCells_le (past : List Machine) :
    (writtenCells past).length ≤ past.countP accepts := by
  rw [List.countP_eq_length_filter]
  exact List.length_filterMap_le _ _

theorem writtenCells_subset (h : past <:+ past') : writtenCells past ⊆ writtenCells past' :=
  ((h.filter _).filterMap _).subset

/-- Cells that no accepting firing was on hold what they held at the start. -/
theorem Reached.get?_of_notMem (h : Reached table tape past m) (hi : i ∉ writtenCells past) :
    m.tape.get? i = tape.get? i := by
  induction h using Reached.induction with
  | start => rfl
  | @fire past m h hrunning ih =>
    have hbefore := ih fun hmem => hi (writtenCells_subset (List.suffix_cons m past) hmem)
    obtain ⟨head, symbol, rule, hfires⟩ := halt?_eq_none.1 hrunning
    rw [hfires.fire]
    split
    · next haccepts =>
      have hne : head ≠ i := by
        rintro rfl
        refine hi (List.mem_filterMap.2 ⟨m, ?_, hfires.head_eq⟩)
        exact List.mem_filter.2 ⟨List.mem_cons_self, hfires.accepts.trans haccepts⟩
      rw [← hbefore, Tape.get?_set, if_neg fun h => hne h.1]
    · exact hbefore

/-- Cells that are written sooner or later are all written at some point. -/
theorem exists_reached_of_forall {cells : Finset Nat}
    (h : ∀ i ∈ cells, ∃ past m, Reached table tape past m ∧ i ∈ writtenCells past) :
    ∃ past m, Reached table tape past m ∧ ∀ i ∈ cells, i ∈ writtenCells past := by
  induction cells using Finset.induction_on with
  | empty => exact ⟨[], _, .nil table tape, fun _ hi => absurd hi (Finset.notMem_empty _)⟩
  | insert c cells _ ih =>
    obtain ⟨hc, hcells⟩ := Finset.forall_mem_insert _ _ _ |>.1 h
    obtain ⟨past, m, hreached, hwritten⟩ := ih hcells
    obtain ⟨past', m', hreached', hwritten'⟩ := hc
    rcases hreached.suffix_or hreached' with hle | hle
    · refine ⟨past', m', hreached', (Finset.forall_mem_insert _ _ _).2 ⟨hwritten', ?_⟩⟩
      exact fun i hi => writtenCells_subset hle (hwritten i hi)
    · refine ⟨past, m, hreached, (Finset.forall_mem_insert _ _ _).2 ⟨?_, hwritten⟩⟩
      exact writtenCells_subset hle hwritten'

/-- Where accepting firings are bounded, so are the cells that are ever changed. -/
theorem card_changed_le (hbound : ∀ past m, Reached table tape past m → past.countP accepts ≤ j)
    {cells : Finset Nat}
    (h : ∀ i ∈ cells, ∃ past m, Reached table tape past m ∧ m.tape.get? i ≠ tape.get? i) :
    cells.card ≤ j := by
  have hwritten : ∀ i ∈ cells, ∃ past m, Reached table tape past m ∧ i ∈ writtenCells past := by
    intro i hi
    obtain ⟨past, m, hreached, hchanged⟩ := h i hi
    exact ⟨past, m, hreached, by_contra fun hnot => hchanged (hreached.get?_of_notMem hnot)⟩
  obtain ⟨past, m, hreached, hall⟩ := exists_reached_of_forall hwritten
  calc
    cells.card
      ≤ (writtenCells past).toFinset.card :=
        Finset.card_le_card fun i hi => List.mem_toFinset.2 (hall i hi)
    _ ≤ (writtenCells past).length := List.toFinset_card_le _
    _ ≤ past.countP accepts := length_writtenCells_le past
    _ ≤ j := hbound past m hreached

/-- Whatever the tape, a machine for a table is in the state that as many hand-overs lead to as it
has made accepting firings since it last started.  If the hand-overs end in a state without a rule,
the accepting firings end there too, and no more cells than there are hand-overs ever change. -/
theorem state_trajectory (table : Table) :
    (∀ tape calls results, (start table tape).performAll calls = some results →
      ∀ result ∈ results, ∃ past, Reached table tape past result.2) ∧
    (∀ tape past m, Reached table tape past m →
      orbit table.next? (past.countP accepts) entryState = some m.state ∧
      (m.halt? = none →
        if m.accepts then table.next? m.state = some m.fire.state else m.fire.state = m.state)) ∧
    (∀ tape tape' past past' m m', Reached table tape past m → Reached table tape' past' m' →
      past.countP accepts = past'.countP accepts → m.state = m'.state) ∧
    ∀ j q, orbit table.next? j entryState = some q → table.defines q = false → ∀ tape,
      (∀ past m, Reached table tape past m → past.countP accepts ≤ j) ∧
      ∀ cells : Finset Nat,
        (∀ i ∈ cells, ∃ past m, Reached table tape past m ∧ m.tape.get? i ≠ tape.get? i) →
        cells.card ≤ j := by
  refine ⟨?_, ?_, ?_, ?_⟩
  · intro tape calls results hresults result hresult
    exact exists_reached_of_mem hresults hresult
  · intro tape past m hreached
    exact ⟨hreached.orbit_state, state_fire hreached.table_eq⟩
  · intro tape tape' past past' m m' hreached hreached' hcount
    have hstate := hreached.orbit_state
    rw [hcount, hreached'.orbit_state] at hstate
    exact (Option.some.inj hstate).symm
  · intro j q hq hundefined tape
    have hbound : ∀ past m, Reached table tape past m → past.countP accepts ≤ j :=
      fun past m hreached => hreached.countP_le hq hundefined
    exact ⟨hbound, fun cells => card_changed_le hbound⟩

/-- A machine that looks for a zero, once on a tape where it comes second, and once where it comes
first. -/
theorem state_trajectory_scan :
    orbit (Table.ofList [⟨1, .zero, .one, .right, 2⟩]).next? 1 entryState = some 2 ∧
    (Table.ofList [⟨1, .zero, .one, .right, 2⟩]).defines 2 = false ∧
    (∀ past m, Reached (.ofList [⟨1, .zero, .one, .right, 2⟩]) ⟨#[.blank, .zero, .zero]⟩ past m →
      past.countP accepts ≤ 1) ∧
    ∃ past past' m m', past.length = 2 ∧ past'.length = 1 ∧
      Reached (.ofList [⟨1, .zero, .one, .right, 2⟩]) ⟨#[.blank, .zero, .zero]⟩ past m ∧
      Reached (.ofList [⟨1, .zero, .one, .right, 2⟩]) ⟨#[.zero]⟩ past' m' ∧
      past.countP accepts = past'.countP accepts ∧ m.state = m'.state := by
  have hchain : orbit (Table.ofList [⟨1, .zero, .one, .right, 2⟩]).next? 1 entryState = some 2 := rfl
  have hend : (Table.ofList [⟨1, .zero, .one, .right, 2⟩]).defines 2 = false := rfl
  have hsecond := ((Reached.nil (.ofList [⟨1, .zero, .one, .right, 2⟩])
    ⟨#[.blank, .zero, .zero]⟩).fire rfl).fire rfl
  have hfirst := (Reached.nil (.ofList [⟨1, .zero, .one, .right, 2⟩]) ⟨#[.zero]⟩).fire rfl
  obtain ⟨-, -, hstate, hbound⟩ := state_trajectory (.ofList [⟨1, .zero, .one, .right, 2⟩])
  exact ⟨hchain, hend, (hbound 1 2 hchain hend _).1, _, _, _, _, rfl, rfl, hsecond, hfirst, rfl,
    hstate _ _ _ _ _ _ hsecond hfirst rfl⟩

end Machine

end QuintupleMachine
