import Mathlib.Data.Finset.SDiff
import QuintupleMachine.Failure
import QuintupleMachine.Proofs.Diagnosis.Problems

/-! # A diagnosis is exact

The states that runs can enter can also be found without a bound on the way: by a walk that notes each
state it meets and queues the state that this one hands over to.  Such a walk ends, since every round
notes a defined state that was not noted before or shortens the queue, and it has then met the
reachable states and no others (`exists_explored`).

So the lists of a diagnosis are complete, ascending and free of repetitions, and the diagnosis holds
each kind of problem exactly if the table has it (`problems_spec`). -/

namespace QuintupleMachine

/-- A walk over the states of a table. -/
structure Exploration where
  /-- The states met so far, the latest first. -/
  met : List Nat
  /-- The states to look at, the next one first. -/
  queue : List Nat
deriving DecidableEq

/-- A state that a walk has met or is going to meet. -/
def Exploration.Knows (e : Exploration) (q : Nat) : Prop := q ∈ e.met ∨ q ∈ e.queue

namespace Table

/-- One round of a walk.  A state that was met before is dropped; any other is noted, and what it
hands over to is queued.  A walk whose queue is empty has ended. -/
def explore? (table : Table) (e : Exploration) : Option Exploration :=
  match e.queue with
  | [] => none
  | q :: queue =>
    if q ∈ e.met then some ⟨e.met, queue⟩
    else some ⟨q :: e.met, queue ++ (table.next? q).toList⟩

/-- The defined states that a walk has not met, and the states that it has queued. -/
def pending (table : Table) (e : Exploration) : Nat :=
  (table.states.toFinset \ e.met.toFinset).card + e.queue.length

/-- What holds all along a walk from the entry state. -/
structure Explores (table : Table) (e : Exploration) : Prop where
  entry : e.Knows entryState
  reachable : ∀ q, e.Knows q → q ∈ table.reachable
  closed : ∀ q ∈ e.met, ∀ next, table.next? q = some next → e.Knows next

variable {table : Table} {e e' : Exploration} {q : Nat} {met l : List Nat}

/-! ## The walk -/

theorem explore?_eq_none : table.explore? e = none ↔ e.queue = [] := by
  unfold explore?
  cases e.queue with
  | nil => simp
  | cons q queue =>
    simp only [List.cons_ne_nil, iff_false]
    split <;> exact Option.some_ne_none _

theorem exists_round (h : table.explore? e = some e') :
    ∃ q queue, e.queue = q :: queue ∧
      (q ∈ e.met ∧ e' = ⟨e.met, queue⟩ ∨
        q ∉ e.met ∧ e' = ⟨q :: e.met, queue ++ (table.next? q).toList⟩) := by
  unfold explore? at h
  split at h
  · cases h
  · next q queue hqueue =>
    refine ⟨q, queue, hqueue, ?_⟩
    split at h
    · next hq => exact .inl ⟨hq, (Option.some.inj h).symm⟩
    · next hq => exact .inr ⟨hq, (Option.some.inj h).symm⟩

/-- Only defined states hand over, so a state is queued only when one is noted that counted. -/
theorem pending_lt (h : table.explore? e = some e') : table.pending e' < table.pending e := by
  obtain ⟨q, queue, hqueue, ⟨-, rfl⟩ | ⟨hq, rfl⟩⟩ := exists_round h
  · simp only [pending, hqueue, List.length_cons]
    omega
  · simp only [pending, hqueue, List.toFinset_cons, Finset.sdiff_insert, List.length_append,
      List.length_cons]
    cases hnext : table.next? q with
    | none =>
      have hle := Finset.card_erase_le (s := table.states.toFinset \ e.met.toFinset) (a := q)
      rw [Option.toList_none, List.length_nil]
      omega
    | some next =>
      have hdefines : table.defines q = true := by
        rw [← isSome_next?, hnext, Option.isSome_some]
      have hmem : q ∈ table.states.toFinset \ e.met.toFinset := by
        rw [Finset.mem_sdiff, List.mem_toFinset, List.mem_toFinset, mem_states]
        exact ⟨hdefines, hq⟩
      have hlt := Finset.card_erase_lt_of_mem hmem
      rw [Option.toList_some, List.length_singleton]
      omega

/-- Every walk ends. -/
theorem exists_orbit_explore (table : Table) (e : Exploration) :
    ∃ n met, orbit table.explore? n e = some ⟨met, []⟩ := by
  induction hpending : table.pending e using Nat.strongRecOn generalizing e with
  | ind _ ih =>
    cases hround : table.explore? e with
    | none =>
      refine ⟨0, e.met, ?_⟩
      rw [← explore?_eq_none.1 hround]
      rfl
    | some e' =>
      obtain ⟨n, met, hend⟩ := ih _ (hpending ▸ pending_lt hround) e' rfl
      exact ⟨n + 1, met, Option.bind_eq_some_iff.2 ⟨e', hround, hend⟩⟩

namespace Explores

theorem start (table : Table) : Explores table ⟨[], [entryState]⟩ where
  entry := .inr List.mem_cons_self
  reachable q hq := by
    rcases hq with hq | hq
    · cases hq
    · rw [List.mem_singleton.1 hq]
      exact entryState_mem_reachable
  closed q hq := by cases hq

/-- A round forgets no state, and it comes to know only one that was handed over to. -/
theorem round (h : Explores table e) (hround : table.explore? e = some e') : Explores table e' := by
  obtain ⟨q, queue, hqueue, ⟨hq, rfl⟩ | ⟨hq, rfl⟩⟩ := exists_round hround
  · have hknows : ∀ r, Exploration.Knows ⟨e.met, queue⟩ r ↔ e.Knows r := by
      intro r
      simp only [Exploration.Knows, hqueue, List.mem_cons]
      grind
    refine ⟨(hknows _).2 h.entry, fun r hr => h.reachable r ((hknows r).1 hr), ?_⟩
    intro r hr next hnext
    exact (hknows next).2 (h.closed r hr next hnext)
  · have hknows : ∀ r, Exploration.Knows ⟨q :: e.met, queue ++ (table.next? q).toList⟩ r ↔
        e.Knows r ∨ table.next? q = some r := by
      intro r
      simp only [Exploration.Knows, hqueue, List.mem_cons, List.mem_append, Option.mem_toList]
      grind
    refine ⟨(hknows _).2 (.inl h.entry), ?_, ?_⟩
    · intro r hr
      rcases (hknows r).1 hr with hr | hnext
      · exact h.reachable r hr
      · exact next_mem_reachable (h.reachable q (.inr (hqueue ▸ List.mem_cons_self))) hnext
    · intro r hr next hnext
      rw [hknows]
      rcases List.mem_cons.1 hr with rfl | hr
      · exact .inr hnext
      · exact .inl (h.closed r hr next hnext)

/-- A walk that has ended has met what it knows, and so all that hand-overs lead to. -/
theorem mem_met (h : Explores table ⟨met, []⟩) : q ∈ met ↔ q ∈ table.reachable := by
  have hknows : ∀ r, Exploration.Knows ⟨met, []⟩ r ↔ r ∈ met := by
    intro r
    simp [Exploration.Knows]
  constructor
  · intro hq
    exact h.reachable q (.inl hq)
  · intro hq
    obtain ⟨k, hk⟩ := mem_reachable.1 hq
    refine orbit_invariant (P := (· ∈ met)) ?_ ((hknows _).1 h.entry) hk
    intro r next hr hnext
    exact (hknows next).1 (h.closed r hr next hnext)

end Explores

/-- The walk from the entry state ends, and it has then met the reachable states. -/
theorem exists_explored (table : Table) :
    ∃ n met, orbit table.explore? n ⟨[], [entryState]⟩ = some ⟨met, []⟩ ∧
      ∀ q, q ∈ met ↔ q ∈ table.reachable := by
  obtain ⟨n, met, hend⟩ := exists_orbit_explore table ⟨[], [entryState]⟩
  have hexplores : Explores table ⟨met, []⟩ :=
    orbit_invariant (P := Explores table) (fun _ _ h hround => h.round hround) (.start table) hend
  exact ⟨n, met, hend, fun _ => hexplores.mem_met⟩

/-! ## The lists -/

theorem statesOutside_congr (h : ∀ q, q ∈ met ↔ q ∈ l) :
    table.statesOutside met = table.statesOutside l := by
  refine List.filter_congr fun q _ => ?_
  rw [Bool.eq_iff_iff]
  simp [h q]

theorem pairwise_undefinedNext (table : Table) : table.undefinedNext.Pairwise (· < ·) :=
  Ascending.ascends_ofList _

theorem pairwise_unreachable (table : Table) : table.unreachable.Pairwise (· < ·) :=
  table.pairwise_states.filter _

/-- An ascending list is fixed by what is in it. -/
theorem eq_iff_of_pairwise {m : List Nat} (hm : m.Pairwise (· < ·)) :
    l = m ↔ l.Pairwise (· < ·) ∧ ∀ q, q ∈ l ↔ q ∈ m := by
  constructor
  · rintro rfl
    exact ⟨hm, fun _ => Iff.rfl⟩
  · rintro ⟨hl, hiff⟩
    have hascends : Ascending.Ascends (fun n => n) l := hl
    exact hascends.eq_of_mem_iff hm hiff

theorem eq_undefinedNext :
    l = table.undefinedNext ↔ l.Pairwise (· < ·) ∧
      ∀ q, q ∈ l ↔ (∃ rule ∈ table.quintuples, rule.next = q) ∧ table.get? q = none := by
  rw [eq_iff_of_pairwise table.pairwise_undefinedNext]
  simp only [mem_undefinedNext, get?_eq_none]

theorem eq_unreachable :
    l = table.unreachable ↔ l.Pairwise (· < ·) ∧
      ∀ q, q ∈ l ↔ (table.get? q).isSome ∧ ∀ k, orbit table.next? k entryState ≠ some q := by
  rw [eq_iff_of_pairwise table.pairwise_unreachable]
  simp only [mem_unreachable, mem_reachable, not_exists, defines, ne_eq]

theorem problems_sublist (table : Table) :
    table.problems.Sublist
      [.missingEntry, .undefinedNext table.undefinedNext, .unreachable table.unreachable] := by
  unfold problems
  refine ((?_ : List.Sublist _ [Problem.missingEntry]).append
    (?_ : List.Sublist _ [.undefinedNext table.undefinedNext])).append
      (?_ : List.Sublist _ [.unreachable table.unreachable])
  all_goals split <;> simp

theorem mapError_check_eq_error {failure : Failure} :
    table.check.mapError Failure.table = .error failure ↔
      ∃ problem, table.problems.head? = some problem ∧ failure = .table problem := by
  unfold check
  cases table.problems with
  | nil => simp [Except.mapError]
  | cons problem _ => simp [Except.mapError, eq_comm]

theorem mapError_check_eq_ok :
    table.check.mapError Failure.table = .ok () ↔ table.problems = [] := by
  unfold check
  cases table.problems <;> simp [Except.mapError]

/-- The walk from the entry state ends with the states that hand-overs lead to, and the states that it
leaves out are those called unreachable.  The problems are listed in a fixed order, each kind at most
once, and each if and only if the table has it, with all the states that it is about in ascending
order.  A table is refused for its first problem, and only if it has one. -/
theorem problems_spec (table : Table) :
    (∃ n met, orbit table.explore? n ⟨[], [entryState]⟩ = some ⟨met, []⟩ ∧
      (∀ q, q ∈ met ↔ ∃ k, orbit table.next? k entryState = some q) ∧
      table.statesOutside met = table.unreachable) ∧
    (∃ l l', table.problems.Sublist [.missingEntry, .undefinedNext l, .unreachable l']) ∧
    (.missingEntry ∈ table.problems ↔ table.get? entryState = none) ∧
    (∀ l, .undefinedNext l ∈ table.problems ↔ l ≠ [] ∧ l.Pairwise (· < ·) ∧
      ∀ q, q ∈ l ↔ (∃ rule ∈ table.quintuples, rule.next = q) ∧ table.get? q = none) ∧
    (∀ l, .unreachable l ∈ table.problems ↔
      (table.get? entryState).isSome ∧ l ≠ [] ∧ l.Pairwise (· < ·) ∧
      ∀ q, q ∈ l ↔ (table.get? q).isSome ∧ ∀ k, orbit table.next? k entryState ≠ some q) ∧
    (table.check.mapError Failure.table = .ok () ↔ table.problems = []) ∧
    ∀ failure, table.check.mapError Failure.table = .error failure ↔
      ∃ problem, table.problems.head? = some problem ∧ failure = .table problem := by
  refine ⟨?_, ⟨_, _, table.problems_sublist⟩, ?_, ?_, ?_, mapError_check_eq_ok,
    fun _ => mapError_check_eq_error⟩
  · obtain ⟨n, met, hend, hmet⟩ := table.exists_explored
    exact ⟨n, met, hend, fun q => (hmet q).trans mem_reachable, statesOutside_congr hmet⟩
  · rw [missingEntry_mem_problems, get?_eq_none]
  · intro l
    rw [undefinedNext_mem_problems, ← eq_undefinedNext, and_comm]
  · intro l
    rw [unreachable_mem_problems, ← eq_unreachable, and_comm (b := l ≠ []), defines]

example :
    (ofList [⟨1, .blank, .zero, .right, 4⟩, ⟨3, .one, .one, .left, 2⟩,
      ⟨5, .zero, .one, .stay, 2⟩]).problems = [.undefinedNext [2, 4], .unreachable [3, 5]] := by
  decide

end Table

end QuintupleMachine
