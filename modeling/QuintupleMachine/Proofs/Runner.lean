import Mathlib.Data.Nat.Find
import QuintupleMachine.Machine.Call

/-! # Runners

What can be asked of a machine can be asked of anything that fires until something halts it.  A
runner says what halts and what firing does; the loops that make runs of it are the same for all
runners.  Two runners that no halt and no firing tells apart give the same replies for ever
(`Simulates.performAll`). -/

namespace QuintupleMachine

/-- The halt that a reply reports. -/
def Reply.halt? : Reply → Option Halt
  | .stepped (.halted halt) => some halt
  | .stopped (.halted halt) => some halt
  | _ => none

/-- What something halted has to say to a call that does not reset it. -/
def Call.haltedReply (halt : Halt) : Call → Reply
  | look | reset => .nothing
  | step => .stepped (.halted halt)
  | runFor _ | run => .stopped (.halted halt)

/-- Something that fires until it is halted. -/
structure Runner (σ : Type) where
  halt? : σ → Option Halt
  fire : σ → σ
  reset : σ → σ

namespace Runner

variable {σ τ : Type} (r : Runner σ)

/-- Fires once, unless halted. -/
def step (s : σ) : Step × σ :=
  match r.halt? s with
  | some halt => (.halted halt, s)
  | none => (.fired, r.fire s)

/-- Fires at most `n` times. -/
def advance : Nat → σ → σ
  | 0, s => s
  | n + 1, s =>
    match r.step s with
    | (.halted _, s) => s
    | (.fired, s) => advance n s

/-- Fires at most as often as the budget allows.  The budget is used up only if nothing halts the
runner afterwards. -/
def runFor (budget : Nat) (s : σ) : Stop × σ :=
  let last := r.advance budget s
  (((r.halt? last).map .halted).getD (.stepLimit budget), last)

open Classical in
/-- Fires until halted, which may never happen. -/
noncomputable def run (s : σ) : Option (Halt × σ) :=
  if h : ∃ n, (r.halt? (r.advance n s)).isSome then
    let last := r.advance (Nat.find h) s
    (r.halt? last).map fun halt => (halt, last)
  else none

/-- Carries out a call: the reply to it and what it leaves behind. -/
noncomputable def perform (s : σ) : Call → Option (Reply × σ)
  | .look => some (.nothing, s)
  | .step => some (.stepped (r.step s).1, (r.step s).2)
  | .runFor budget => some (.stopped (r.runFor budget s).1, (r.runFor budget s).2)
  | .run => (r.run s).map fun result => (.stopped (.halted result.1), result.2)
  | .reset => some (.nothing, r.reset s)

/-- Carries out calls in turn. -/
noncomputable def performAll (s : σ) : List Call → Option (List (Reply × σ))
  | [] => some []
  | call :: calls =>
    (r.perform s call).bind fun result => (performAll result.2 calls).map (result :: ·)

variable {r} {s last : σ} {halt : Halt}

theorem step_of_halt (h : r.halt? s = some halt) : r.step s = (.halted halt, s) := by
  simp only [step, h]

theorem step_of_running (h : r.halt? s = none) : r.step s = (.fired, r.fire s) := by
  simp only [step, h]

theorem advance_of_halt (h : r.halt? s = some halt) (n : Nat) : r.advance n s = s := by
  cases n with
  | zero => rfl
  | succ n => simp only [advance, step_of_halt h]

theorem advance_of_running (h : r.halt? s = none) (n : Nat) :
    r.advance (n + 1) s = r.advance n (r.fire s) := by
  simp only [advance, step_of_running h]

theorem runFor_of_halt (h : r.halt? s = some halt) (budget : Nat) :
    r.runFor budget s = (.halted halt, s) := by
  rw [runFor, advance_of_halt h, h]
  rfl

/-- Past a halt nothing happens. -/
theorem advance_eq_of_halt {k n : Nat} (h : r.halt? (r.advance k s) = some halt) (hkn : k ≤ n) :
    r.advance n s = r.advance k s := by
  induction k generalizing s n with
  | zero => exact advance_of_halt h n
  | succ k ih =>
    obtain ⟨n, rfl⟩ := Nat.exists_eq_add_one.2 (Nat.lt_of_lt_of_le (Nat.succ_pos k) hkn)
    cases hs : r.halt? s with
    | some first => rw [advance_of_halt hs, advance_of_halt hs]
    | none =>
      rw [advance_of_running hs] at h
      rw [advance_of_running hs, advance_of_running hs]
      exact ih h (Nat.le_of_succ_le_succ hkn)

/-- An unbounded run ends where some bounded run halts. -/
theorem run_eq_some :
    r.run s = some (halt, last) ↔ ∃ n, last = r.advance n s ∧ r.halt? last = some halt := by
  unfold run
  split
  · next hhalts =>
    obtain ⟨first, hfirst⟩ := Option.isSome_iff_exists.1 (Nat.find_spec hhalts)
    rw [Option.map_eq_some_iff]
    constructor
    · rintro ⟨_, hhalt, heq⟩
      cases heq
      exact ⟨_, rfl, hhalt⟩
    · rintro ⟨n, rfl, hhalt⟩
      have hlast : r.advance n s = r.advance (Nat.find hhalts) s :=
        advance_eq_of_halt hfirst (Nat.find_min' hhalts (Option.isSome_of_eq_some hhalt))
      exact ⟨halt, hlast ▸ hhalt, by rw [hlast]⟩
  · next hnever =>
    constructor
    · intro h
      cases h
    · rintro ⟨n, rfl, hhalt⟩
      exact absurd ⟨n, Option.isSome_of_eq_some hhalt⟩ hnever

theorem run_of_advance {n : Nat} (h : r.halt? (r.advance n s) = some halt) :
    r.run s = some (halt, r.advance n s) :=
  run_eq_some.2 ⟨n, rfl, h⟩

theorem run_of_halt (h : r.halt? s = some halt) : r.run s = some (halt, s) :=
  run_eq_some.2 ⟨0, rfl, h⟩

theorem perform_of_halt (h : r.halt? s = some halt) {call : Call} (hcall : call ≠ .reset) :
    r.perform s call = some (call.haltedReply halt, s) := by
  cases call with
  | look => rfl
  | step => rw [perform, step_of_halt h]; rfl
  | runFor budget => rw [perform, runFor_of_halt h]; rfl
  | run => rw [perform, run_of_halt h]; rfl
  | reset => exact absurd rfl hcall

/-- What is halted stays as it is and keeps saying why, until it is reset. -/
theorem performAll_of_halt (h : r.halt? s = some halt) {calls : List Call}
    (hcalls : .reset ∉ calls) :
    r.performAll s calls = some (calls.map fun call => (call.haltedReply halt, s)) := by
  induction calls with
  | nil => rfl
  | cons call calls ih =>
    rw [List.mem_cons, not_or] at hcalls
    obtain ⟨hcall, hcalls⟩ := hcalls
    rw [performAll, perform_of_halt h (Ne.symm hcall), Option.bind_some, ih hcalls]
    rfl

/-- Only an unbounded run can fail to be answered. -/
theorem isSome_performAll {calls : List Call} (h : .run ∉ calls) (s : σ) :
    (r.performAll s calls).isSome := by
  induction calls generalizing s with
  | nil => rfl
  | cons call calls ih =>
    rw [List.mem_cons, not_or] at h
    obtain ⟨hcall, hcalls⟩ := h
    obtain ⟨result, hresult⟩ : ∃ result, r.perform s call = some result := by
      cases call with
      | run => exact absurd rfl hcall
      | look | step | runFor budget | reset => exact ⟨_, rfl⟩
    rw [performAll, hresult, Option.bind_some, Option.isSome_map]
    exact ih hcalls result.2

/-! ## Reachable states -/

/-- What firings and resets can lead to. -/
inductive Reaches (r : Runner σ) (s : σ) : σ → Prop
  | refl : Reaches r s s
  | fire {t : σ} : Reaches r s t → r.halt? t = none → Reaches r s (r.fire t)
  | reset {t : σ} : Reaches r s t → Reaches r s (r.reset t)

theorem Reaches.step {t : σ} (h : r.Reaches s t) : r.Reaches s (r.step t).2 := by
  cases ht : r.halt? t with
  | some halt => rwa [step_of_halt ht]
  | none =>
    rw [step_of_running ht]
    exact h.fire ht

theorem Reaches.advance {t : σ} (h : r.Reaches s t) (n : Nat) : r.Reaches s (r.advance n t) := by
  induction n generalizing t with
  | zero => exact h
  | succ n ih =>
    cases ht : r.halt? t with
    | some halt => rwa [advance_of_halt ht]
    | none =>
      rw [advance_of_running ht]
      exact ih (h.fire ht)

theorem Reaches.perform {t : σ} {call : Call} {result : Reply × σ} (h : r.Reaches s t)
    (hcall : r.perform t call = some result) : r.Reaches s result.2 := by
  cases call with
  | look =>
    obtain rfl := Option.some.inj hcall
    exact h
  | step =>
    obtain rfl := Option.some.inj hcall
    exact h.step
  | runFor budget =>
    obtain rfl := Option.some.inj hcall
    exact h.advance budget
  | run =>
    obtain ⟨⟨halt, last⟩, hrun, rfl⟩ := Option.map_eq_some_iff.1 hcall
    obtain ⟨n, rfl, -⟩ := run_eq_some.1 hrun
    exact h.advance n
  | reset =>
    obtain rfl := Option.some.inj hcall
    exact h.reset

/-- Each result is that of a call made in a state that was reached before. -/
theorem exists_perform_of_mem {calls : List Call} {results : List (Reply × σ)}
    (hresults : r.performAll s calls = some results) {result : Reply × σ} (h : result ∈ results) :
    ∃ t call, r.Reaches s t ∧ r.perform t call = some result := by
  -- The later calls are made of whatever the first one leaves, so the start of the calls varies
  -- in the induction while the start of the runs does not.
  suffices ∀ t, r.Reaches s t → r.performAll t calls = some results →
      ∃ t call, r.Reaches s t ∧ r.perform t call = some result from this s .refl hresults
  clear hresults
  induction calls generalizing results with
  | nil =>
    intro t _ hresults
    cases hresults
    cases h
  | cons call calls ih =>
    intro t ht hresults
    obtain ⟨first, hfirst, hresults⟩ := Option.bind_eq_some_iff.1 hresults
    obtain ⟨rest, hrest, rfl⟩ := Option.map_eq_some_iff.1 hresults
    rcases List.mem_cons.1 h with rfl | h
    · exact ⟨t, call, ht, hfirst⟩
    · exact ih h first.2 (ht.perform hfirst) hrest

/-- A reply that reports a halt is right about it. -/
theorem halt?_of_perform {call : Call} {result : Reply × σ} (hcall : r.perform s call = some result)
    (h : result.1.halt? = some halt) : r.halt? result.2 = some halt := by
  cases call with
  | look | reset =>
    obtain rfl := Option.some.inj hcall
    cases h
  | step =>
    obtain rfl := Option.some.inj hcall
    cases hs : r.halt? s with
    | some first =>
      rw [step_of_halt hs] at h ⊢
      cases h
      exact hs
    | none =>
      rw [step_of_running hs] at h
      cases h
  | runFor budget =>
    obtain rfl := Option.some.inj hcall
    cases hs : r.halt? (r.advance budget s) with
    | some last =>
      simp only [runFor, hs] at h
      cases h
      exact hs
    | none =>
      simp only [runFor, hs] at h
      cases h
  | run =>
    obtain ⟨⟨first, last⟩, hrun, rfl⟩ := Option.map_eq_some_iff.1 hcall
    cases h
    obtain ⟨n, -, hhalt⟩ := run_eq_some.1 hrun
    exact hhalt

/-! ## Simulation -/

/-- A relation that no halt tells apart and that firing and resetting keep. -/
structure Simulates (r : Runner σ) (r' : Runner τ) (R : σ → τ → Prop) : Prop where
  halt : ∀ {s t}, R s t → r.halt? s = r'.halt? t
  fire : ∀ {s t}, R s t → r.halt? s = none → R (r.fire s) (r'.fire t)
  reset : ∀ {s t}, R s t → R (r.reset s) (r'.reset t)

/-- The same answer, and states that are related. -/
def Agree {α : Type} (R : σ → τ → Prop) (x : α × σ) (y : α × τ) : Prop := x.1 = y.1 ∧ R x.2 y.2

namespace Simulates

variable {r' : Runner τ} {R : σ → τ → Prop} {t : τ}

theorem step (sim : Simulates r r' R) (h : R s t) : Agree R (r.step s) (r'.step t) := by
  have hhalt := sim.halt h
  cases hs : r.halt? s with
  | some halt =>
    rw [step_of_halt hs, step_of_halt (hhalt ▸ hs)]
    exact ⟨rfl, h⟩
  | none =>
    rw [step_of_running hs, step_of_running (hhalt ▸ hs)]
    exact ⟨rfl, sim.fire h hs⟩

theorem advance (sim : Simulates r r' R) (h : R s t) (n : Nat) :
    R (r.advance n s) (r'.advance n t) := by
  induction n generalizing s t with
  | zero => exact h
  | succ n ih =>
    have hhalt := sim.halt h
    cases hs : r.halt? s with
    | some halt => rwa [advance_of_halt hs, advance_of_halt (hhalt ▸ hs)]
    | none =>
      rw [advance_of_running hs, advance_of_running (hhalt ▸ hs)]
      exact ih (sim.fire h hs)

theorem runFor (sim : Simulates r r' R) (h : R s t) (budget : Nat) :
    Agree R (r.runFor budget s) (r'.runFor budget t) := by
  have hlast := sim.advance h budget
  refine ⟨?_, hlast⟩
  simp only [Runner.runFor, sim.halt hlast]

/-- Unbounded runs end alike, or neither ends. -/
theorem run (sim : Simulates r r' R) (h : R s t) :
    Option.Rel (Agree R) (r.run s) (r'.run t) := by
  cases hs : r.run s with
  | some result =>
    obtain ⟨n, hlast, hhalt⟩ := run_eq_some.1 hs
    have hrelated := sim.advance h n
    rw [← hlast] at hrelated
    rw [sim.halt hrelated] at hhalt
    rw [run_of_advance hhalt]
    exact .some ⟨rfl, hrelated⟩
  | none =>
    cases ht : r'.run t with
    | none => exact .none
    | some result =>
      obtain ⟨n, hlast, hhalt⟩ := run_eq_some.1 ht
      rw [hlast, ← sim.halt (sim.advance h n)] at hhalt
      rw [run_of_advance hhalt] at hs
      cases hs

theorem perform (sim : Simulates r r' R) (h : R s t) (call : Call) :
    Option.Rel (Agree R) (r.perform s call) (r'.perform t call) := by
  cases call with
  | look => exact .some ⟨rfl, h⟩
  | step =>
    obtain ⟨hreply, hrelated⟩ := sim.step h
    exact .some ⟨congrArg Reply.stepped hreply, hrelated⟩
  | runFor budget =>
    obtain ⟨hreply, hrelated⟩ := sim.runFor h budget
    exact .some ⟨congrArg Reply.stopped hreply, hrelated⟩
  | run =>
    have hrun := sim.run h
    simp only [Runner.perform]
    generalize r.run s = x at hrun ⊢
    generalize r'.run t = y at hrun ⊢
    cases hrun with
    | none => exact .none
    | some hresult =>
      obtain ⟨hhalt, hrelated⟩ := hresult
      exact .some ⟨congrArg (fun halt => Reply.stopped (.halted halt)) hhalt, hrelated⟩
  | reset => exact .some ⟨rfl, sim.reset h⟩

/-- If related states look alike, everything looks alike after any calls. -/
theorem performAll {ω : Type} {see : Reply × σ → ω} {see' : Reply × τ → ω}
    (sim : Simulates r r' R) (hsee : ∀ result result', Agree R result result' →
      see result = see' result') (h : R s t) (calls : List Call) :
    (r.performAll s calls).map (List.map see) = (r'.performAll t calls).map (List.map see') := by
  induction calls generalizing s t with
  | nil => rfl
  | cons call calls ih =>
    have hcall := sim.perform h call
    simp only [Runner.performAll]
    generalize r.perform s call = x at hcall ⊢
    generalize r'.perform t call = y at hcall ⊢
    cases hcall with
    | none => rfl
    | @some result result' hresult =>
      have hrest := congrArg (Option.map (see' result' :: ·)) (ih hresult.2)
      simpa only [Option.bind_some, Option.map_map, Function.comp_def, List.map_cons,
        hsee result result' hresult] using hrest

end Simulates

end Runner

end QuintupleMachine
