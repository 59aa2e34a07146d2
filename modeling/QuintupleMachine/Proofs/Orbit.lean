import Mathlib.Data.Finset.Card

/-! # Orbits of partial functions

Firing a machine and handing over from state to state are partial functions, applied again and
again.  Where only finitely many places are met in which such a function is defined, it cannot be
applied more often than that without coming back to a place.  From then on it goes round in
circles: it can be applied for ever (`isSome_orbit_of_card`), and whatever it leads to was met
before (`exists_orbit_le_card`).  If it comes to all of them, it comes to each once before it goes
round (`orbit_fills`). -/

namespace QuintupleMachine

variable {α : Type} {f : α → Option α} {a : α}

/-- What `n` applications of a partial function lead to. -/
def orbit (f : α → Option α) : Nat → α → Option α
  | 0, a => some a
  | n + 1, a => (f a).bind (orbit f n)

theorem orbit_add (m n : Nat) (a : α) : orbit f (m + n) a = (orbit f m a).bind (orbit f n) := by
  induction m generalizing a with
  | zero => rw [Nat.zero_add, orbit, Option.bind_some]
  | succ m ih =>
    rw [Nat.succ_add, orbit, orbit, Option.bind_assoc]
    congr 1
    funext b
    exact ih b

theorem orbit_succ (n : Nat) (a : α) : orbit f (n + 1) a = (orbit f n a).bind f := by
  rw [orbit_add]
  congr 1
  funext b
  exact Option.bind_fun_some _

/-- A shorter orbit is defined where a longer one is. -/
theorem isSome_orbit_of_le {m n : Nat} (hmn : m ≤ n) (h : (orbit f n a).isSome) :
    (orbit f m a).isSome := by
  obtain ⟨k, rfl⟩ := Nat.exists_eq_add_of_le hmn
  rw [orbit_add] at h
  exact Option.isSome_of_isSome_bind h

/-- A property that one application keeps holds all along an orbit. -/
theorem orbit_invariant {P : α → Prop} (hkept : ∀ b c, P b → f b = some c → P c) (ha : P a)
    {n : Nat} {b : α} (h : orbit f n a = some b) : P b := by
  induction n generalizing a with
  | zero =>
    obtain rfl : a = b := Option.some.inj h
    exact ha
  | succ n ih =>
    obtain ⟨c, hc, h⟩ := Option.bind_eq_some_iff.1 h
    exact ih (hkept a c ha hc) h

/-- An orbit is at its start, or goes on from the first application. -/
theorem exists_orbit_succ {n : Nat} {b : α} :
    (∃ k, k ≤ n + 1 ∧ orbit f k a = some b) ↔
      a = b ∨ ∃ c, f a = some c ∧ ∃ k, k ≤ n ∧ orbit f k c = some b := by
  constructor
  · rintro ⟨k, hk, h⟩
    cases k with
    | zero => exact .inl (Option.some.inj h)
    | succ k =>
      obtain ⟨c, hc, h⟩ := Option.bind_eq_some_iff.1 h
      exact .inr ⟨c, hc, k, Nat.le_of_succ_le_succ hk, h⟩
  · rintro (rfl | ⟨c, hc, k, hk, h⟩)
    · exact ⟨0, Nat.zero_le _, rfl⟩
    · exact ⟨k + 1, Nat.succ_le_succ hk, Option.bind_eq_some_iff.2 ⟨c, hc, h⟩⟩

/-! ## Repetition -/

section

variable {s : Finset α}

/-- An orbit of more applications than there are places has been in one of them twice. -/
theorem exists_orbit_eq (hs : ∀ n b, orbit f n a = some b → (f b).isSome → b ∈ s)
    (h : (orbit f (s.card + 1) a).isSome) :
    ∃ i j, i < j ∧ j ≤ s.card ∧ orbit f i a = orbit f j a := by
  have hplace : ∀ i ∈ Finset.range (s.card + 1),
      orbit f i a ∈ s.map Function.Embedding.some := by
    intro i hi
    have hnext : (orbit f (i + 1) a).isSome := isSome_orbit_of_le (Finset.mem_range.1 hi) h
    obtain ⟨b, hb⟩ := Option.isSome_iff_exists.1 (isSome_orbit_of_le (Nat.le_succ i) hnext)
    rw [orbit_succ, hb, Option.bind_some] at hnext
    exact Finset.mem_map.2 ⟨b, hs i b hb hnext, hb.symm⟩
  have hcard : (s.map Function.Embedding.some).card < (Finset.range (s.card + 1)).card := by
    rw [Finset.card_map, Finset.card_range]
    exact Nat.lt_succ_self _
  obtain ⟨i, hi, j, hj, hne, heq⟩ :=
    Finset.exists_ne_map_eq_of_card_lt_of_maps_to hcard hplace
  rw [Finset.mem_range, Nat.lt_succ_iff] at hi hj
  rcases Nat.lt_or_gt_of_ne hne with hij | hij
  · exact ⟨i, j, hij, hj, heq⟩
  · exact ⟨j, i, hij, hi, heq.symm⟩

/-- Past a repetition an orbit goes the same way again. -/
theorem orbit_eq_of_repeat {i j n : Nat} (hij : orbit f i a = orbit f j a) (hjn : j ≤ n) :
    orbit f n a = orbit f (i + (n - j)) a := by
  rw [orbit_add, hij, ← orbit_add, Nat.add_sub_cancel' hjn]

/-- Past a repetition an orbit leads to nothing new. -/
theorem exists_orbit_lt {i j : Nat} (hij : i < j) (heq : orbit f i a = orbit f j a) (n : Nat) :
    ∃ m, m < j ∧ orbit f n a = orbit f m a := by
  induction n using Nat.strongRecOn with
  | ind n ih =>
    by_cases hn : n < j
    · exact ⟨n, hn, rfl⟩
    · have hback := orbit_eq_of_repeat heq (Nat.le_of_not_lt hn)
      obtain ⟨m, hm, h⟩ := ih (i + (n - j)) (by omega)
      exact ⟨m, hm, hback.trans h⟩

/-- An orbit that outlasts the number of places goes on for ever. -/
theorem isSome_orbit_of_card (hs : ∀ n b, orbit f n a = some b → (f b).isSome → b ∈ s)
    (h : (orbit f (s.card + 1) a).isSome) (n : Nat) : (orbit f n a).isSome := by
  obtain ⟨i, j, hij, hj, heq⟩ := exists_orbit_eq hs h
  obtain ⟨m, hm, hback⟩ := exists_orbit_lt hij heq n
  rw [hback]
  exact isSome_orbit_of_le (by omega) h

/-- Whatever an orbit leads to is met within as many applications as there are places. -/
theorem exists_orbit_le_card (hs : ∀ n b, orbit f n a = some b → (f b).isSome → b ∈ s) {n : Nat}
    {b : α} (h : orbit f n a = some b) : ∃ m, m ≤ s.card ∧ orbit f m a = some b := by
  by_cases hn : n ≤ s.card
  · exact ⟨n, hn, h⟩
  · have hsome := isSome_orbit_of_le (Nat.lt_of_not_le hn) (Option.isSome_of_eq_some h)
    obtain ⟨i, j, hij, hj, heq⟩ := exists_orbit_eq hs hsome
    obtain ⟨m, hm, hback⟩ := exists_orbit_lt hij heq n
    exact ⟨m, by omega, hback ▸ h⟩

/-- An orbit that never ends and gets to all places is in each of them once before it first comes back
to one. -/
theorem orbit_fills [DecidableEq α] (hs : ∀ n, ∃ b ∈ s, orbit f n a = some b)
    (hall : ∀ b ∈ s, ∃ n, orbit f n a = some b) :
    (∀ b ∈ s, ∃ n, n < s.card ∧ orbit f n a = some b) ∧
    Set.InjOn (fun n => orbit f n a) (Finset.range s.card) ∧
    ∃ n, n < s.card ∧ orbit f s.card a = orbit f n a := by
  have hplace : ∀ n b, orbit f n a = some b → (f b).isSome → b ∈ s := by
    intro n b hb _
    obtain ⟨c, hc, h⟩ := hs n
    rw [hb] at h
    exact Option.some.inj h ▸ hc
  obtain ⟨b, -, hforever⟩ := hs (s.card + 1)
  obtain ⟨i, j, hij, hj, heq⟩ := exists_orbit_eq hplace (Option.isSome_of_eq_some hforever)
  have hmet : ∀ b ∈ s, ∃ n, n < j ∧ orbit f n a = some b := by
    intro b hb
    obtain ⟨n, hn⟩ := hall b hb
    obtain ⟨m, hm, hback⟩ := exists_orbit_lt hij heq n
    exact ⟨m, hm, hback ▸ hn⟩
  have hcover : s.map Function.Embedding.some ⊆
      (Finset.range j).image fun n => orbit f n a := by
    intro x hx
    obtain ⟨b, hb, rfl⟩ := Finset.mem_map.1 hx
    obtain ⟨n, hn, h⟩ := hmet b hb
    exact Finset.mem_image.2 ⟨n, Finset.mem_range.2 hn, h⟩
  have hcard : s.card ≤ ((Finset.range j).image fun n => orbit f n a).card := by
    rw [← Finset.card_map Function.Embedding.some]
    exact Finset.card_le_card hcover
  -- The places are met before the first repetition, so it comes no earlier than their number.
  have hlast : j = s.card :=
    Nat.le_antisymm hj (hcard.trans (Finset.card_image_le.trans (Finset.card_range j).le))
  subst hlast
  refine ⟨hmet, Finset.card_image_iff.1 ?_, i, hij, heq.symm⟩
  exact Nat.le_antisymm Finset.card_image_le ((Finset.card_range s.card).le.trans hcard)

end

end QuintupleMachine
