/-! # Ascending lists

A finite map from numbers, kept as a list whose keys ascend strictly: insertion replaces the
element with the same key and leaves every other key alone. -/

namespace QuintupleMachine.Ascending

variable {α : Type} (key : α → Nat)

/-- The keys of a list ascend strictly; in particular no key stands in it twice. -/
def Ascends (l : List α) : Prop := l.Pairwise fun a b => key a < key b

instance (l : List α) : Decidable (Ascends key l) :=
  inferInstanceAs (Decidable (List.Pairwise _ l))

/-- Puts an element at the place of its key, in place of the element with that key, if any. -/
def insert (a : α) : List α → List α
  | [] => [a]
  | b :: bs =>
    if key a < key b then a :: b :: bs
    else if key a = key b then a :: bs
    else b :: insert a bs

/-- Puts an element at the place of its key, and takes out the one with that key, if any. -/
def exchange (a : α) : List α → Option α × List α
  | [] => (none, [a])
  | b :: bs =>
    if key a < key b then (none, a :: b :: bs)
    else if key a = key b then (some b, a :: bs)
    else
      let (replaced, bs) := exchange a bs
      (replaced, b :: bs)

/-- The elements of a list by ascending key, the last one for each key. -/
def ofList (l : List α) : List α := l.foldl (fun done a => insert key a done) []

variable {key}

theorem Ascends.nil : Ascends key ([] : List α) := List.Pairwise.nil

theorem mem_insert {a b : α} {l : List α} (h : b ∈ insert key a l) : b = a ∨ b ∈ l := by
  induction l with
  | nil => simpa [insert] using h
  | cons c cs ih =>
    unfold insert at h
    split at h
    · simpa using h
    · split at h
      · rcases List.mem_cons.1 h with h | h
        · exact .inl h
        · exact .inr (List.mem_cons_of_mem _ h)
      · rcases List.mem_cons.1 h with h | h
        · exact .inr (h ▸ List.mem_cons_self)
        · exact (ih h).imp_right (List.mem_cons_of_mem _)

theorem Ascends.insert {l : List α} (h : Ascends key l) (a : α) :
    Ascends key (insert key a l) := by
  induction l with
  | nil => exact List.pairwise_singleton _ _
  | cons b bs ih =>
    obtain ⟨hb, hbs⟩ := List.pairwise_cons.1 h
    unfold Ascending.insert
    split
    · refine List.pairwise_cons.2 ⟨fun c hc => ?_, h⟩
      rcases List.mem_cons.1 hc with rfl | hc
      · assumption
      · exact Nat.lt_trans ‹_› (hb c hc)
    · split
      · exact List.pairwise_cons.2 ⟨fun c hc => by have := hb c hc; omega, hbs⟩
      · refine List.pairwise_cons.2 ⟨fun c hc => ?_, ih hbs⟩
        rcases mem_insert hc with rfl | hc
        · omega
        · exact hb c hc

/-- After an insertion the element is found under its key, and other keys find what they did. -/
theorem find?_insert (a : α) (n : Nat) {l : List α} (h : Ascends key l) :
    (insert key a l).find? (fun b => key b = n) =
      if key a = n then some a else l.find? (fun b => key b = n) := by
  induction l with
  | nil => simp only [insert, List.find?_cons, List.find?_nil]; split <;> simp_all
  | cons b bs ih =>
    obtain ⟨hb, hbs⟩ := List.pairwise_cons.1 h
    unfold insert
    split
    · by_cases hn : key a = n <;> simp [List.find?_cons, hn]
    · split
      · by_cases hn : key a = n
        · simp [hn]
        · simp [hn, show key b ≠ n by omega]
      · by_cases hn : key b = n
        · simp [hn, show key a ≠ n by omega]
        · simp [hn, ih hbs]

theorem exchange_snd (a : α) (l : List α) : (exchange key a l).2 = insert key a l := by
  induction l with
  | nil => rfl
  | cons b bs ih =>
    unfold exchange insert
    split
    · rfl
    · split
      · rfl
      · rw [← ih]

/-- What is taken out was found under the key. -/
theorem exchange_fst (a : α) {l : List α} (h : Ascends key l) :
    (exchange key a l).1 = l.find? (fun b => key b = key a) := by
  induction l with
  | nil => rfl
  | cons b bs ih =>
    obtain ⟨hb, hbs⟩ := List.pairwise_cons.1 h
    unfold exchange
    split
    · next hlt =>
      have hnone : ∀ c ∈ b :: bs, key c ≠ key a := by
        intro c hc
        rcases List.mem_cons.1 hc with rfl | hc
        · omega
        · have := hb c hc
          omega
      exact (List.find?_eq_none.2 (by simpa using hnone)).symm
    · split
      · next heq => simp [heq]
      · next hne =>
        rw [List.find?_cons_of_neg (by simpa using Ne.symm hne)]
        exact ih hbs

theorem ascends_ofList (l : List α) : Ascends key (ofList key l) := by
  suffices ∀ done : List α, Ascends key done →
      Ascends key (l.foldl (fun done a => insert key a done) done) from this [] .nil
  induction l with
  | nil => exact fun _ h => h
  | cons a l ih => exact fun done h => ih _ (h.insert a)

/-- In an ascending list each element is the one found under its key. -/
theorem Ascends.find?_eq_some {l : List α} (h : Ascends key l) {a : α} {n : Nat} :
    l.find? (fun b => key b = n) = some a ↔ a ∈ l ∧ key a = n := by
  constructor
  · intro hf
    exact ⟨List.mem_of_find?_eq_some hf, by simpa using List.find?_some hf⟩
  · rintro ⟨ha, rfl⟩
    induction l with
    | nil => simp at ha
    | cons b bs ih =>
      obtain ⟨hb, hbs⟩ := List.pairwise_cons.1 h
      rcases List.mem_cons.1 ha with rfl | ha
      · simp
      · have := hb a ha
        simp [show key b ≠ key a by omega, ih hbs ha]

/-- An ascending list is fixed by its elements. -/
theorem Ascends.eq_of_mem_iff {l m : List α} (hl : Ascends key l) (hm : Ascends key m)
    (h : ∀ a, a ∈ l ↔ a ∈ m) : l = m := by
  induction l generalizing m with
  | nil =>
    cases m with
    | nil => rfl
    | cons b bs => exact absurd ((h b).2 List.mem_cons_self) (by simp)
  | cons a as ih =>
    cases m with
    | nil => exact absurd ((h a).1 List.mem_cons_self) (by simp)
    | cons b bs =>
      obtain ⟨ha, has⟩ := List.pairwise_cons.1 hl
      obtain ⟨hb, hbs⟩ := List.pairwise_cons.1 hm
      have hab : a = b := by
        rcases List.mem_cons.1 ((h a).1 List.mem_cons_self) with hab | hab
        · exact hab
        · rcases List.mem_cons.1 ((h b).2 List.mem_cons_self) with hba | hba
          · exact hba.symm
          · have := hb a hab
            have := ha b hba
            omega
      subst hab
      congr 1
      refine ih has hbs fun c => ⟨fun hc => ?_, fun hc => ?_⟩
      · rcases List.mem_cons.1 ((h c).1 (List.mem_cons_of_mem _ hc)) with rfl | hc'
        · exact absurd (ha c hc) (Nat.lt_irrefl _)
        · exact hc'
      · rcases List.mem_cons.1 ((h c).2 (List.mem_cons_of_mem _ hc)) with rfl | hc'
        · exact absurd (hb c hc) (Nat.lt_irrefl _)
        · exact hc'

end QuintupleMachine.Ascending
