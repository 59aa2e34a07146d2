/-! # Separated texts

Canonical text and standard descriptions are laid out alike: the texts of the records stand one
after the other, and each is followed by a mark, which may be left out after the last.  The layout
is stated once, over any kind of character, so that it can be followed from letters to tokens and
from tokens to canonical text. -/

namespace QuintupleMachine

variable {α β γ : Type}

/-- `Separated mark text items l`: the list `l` is the texts of the items in order, each followed by
the mark, which the last may leave out. -/
inductive Separated (mark : β) (text : α → List β) : List α → List β → Prop
  | nil : Separated mark text [] []
  | last (a : α) : Separated mark text [a] (text a)
  | cons (a : α) {as : List α} {l : List β} (rest : Separated mark text as l) :
      Separated mark text (a :: as) (text a ++ mark :: l)

/-- The texts of items in order, each followed by the mark. -/
def terminated (mark : β) (text : α → List β) (items : List α) : List β :=
  items.flatMap fun a => text a ++ [mark]

section

variable {mark : β} {text : α → List β}

@[simp] theorem terminated_nil : terminated mark text [] = [] := by
  simp [terminated]

@[simp] theorem terminated_cons (a : α) (as : List α) :
    terminated mark text (a :: as) = text a ++ mark :: terminated mark text as := by
  simp [terminated]

@[simp] theorem terminated_append (as bs : List α) :
    terminated mark text (as ++ bs) = terminated mark text as ++ terminated mark text bs :=
  List.flatMap_append

namespace Separated

/-- Marked records may stand before any layout. -/
theorem prepend (as : List α) {bs : List α} {l : List β} (h : Separated mark text bs l) :
    Separated mark text (as ++ bs) (terminated mark text as ++ l) := by
  induction as with
  | nil => exact h
  | cons a as ih =>
    rw [terminated_cons, List.append_assoc]
    exact ih.cons a

/-- A substitution that leaves the mark a single character keeps the layout. -/
theorem flatMap {mark' : γ} {as : List α} {l : List β} (f : β → List γ) (hmark : f mark = [mark'])
    (h : Separated mark text as l) :
    Separated mark' (fun a => (text a).flatMap f) as (l.flatMap f) := by
  induction h with
  | nil => exact .nil
  | last a => exact .last a
  | cons a _ ih =>
    rw [List.flatMap_append, List.flatMap_cons, hmark]
    exact ih.cons a

/-- Items may be renamed along with their texts. -/
theorem map_items {cs : List γ} {l : List β} (g : γ → α)
    (h : Separated mark (fun c => text (g c)) cs l) : Separated mark text (cs.map g) l := by
  induction h with
  | nil => exact .nil
  | last c => exact .last (g c)
  | cons c _ ih => exact ih.cons (g c)

/-- The text of an item is part of the whole. -/
theorem infix_of_mem {as : List α} {l : List β} (h : Separated mark text as l) {a : α}
    (ha : a ∈ as) : text a <:+: l := by
  induction h with
  | nil => cases ha
  | last b =>
    obtain rfl := List.mem_singleton.1 ha
    exact List.infix_rfl
  | @cons b as l _ ih =>
    rcases List.mem_cons.1 ha with rfl | ha
    · exact List.infix_append' [] (text a) (mark :: l)
    · exact (ih ha).trans ⟨text b ++ [mark], [], by simp⟩

/-- Marked records are a layout. -/
theorem of_terminated (as : List α) : Separated mark text as (terminated mark text as) := by
  have hnil : Separated mark text [] [] := .nil
  have h := hnil.prepend as
  rwa [List.append_nil, List.append_nil] at h

/-- A layout of texts that do not end with the mark has it behind every item if it ends with it. -/
theorem eq_terminated_of_mem {as : List α} {l : List β} (h : Separated mark text as l)
    (hlast : ∀ a ∈ as, text a ≠ [] ∧ (text a).getLast? ≠ some mark)
    (hl : l = [] ∨ l.getLast? = some mark) : l = terminated mark text as := by
  induction h with
  | nil => rfl
  | last a =>
    obtain ⟨hne, hmark⟩ := hlast a (List.mem_singleton_self a)
    rcases hl with hl | hl
    · exact absurd hl hne
    · exact absurd hl hmark
  | @cons a as l _ ih =>
    rw [terminated_cons, ← ih fun b hb => hlast b (List.mem_cons_of_mem a hb)]
    by_cases hnil : l = []
    · exact .inl hnil
    · right
      rcases hl with hl | hl
      · simp at hl
      · rwa [List.append_cons, List.getLast?_append, Option.or_of_isSome] at hl
        exact List.getLast?_isSome.2 hnil

end Separated

/-! ## Texts without the mark

Where the mark stands in no text, it shows where one item ends and the next begins. -/

/-- The mark behind a text without marks is the first one. -/
theorem first_mark {x r l m : List β} (hx : mark ∉ x) (h : x ++ mark :: r = l ++ mark :: m) :
    x = l ∧ r = m ∨ ∃ k, l = x ++ mark :: k ∧ r = k ++ mark :: m := by
  rcases List.append_eq_append_iff.1 h with ⟨k, rfl, hk⟩ | ⟨k, rfl, hk⟩
  · cases k with
    | nil =>
      rw [List.nil_append] at hk
      exact .inl ⟨(List.append_nil x).symm, (List.cons.inj hk).2⟩
    | cons b k =>
      obtain ⟨rfl, rfl⟩ := List.cons.inj hk
      exact .inr ⟨k, rfl, rfl⟩
  · cases k with
    | nil =>
      rw [List.nil_append] at hk
      exact .inl ⟨List.append_nil l, (List.cons.inj hk).2.symm⟩
    | cons b k =>
      obtain ⟨rfl, -⟩ := List.cons.inj hk
      exact absurd (List.mem_append_right l List.mem_cons_self) hx

namespace Separated

variable (hmark : ∀ a, mark ∉ text a)

include hmark

/-- A layout can be cut behind any mark. -/
theorem exists_cut {as : List α} {l m : List β} (h : Separated mark text as (l ++ mark :: m)) :
    ∃ bs cs, as = bs ++ cs ∧ l ++ [mark] = terminated mark text bs ∧ Separated mark text cs m := by
  generalize hwhole : l ++ mark :: m = whole at h
  induction h generalizing l with
  | nil => simp at hwhole
  | last a => exact absurd (hwhole ▸ by simp) (hmark a)
  | @cons a as rest hrest ih =>
    rcases first_mark (hmark a) hwhole.symm with ⟨rfl, rfl⟩ | ⟨k, rfl, rfl⟩
    · exact ⟨[a], as, rfl, by simp, hrest⟩
    · obtain ⟨bs, cs, rfl, hk, hcs⟩ := ih rfl
      exact ⟨a :: bs, cs, rfl, by rw [terminated_cons, ← hk]; simp, hcs⟩

variable (hne : ∀ a, text a ≠ [])

include hne

/-- A layout that ends with the mark has it behind every item. -/
theorem eq_terminated {as : List α} {l : List β} (h : Separated mark text as l)
    (hl : l = [] ∨ l.getLast? = some mark) : l = terminated mark text as :=
  h.eq_terminated_of_mem (fun a _ => ⟨hne a, fun hlast => hmark a (List.mem_of_getLast? hlast)⟩) hl

/-- Behind a mark, or at the beginning, one layout ends and another begins. -/
theorem append_iff {as : List α} {l m : List β} (hl : l = [] ∨ l.getLast? = some mark) :
    Separated mark text as (l ++ m) ↔
      ∃ bs cs, as = bs ++ cs ∧ Separated mark text bs l ∧ Separated mark text cs m := by
  constructor
  · intro h
    rcases hl with rfl | hl
    · exact ⟨[], as, rfl, .nil, h⟩
    · obtain ⟨l, rfl⟩ := List.getLast?_eq_some_iff.1 hl
      rw [List.append_assoc, List.singleton_append] at h
      obtain ⟨bs, cs, rfl, hbs, hcs⟩ := exists_cut hmark h
      exact ⟨bs, cs, rfl, hbs ▸ of_terminated bs, hcs⟩
  · rintro ⟨bs, cs, rfl, hbs, hcs⟩
    rw [eq_terminated hmark hne hbs hl]
    exact hcs.prepend bs

/-- Items with different texts can be told from their layout. -/
theorem unique (hinj : Function.Injective text) {as bs : List α} {l : List β}
    (h : Separated mark text as l) (h' : Separated mark text bs l) : as = bs := by
  induction h generalizing bs with
  | nil =>
    generalize hl : [] = l at h'
    cases h' with
    | nil => rfl
    | last b => exact absurd hl.symm (hne b)
    | cons b => simp at hl
  | last a =>
    generalize hl : text a = l at h'
    cases h' with
    | nil => exact absurd hl (hne a)
    | last b => rw [hinj hl]
    | cons b => exact absurd (hl ▸ by simp) (hmark a)
  | @cons a as l _ ih =>
    generalize hl : text a ++ mark :: l = l' at h'
    cases h' with
    | nil => simp at hl
    | last b => exact absurd (hl ▸ by simp) (hmark b)
    | cons b hrest =>
      rcases first_mark (hmark a) hl with ⟨htext, rfl⟩ | ⟨k, hk, -⟩
      · rw [hinj htext, ih hrest]
      · exact absurd (hk ▸ by simp) (hmark b)

end Separated

end

end QuintupleMachine
