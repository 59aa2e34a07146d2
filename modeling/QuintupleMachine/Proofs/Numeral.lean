import QuintupleMachine.Number

/-! # Numerals

A number is written in canonical text as a run of digits.  A symbol number is any run that is not
empty; a state number does not start with `0`.  The digits of a number are a numeral, and they are
a state number exactly if the number is not zero.  Without leading zeros, digits are those of their
value.  Where a text is cut behind its digits, the cut is unique. -/

namespace QuintupleMachine.Number

/-- Nothing but decimal digits. -/
def Digits (ds : List Char) : Prop := ∀ d ∈ ds, d.isDigit = true

/-- Digits that a state number can start with; there may be none yet. -/
def StateDigits (ds : List Char) : Prop := Digits ds ∧ ds.head? ≠ some '0'

/-- A symbol number as written: `[0-9]+`. -/
def Numeral (ds : List Char) : Prop := ds ≠ [] ∧ Digits ds

/-- A state number as written: `[1-9][0-9]*`. -/
def StateNumeral (ds : List Char) : Prop := ds ≠ [] ∧ StateDigits ds

/-- A number as written without leading zeros: `0|[1-9][0-9]*`. -/
def PlainNumeral (ds : List Char) : Prop := ds = ['0'] ∨ StateNumeral ds

theorem Digits.nil : Digits [] := by simp [Digits]

theorem StateDigits.nil : StateDigits [] := ⟨.nil, by simp⟩

theorem digits_append {ds es : List Char} : Digits (ds ++ es) ↔ Digits ds ∧ Digits es :=
  List.forall_mem_append

/-! ## The digits of a number -/

theorem numeral_digits (n : Nat) : Numeral (digits n) :=
  ⟨Nat.toDigits_ne_nil, fun _ h => Nat.isDigit_of_mem_toDigits (by decide) (by decide) h⟩

/-- Only the number zero is written with a leading zero. -/
theorem head?_digits_ne_zero {n : Nat} (pos : 0 < n) : (digits n).head? ≠ some '0' := by
  induction n using Nat.strongRecOn with
  | ind n ih =>
    unfold digits
    rw [Nat.toDigits_eq_if (by decide)]
    split
    · next hlt =>
      have small : ∀ m < 10, 0 < m → Nat.digitChar m ≠ '0' := by decide
      rw [List.head?_cons, ne_eq, Option.some.injEq]
      exact small n hlt pos
    · next hge =>
      rw [List.head?_append, Option.or_of_isSome (List.isSome_head?.2 Nat.toDigits_ne_nil)]
      exact ih (n / 10) (by omega) (by omega)

theorem stateNumeral_digits {n : Nat} : StateNumeral (digits n) ↔ 0 < n := by
  constructor
  · intro h
    refine Nat.pos_of_ne_zero fun h0 => h.2.2 ?_
    rw [h0]
    rfl
  · intro pos
    exact ⟨(numeral_digits n).1, (numeral_digits n).2, head?_digits_ne_zero pos⟩

/-! ## The value of digits -/

theorem digits_injective : Function.Injective digits := by
  intro m n h
  rw [← value_digits m, h, value_digits]

/-- The value of a single digit. -/
def digitValue (d : Char) : Nat := d.toNat - '0'.toNat

/-- A digit is how its value is written. -/
theorem digits_digitValue {d : Char} (h : d.isDigit = true) :
    digitValue d < 10 ∧ digits (digitValue d) = [d] := by
  have small : ∀ k < 10, Nat.digitChar k = Char.ofNat ('0'.toNat + k) := by decide
  obtain ⟨hzero, hnine⟩ := Char.isDigit_iff_toNat.1 h
  have hlt : digitValue d < 10 := by
    have hzero : 48 ≤ d.toNat := hzero
    have hnine : d.toNat ≤ 57 := hnine
    change d.toNat - 48 < 10
    omega
  refine ⟨hlt, ?_⟩
  rw [digits, Nat.toDigits_of_lt_base hlt, small _ hlt, digitValue, Nat.add_sub_cancel' hzero,
    Char.ofNat_toNat]

/-- Digits that are read on after a number that is not zero are written behind it. -/
theorem digits_ofDigitChars {ds : List Char} {n : Nat} (hds : Digits ds) (hn : 0 < n) :
    digits (Nat.ofDigitChars 10 ds n) = digits n ++ ds := by
  induction ds generalizing n with
  | nil => rw [Nat.ofDigitChars_nil, List.append_nil]
  | cons d ds ih =>
    obtain ⟨hd, hds⟩ := List.forall_mem_cons.1 hds
    obtain ⟨hlt, hdigit⟩ := digits_digitValue hd
    have hpos : 0 < 10 * n + digitValue d := by omega
    calc
      digits (Nat.ofDigitChars 10 (d :: ds) n)
        = digits (Nat.ofDigitChars 10 ds (10 * n + digitValue d)) := by
          rw [Nat.ofDigitChars_cons, digitValue]
      _ = digits (10 * n + digitValue d) ++ ds := ih hds hpos
      _ = digits n ++ digits (digitValue d) ++ ds := by
          rw [digits, ← Nat.toDigits_append_toDigits (by decide) hn hlt]
          rfl
      _ = digits n ++ d :: ds := by rw [hdigit, List.append_assoc, List.singleton_append]

/-- Digits that do not start with a zero are how their value is written. -/
theorem digits_value {ds : List Char} (h : StateNumeral ds) : digits (value ds) = ds := by
  obtain ⟨hne, hdigits, hhead⟩ := h
  cases ds with
  | nil => exact absurd rfl hne
  | cons d ds =>
    obtain ⟨hd, hds⟩ := List.forall_mem_cons.1 hdigits
    obtain ⟨-, hdigit⟩ := digits_digitValue hd
    have hpos : 0 < digitValue d := by
      refine Nat.pos_of_ne_zero ?_
      intro hzero
      rw [hzero] at hdigit
      exact hhead (congrArg List.head? hdigit.symm)
    have hvalue : value (d :: ds) = Nat.ofDigitChars 10 ds (digitValue d) := by
      rw [value, Nat.ofDigitChars_cons, Nat.mul_zero, Nat.zero_add, digitValue]
    rw [hvalue, digits_ofDigitChars hds hpos, hdigit, List.singleton_append]

/-- A state number is not zero. -/
theorem value_pos {ds : List Char} (h : StateNumeral ds) : 0 < value ds :=
  stateNumeral_digits.1 ((digits_value h).symm ▸ h)

/-- Numbers are written without leading zeros. -/
theorem plainNumeral_digits (n : Nat) : PlainNumeral (digits n) := by
  rcases Nat.eq_zero_or_pos n with rfl | hpos
  · exact .inl rfl
  · exact .inr (stateNumeral_digits.2 hpos)

theorem digits_value_of_plain {ds : List Char} (h : PlainNumeral ds) : digits (value ds) = ds := by
  rcases h with rfl | h
  · rfl
  · exact digits_value h

/-! ## Cutting behind the digits -/

/-- What does not go on with digits. -/
def NoDigit (rest : List Char) : Prop := ∀ c ∈ rest.head?, c.isDigit = false

theorem NoDigit.nil : NoDigit [] := by simp [NoDigit]

theorem NoDigit.cons {c : Char} (h : c.isDigit = false) (cs : List Char) : NoDigit (c :: cs) := by
  simp [NoDigit, h]

theorem takeWhile_digits {ds rest : List Char} (hds : Digits ds) (hrest : NoDigit rest) :
    (ds ++ rest).takeWhile Char.isDigit = ds := by
  rw [List.takeWhile_append_of_pos hds]
  cases rest with
  | nil => simp
  | cons c cs => simp [hrest c rfl]

theorem digits_append_inj {ds es rest tail : List Char} (hds : Digits ds) (hes : Digits es)
    (hrest : NoDigit rest) (htail : NoDigit tail) (h : ds ++ rest = es ++ tail) :
    ds = es ∧ rest = tail := by
  have hcut : ds = es := by
    rw [← takeWhile_digits hds hrest, h, takeWhile_digits hes htail]
  subst hcut
  exact ⟨rfl, List.append_cancel_left h⟩

end QuintupleMachine.Number
