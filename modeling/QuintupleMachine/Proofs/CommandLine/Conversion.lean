import QuintupleMachine.CommandLine.Outcome
import QuintupleMachine.Proofs.Spelling

/-! # Conversion between spellings

The conversions replace character by character.  To letters and to base 7 they write letters of
the alphabet whatever they read, so there and back again every text ends up in the spelling it was
read in.  Hence the texts of a spelling are exactly those that come back as they were
(`comes_back_iff`), although what stands for a foreign character may itself belong to another
spelling.  So `convert` prints the same for a text over `1`-`7` and for its other two spellings. -/

namespace QuintupleMachine

namespace Spelling

/-- The characters of a spelling. -/
def alphabet : Spelling → List Char
  | number => ['1', '2', '3', '4', '5', '6', '7']
  | letters => ['A', 'C', 'D', 'L', 'R', 'N', ';']
  | base7 => ['0', '1', '2', '3', '4', '5', '6']

/-- A text consists of characters of a spelling. -/
def Spells (spelling : Spelling) (text : String) : Prop :=
  ∀ c ∈ text.toList, c ∈ spelling.alphabet

instance (spelling : Spelling) (text : String) : Decidable (spelling.Spells text) :=
  List.decidableBAll (fun c => c ∈ spelling.alphabet) text.toList

/-- The character of a letter in a spelling. -/
def char : Spelling → Letter → Char
  | number => Letter.digit
  | letters => Letter.char
  | base7 => Letter.base7

theorem mem_alphabet {spelling : Spelling} {c : Char} :
    c ∈ spelling.alphabet ↔ ∃ letter, spelling.char letter = c := by
  have hall : spelling.alphabet = Letter.all.map spelling.char := by cases spelling <;> rfl
  simp [hall, Letter.mem_all]

/-! ## There and back -/

/-- Letters are written whatever is read. -/
theorem exists_digitToLetter (c : Char) : ∃ letter : Letter, digitToLetter c = letter.char := by
  rw [digitToLetter]
  cases Letter.ofDigit? c with
  | none => exact ⟨.n, rfl⟩
  | some letter => exact ⟨letter, rfl⟩

/-- Digits in base 7 are written whatever is read. -/
theorem exists_digitToBase7 (c : Char) : ∃ letter : Letter, digitToBase7 c = letter.base7 := by
  rw [digitToBase7]
  cases Letter.ofDigit? c with
  | none => exact ⟨.a, rfl⟩
  | some letter => exact ⟨letter, rfl⟩

/-- What is written by a conversion into a spelling is in this spelling. -/
theorem spells_map {spelling : Spelling} {convert : Char → Char}
    (h : ∀ c, ∃ letter, convert c = spelling.char letter) (text : String) :
    spelling.Spells (String.ofList (text.toList.map convert)) := by
  intro c hc
  rw [String.toList_ofList] at hc
  obtain ⟨x, -, rfl⟩ := List.mem_map.1 hc
  obtain ⟨letter, hletter⟩ := h x
  exact mem_alphabet.2 ⟨letter, hletter.symm⟩

theorem spells_numberToLetters (text : String) : letters.Spells (numberToLetters text) :=
  spells_map exists_digitToLetter text

theorem spells_numberToBase7 (text : String) : base7.Spells (numberToBase7 text) :=
  spells_map exists_digitToBase7 text

/-- If a way there and back leads into a spelling from anywhere, and leaves the characters of the
spelling alone, then it leaves exactly the texts of this spelling alone. -/
theorem comes_back_iff {spelling : Spelling} {there back : Char → Char}
    (hback : ∀ c, ∃ letter, back (there c) = spelling.char letter)
    (hself : ∀ letter, back (there (spelling.char letter)) = spelling.char letter)
    (text : String) :
    String.ofList ((String.ofList (text.toList.map there)).toList.map back) = text ↔
      spelling.Spells text := by
  have hchar : ∀ c, back (there c) = c ↔ c ∈ spelling.alphabet := by
    intro c
    rw [mem_alphabet]
    constructor
    · intro h
      obtain ⟨letter, hletter⟩ := hback c
      exact ⟨letter, hletter.symm.trans h⟩
    · rintro ⟨letter, rfl⟩
      exact hself letter
  rw [← String.toList_inj, String.toList_ofList, String.toList_ofList, List.map_map]
  calc
    text.toList.map (back ∘ there) = text.toList
      ↔ text.toList.map (back ∘ there) = text.toList.map id := by rw [List.map_id]
    _ ↔ ∀ c ∈ text.toList, back (there c) = c := List.map_inj_left
    _ ↔ spelling.Spells text := forall₂_congr fun c _ => hchar c

theorem lettersToNumber_numberToLetters (text : String) :
    lettersToNumber (numberToLetters text) = text ↔ number.Spells text := by
  refine comes_back_iff ?_ (fun letter => by simp [char]) text
  intro c
  obtain ⟨letter, h⟩ := exists_digitToLetter c
  exact ⟨letter, by rw [h, letterToDigit_char, char]⟩

theorem base7ToNumber_numberToBase7 (text : String) :
    base7ToNumber (numberToBase7 text) = text ↔ number.Spells text := by
  refine comes_back_iff ?_ (fun letter => by simp [char]) text
  intro c
  obtain ⟨letter, h⟩ := exists_digitToBase7 c
  exact ⟨letter, by rw [h, base7ToDigit_base7, char]⟩

theorem numberToBase7_base7ToNumber (text : String) :
    numberToBase7 (base7ToNumber text) = text ↔ base7.Spells text :=
  comes_back_iff (fun c => exists_digitToBase7 (base7ToDigit c)) (fun letter => by simp [char]) text

theorem numberToLetters_lettersToNumber (text : String) :
    numberToLetters (lettersToNumber text) = text ↔ letters.Spells text :=
  comes_back_iff (fun c => exists_digitToLetter (letterToDigit c)) (fun letter => by simp [char])
    text

theorem length_ofList_map (convert : Char → Char) (text : String) :
    (String.ofList (text.toList.map convert)).length = text.length := by
  rw [String.length_ofList, List.length_map, String.length_toList]

end Spelling

/-! ## The command -/

namespace CommandLine

open Spelling

/-- What does not start with a dash is a plain word. -/
theorem Word.ofArgument_plain {argument : String} (h : argument.toList.head? ≠ some '-') :
    Word.ofArgument argument = .plain := by
  unfold Word.ofArgument
  cases hchars : argument.toList with
  | nil => rfl
  | cons c cs =>
    rw [hchars] at h
    split <;> simp_all

/-- No spelling has a dash. -/
theorem plain_of_spells {spelling : Spelling} {text : String} (h : spelling.Spells text) :
    Word.ofArgument text = .plain := by
  refine Word.ofArgument_plain fun hdash => ?_
  have hmem := h '-' (List.mem_of_mem_head? hdash)
  revert hmem
  cases spelling <;> decide

/-- The option takes the name of a spelling, and the text is what is left. -/
theorem readArguments_from {name text : String} (hname : (Command.spelling? name).isSome = true)
    (hword : Word.ofArgument name = .plain) (htext : Word.ofArgument text = .plain) :
    readArguments Command.convertOptions 1 none .none ["--from", name, text] =
      .ok ⟨[("from", name)], [text]⟩ := by
  have hfrom : Word.ofArgument "--from" = .long "from".toList none := by decide
  have hread : readLong Command.convertOptions .none "from".toList none = .ok
      (.none, some ⟨"from", none, .value fun value => (Command.spelling? value).isSome⟩) := rfl
  have hvalue : Given.addValue .none
      ⟨"from", none, .value fun value => (Command.spelling? value).isSome⟩ name =
        .ok ⟨[("from", name)], []⟩ := by
    simp [Given.addValue, Given.has, Given.none, hname]
  rw [readArguments_of_long _ hfrom, hread]
  dsimp only
  rw [readArguments_of_waiting _ hword, hvalue]
  dsimp only
  rw [readArguments_of_plain _ htext]
  rfl

theorem ofArguments_convert {name text : String} {spelling : Spelling}
    (hname : Command.spelling? name = some spelling) (hword : Word.ofArgument name = .plain)
    (htext : Word.ofArgument text = .plain) :
    Command.ofArguments ["convert", "--from", name, text] = .ok (.convert spelling text) := by
  have hgiven : Command.ofConvertArguments ⟨[("from", name)], [text]⟩ =
      .ok (.convert spelling text) := by
    simp [Command.ofConvertArguments, Given.value?, hname]
  rw [Command.ofArguments_of_byName? (by decide) (by decide) rfl,
    readArguments_from (by rw [hname]; rfl) hword htext]
  dsimp only
  rw [hgiven]
  rfl

/-- A machine number, its letters and its base 7 text, in a line each. -/
def spellingLines (number : String) : String :=
  s!"number:  {number}\nletters: {numberToLetters number}\n" ++
    s!"base7:   {numberToBase7 number}\n"

theorem outcomeOf_convert {name text : String} {spelling : Spelling}
    (hname : Command.spelling? name = some spelling) (hword : Word.ofArgument name = .plain)
    (htext : Word.ofArgument text = .plain) (inputs : Inputs) :
    outcomeOf inputs ["convert", "--from", name, text] =
      ⟨0, spellingLines (spelling.toNumber text), ""⟩ := by
  rw [outcomeOf, ofArguments_convert hname hword htext]
  rfl

/-- Texts over `1`-`7` are those that come back from letters, and those that come back from base 7;
texts over `0`-`6` and texts of letters are those that come back from machine numbers.  No
conversion changes the number of characters.  So a text over `1`-`7`, its letters and its base 7 text
are all shown in the same three lines. -/
theorem conversions_invert (text : String) :
    (lettersToNumber (numberToLetters text) = text ↔ number.Spells text) ∧
    (base7ToNumber (numberToBase7 text) = text ↔ number.Spells text) ∧
    (numberToBase7 (base7ToNumber text) = text ↔ base7.Spells text) ∧
    (numberToLetters (lettersToNumber text) = text ↔ letters.Spells text) ∧
    ((numberToLetters text).length = text.length ∧ (lettersToNumber text).length = text.length ∧
      (numberToBase7 text).length = text.length ∧ (base7ToNumber text).length = text.length) ∧
    (number.Spells text → ∀ inputs,
      outcomeOf inputs ["convert", "--from", "number", text] = ⟨0, spellingLines text, ""⟩ ∧
      outcomeOf inputs ["convert", "--from", "letters", numberToLetters text] =
        ⟨0, spellingLines text, ""⟩ ∧
      outcomeOf inputs ["convert", "--from", "base7", numberToBase7 text] =
        ⟨0, spellingLines text, ""⟩) := by
  refine ⟨lettersToNumber_numberToLetters text, base7ToNumber_numberToBase7 text,
    numberToBase7_base7ToNumber text, numberToLetters_lettersToNumber text,
    ⟨length_ofList_map .., length_ofList_map .., length_ofList_map .., length_ofList_map ..⟩, ?_⟩
  intro h inputs
  have hnumber := outcomeOf_convert (by decide : Command.spelling? "number" = some number)
    (by decide) (plain_of_spells h) inputs
  have hletters := outcomeOf_convert (by decide : Command.spelling? "letters" = some letters)
    (by decide) (plain_of_spells (spells_numberToLetters text)) inputs
  have hbase7 := outcomeOf_convert (by decide : Command.spelling? "base7" = some base7)
    (by decide) (plain_of_spells (spells_numberToBase7 text)) inputs
  rw [Spelling.toNumber] at hnumber
  rw [Spelling.toNumber, (lettersToNumber_numberToLetters text).2 h] at hletters
  rw [Spelling.toNumber, (base7ToNumber_numberToBase7 text).2 h] at hbase7
  exact ⟨hnumber, hletters, hbase7⟩

/-- The letters of a machine number, and a digit that is lost on the way through base 7. -/
theorem conversions_invert_letters :
    number.Spells "3133254173" ∧
    outcomeOf .nothing ["convert", "--from", "letters", "DADDCRLA;D"] =
      outcomeOf .nothing ["convert", "--from", "number", "3133254173"] ∧
    base7ToNumber (numberToBase7 "318") ≠ "318" := by
  have hspells : number.Spells "3133254173" := by decide
  obtain ⟨hnumber, hletters, -⟩ :=
    (conversions_invert "3133254173").2.2.2.2.2 hspells .nothing
  refine ⟨hspells, hletters.trans hnumber.symm, ?_⟩
  rw [ne_eq, (conversions_invert "318").2.1]
  decide

end CommandLine

end QuintupleMachine
