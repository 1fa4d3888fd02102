import DiceRoll.Proofs.Notation.Canonical
import DiceRoll.Proofs.Notation.Derivation
import DiceRoll.Proofs.Reading.Progress
import DiceRoll.Text.Reading
import Mathlib.Data.List.Induction
import Mathlib.Data.Nat.Digits.Defs

set_option autoImplicit false

namespace DiceRoll

def placeValue (digits : List Char) : Nat :=
  Nat.ofDigits 10 (digits.reverse.map fun digit => digit.toNat - '0'.toNat)

theorem decimal_snoc (digits : List Char) (digit : Char) :
    decimal (digits ++ [digit]) = digit.toNat - '0'.toNat + 10 * decimal digits := by
  simp [decimal, pushDigit, Nat.add_comm]

theorem decimal_place_value (digits : List Char) : decimal digits = placeValue digits := by
  induction digits using List.reverseRecOn with
  | nil => rfl
  | append_singleton digits digit ih =>
      rw [decimal_snoc, ih, placeValue, placeValue, List.reverse_concat, List.map_cons, Nat.ofDigits_cons]

theorem starts_number_iff (c : Char) : startsNumber c = true ↔ '1' ≤ c ∧ c ≤ '9' := by
  have zero : c ≠ '0' ↔ c.toNat ≠ 48 := not_congr ⟨fun same => by rw [same]; rfl, fun same => Char.toNat_inj.1 same⟩
  have digit : c.isDigit = true ↔ 48 ≤ c.toNat ∧ c.toNat ≤ 57 := by
    simp only [Char.isDigit, Bool.and_eq_true, decide_eq_true_eq]
    exact Iff.rfl
  have between : '1' ≤ c ∧ c ≤ '9' ↔ 49 ≤ c.toNat ∧ c.toNat ≤ 57 := Iff.rfl
  rw [startsNumber, Bool.and_eq_true, bne_iff_ne, digit, zero, between]
  omega

theorem number_ahead_iff (text : List Char) :
    (∃ scanned, scanNumber text = some scanned) ↔ ∃ c ∈ text.head?, '1' ≤ c ∧ c ≤ '9' := by
  constructor
  · intro ⟨scanned, found⟩
    obtain ⟨c, more, start, rfl, rfl⟩ := scan_number_found text scanned found
    exact ⟨c, rfl, (starts_number_iff c).1 start⟩
  · intro ⟨c, front, digit⟩
    cases found : scanNumber text with
    | some scanned => exact ⟨scanned, rfl⟩
    | none =>
        have other := no_number text found c front
        rw [(starts_number_iff c).2 digit] at other
        cases other

structure DigitsAhead (text run rest : List Char) : Prop where
  split : text = run ++ rest
  only : ∀ c ∈ run, c.isDigit = true
  ended : NoDigitAhead rest

theorem number_taken (text : List Char) (scanned : Scanned Positive) (found : scanNumber text = some scanned) :
    ∃ run, DigitsAhead text run scanned.rest ∧
      (placeValue run ≤ maxWord → scanned.value.value.toNat = placeValue run ∧ scanned.problems = []) ∧
      (maxWord < placeValue run →
        scanned.value.value.toNat = maxWord ∧ scanned.problems = [⟨.oversized, text⟩]) := by
  obtain ⟨number, started, word, problems, split⟩ := Notation.number_scanned text scanned found
  have value : number.value = placeValue number.digits := decimal_place_value number.digits
  have ended : NoDigitAhead scanned.rest := by
    obtain ⟨c, more, start, rfl, rfl⟩ := scan_number_found text scanned found
    exact Notation.run_stops Char.isDigit more
  refine ⟨number.digits, ⟨split, number.only, ended⟩, fun fits => ?_, fun large => ?_⟩
  · rw [← value] at fits
    rw [← value, word, problems]
    exact ⟨number.word_to_nat fits, number.problems_fit scanned.rest fits⟩
  · rw [← value] at large
    rw [word, problems, Notation.Numeral.word, clamp_to_nat, Notation.Numeral.problems, oversizedAt, ← split]
    exact ⟨Nat.min_eq_right (Nat.le_of_lt large), if_neg (Nat.not_le_of_lt large)⟩

theorem word_read_back (word : UInt32) (rest : List Char) (positive : 0 < word) (ended : NoDigitAhead rest) :
    ∃ number : Positive, number.value = word ∧
      scanNumber ((toString word).toList ++ rest) = some ⟨number, [], rest⟩ := by
  have pos : 0 < word.toNat := UInt32.lt_iff_toNat_lt.1 positive
  have proper := Notation.proper_of_nat word.toNat pos (word_le_max word)
  obtain ⟨number, value, scanned⟩ := Notation.scan_numeral (.ofNat word.toNat) rest.head?.toList rest proper.started
    (fun c front => Option.mem_toList.2 front) fun c front => ended c (Option.mem_toList.1 front)
  refine ⟨number, ?_, ?_⟩
  · rw [value, Notation.Numeral.word, Notation.value_of_nat, clamp_word]
  · rw [← Notation.digits_of_word, scanned, Notation.Numeral.problems_fit _ _ proper.fits]

theorem number_read_exactly (text : List Char) :
    ((∃ found, (readNumberAndRest text).value = some found) ↔ ∃ c ∈ text.head?, '1' ≤ c ∧ c ≤ '9') ∧
      (∀ number rest, (readNumberAndRest text).value = some (number, rest) →
        ∃ run, DigitsAhead text run rest ∧
          (placeValue run ≤ maxWord →
            number.value.toNat = placeValue run ∧ (readNumberAndRest text).problems = []) ∧
          (maxWord < placeValue run →
            number.value.toNat = maxWord ∧ (readNumberAndRest text).problems = [⟨.oversized, text⟩])) ∧
      ∀ (word : UInt32) (rest : List Char), 0 < word → NoDigitAhead rest → text = (toString word).toList ++ rest →
        ∃ number : Positive, number.value = word ∧ readNumberAndRest text = ⟨some (number, rest), []⟩ := by
  refine ⟨?_, fun number rest read => ?_, fun word rest positive ended split => ?_⟩
  · rw [← number_ahead_iff, readNumberAndRest]
    cases scanNumber text with
    | none => simp [Reading.stuck]
    | some scanned => simp
  · rw [readNumberAndRest] at read ⊢
    cases found : scanNumber text with
    | none => simp [found, Reading.stuck] at read
    | some scanned =>
        rw [found] at read
        cases read
        exact number_taken text scanned found
  · obtain ⟨number, value, scanned⟩ := word_read_back word rest positive ended
    exact ⟨number, value, by rw [readNumberAndRest, split, scanned]⟩

example : readNumberAndRest "4294967296d6".toList =
    ⟨some (4294967295, "d6".toList), [⟨.oversized, "4294967296d6".toList⟩]⟩ := rfl

end DiceRoll
