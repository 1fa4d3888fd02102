import DiceRoll.Text.Scanned
import DiceRoll.Word

set_option autoImplicit false

namespace DiceRoll

def pushDigit (n : Nat) (digit : Char) : Nat :=
  10 * n + (digit.toNat - '0'.toNat)

def decimal (digits : List Char) : Nat :=
  digits.foldl pushDigit 0

theorem le_fold_push (digits : List Char) (n : Nat) : n ≤ digits.foldl pushDigit n := by
  induction digits generalizing n with
  | nil => exact Nat.le_refl n
  | cons digit digits ih =>
      have := ih (pushDigit n digit)
      unfold pushDigit at this ⊢
      simp only [List.foldl_cons]
      omega

def startsNumber (c : Char) : Bool :=
  c.isDigit && c != '0'

theorem decimal_pos (c : Char) (digits : List Char) (start : startsNumber c) : 0 < decimal (c :: digits) := by
  have least := le_fold_push digits (pushDigit 0 c)
  have first : 0 < pushDigit 0 c := by
    simp only [startsNumber, Char.isDigit, Bool.and_eq_true, decide_eq_true_eq, bne_iff_ne, ne_eq] at start
    obtain ⟨⟨above, _⟩, notZero⟩ := start
    have apart : c.toNat ≠ '0'.toNat := fun same => notZero (Char.ext (UInt32.toNat_inj.1 same))
    have : '0'.toNat ≤ c.toNat := above
    unfold pushDigit
    omega
  exact Nat.lt_of_lt_of_le first least

def oversizedAt (text : List Char) (n : Nat) : List Problem :=
  if n ≤ maxWord then [] else [⟨.oversized, text⟩]

def scanNumber : List Char → Option (Scanned Positive)
  | [] => none
  | c :: text =>
      if start : startsNumber c then
        let digits := text.takeWhile Char.isDigit
        some ⟨.clamp (decimal (c :: digits)) (decimal_pos c digits start),
          oversizedAt (c :: text) (decimal (c :: digits)), text.dropWhile Char.isDigit⟩
      else none

theorem scan_number_found (text : List Char) (scanned : Scanned Positive) (found : scanNumber text = some scanned) :
    ∃ (c : Char) (more : List Char) (start : startsNumber c = true), text = c :: more ∧
      scanned = ⟨.clamp (decimal (c :: more.takeWhile Char.isDigit)) (decimal_pos c _ start),
        oversizedAt (c :: more) (decimal (c :: more.takeWhile Char.isDigit)), more.dropWhile Char.isDigit⟩ := by
  cases text with
  | nil => contradiction
  | cons c more =>
      by_cases start : startsNumber c = true
      · rw [scanNumber, dif_pos start] at found
        cases found
        exact ⟨c, more, start, rfl, rfl⟩
      · rw [scanNumber, dif_neg start] at found
        contradiction

theorem scan_number_suffix (text : List Char) (scanned : Scanned Positive)
    (found : scanNumber text = some scanned) : scanned.rest <:+ text := by
  obtain ⟨c, more, start, rfl, rfl⟩ := scan_number_found text scanned found
  exact (List.dropWhile_suffix Char.isDigit).trans (List.suffix_cons c more)

end DiceRoll
