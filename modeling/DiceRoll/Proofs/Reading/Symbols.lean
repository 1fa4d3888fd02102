import DiceRoll.Proofs.Notation.Lower

set_option autoImplicit false

namespace DiceRoll

inductive Symbol where
  | char (c : Char)
  | middleHigh
  | middleLow
deriving DecidableEq, Repr

def Symbol.lower : Symbol → Symbol
  | char c => .char c.toLower
  | middleHigh => .middleHigh
  | middleLow => .middleLow

def symbols : List Char → List Symbol
  | [] => []
  | [c] => [.char c]
  | c :: next :: text =>
      if c.toLower = 'm' ∧ next.toLower = 'h' then .middleHigh :: symbols text
      else if c.toLower = 'm' ∧ next.toLower = 'l' then .middleLow :: symbols text
      else .char c :: symbols (next :: text)

theorem symbols_single (c : Char) (text : List Char) (other : c.toLower ≠ 'm') :
    symbols (c :: text) = .char c :: symbols text := by
  cases text with
  | nil => rfl
  | cons next text => rw [symbols, if_neg fun both => other both.1, if_neg fun both => other both.1]

theorem symbols_high (c next : Char) (text : List Char) (first : c.toLower = 'm') (second : next.toLower = 'h') :
    symbols (c :: next :: text) = .middleHigh :: symbols text := by
  rw [symbols, if_pos ⟨first, second⟩]

theorem symbols_low (c next : Char) (text : List Char) (first : c.toLower = 'm') (second : next.toLower = 'l') :
    symbols (c :: next :: text) = .middleLow :: symbols text := by
  have apart : ¬(c.toLower = 'm' ∧ next.toLower = 'h') := by
    rintro ⟨_, high⟩
    rw [second] at high
    cases high
  rw [symbols, if_neg apart, if_pos ⟨first, second⟩]

theorem symbols_apart (c next : Char) (text : List Char) (high : next.toLower ≠ 'h') (low : next.toLower ≠ 'l') :
    symbols (c :: next :: text) = .char c :: symbols (next :: text) := by
  rw [symbols, if_neg fun both => high both.2, if_neg fun both => low both.2]

theorem symbols_empty (text : List Char) (none : symbols text = []) : text = [] := by
  cases text using symbols.fun_cases with
  | case1 => rfl
  | case2 c => cases none
  | case3 c next text both =>
      rw [symbols_high c next text both.1 both.2] at none
      cases none
  | case4 c next text _ both =>
      rw [symbols_low c next text both.1 both.2] at none
      cases none
  | case5 c next text noHigh noLow =>
      rw [symbols, if_neg noHigh, if_neg noLow] at none
      cases none

-- A text that begins with neither an `h` nor an `l` joins no symbol of the text before.
theorem symbols_append (a b : List Char) (apart : ∀ c ∈ b.head?, c.toLower ≠ 'h' ∧ c.toLower ≠ 'l') :
    symbols (a ++ b) = symbols a ++ symbols b := by
  induction a using symbols.induct with
  | case1 => rfl
  | case2 c =>
      cases b with
      | nil => rfl
      | cons next text =>
          obtain ⟨high, low⟩ := apart next rfl
          exact symbols_apart c next text high low
  | case3 c next text both ih =>
      rw [symbols_high c next text both.1 both.2]
      exact (symbols_high c next (text ++ b) both.1 both.2).trans (congrArg (List.cons _) ih)
  | case4 c next text _ both ih =>
      rw [symbols_low c next text both.1 both.2]
      exact (symbols_low c next (text ++ b) both.1 both.2).trans (congrArg (List.cons _) ih)
  | case5 c next text noHigh noLow ih =>
      have alone : symbols (c :: next :: text) = .char c :: symbols (next :: text) := by
        rw [symbols, if_neg noHigh, if_neg noLow]
      have before : symbols (c :: next :: (text ++ b)) = .char c :: symbols (next :: text ++ b) := by
        rw [symbols, if_neg noHigh, if_neg noLow]
        rfl
      rw [alone]
      exact before.trans (congrArg (List.cons _) ih)

end DiceRoll
