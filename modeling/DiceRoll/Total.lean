set_option autoImplicit false

namespace DiceRoll

abbrev Total := Int64

namespace Total

def least : Int := -9223372036854775808

def greatest : Int := 9223372036854775807

def ofInt? (n : Int) : Option Total :=
  if least ≤ n ∧ n ≤ greatest then some (Int64.ofInt n) else none

theorem least_le (t : Total) : least ≤ t.toInt :=
  t.le_toInt

theorem le_greatest (t : Total) : t.toInt ≤ greatest :=
  Int.le_of_lt_add_one t.toInt_lt

theorem to_int_of_int (n : Int) (low : least ≤ n) (high : n ≤ greatest) : (Int64.ofInt n).toInt = n :=
  Int64.toInt_ofInt_of_le low (Int.lt_add_one_of_le high)

theorem of_int_some_iff (n : Int) (t : Total) : ofInt? n = some t ↔ t.toInt = n := by
  unfold ofInt?
  constructor
  · intro h
    split at h
    · rename_i bounds
      cases h
      exact to_int_of_int n bounds.1 bounds.2
    · contradiction
  · intro h
    subst h
    rw [if_pos ⟨least_le t, le_greatest t⟩, Int64.ofInt_toInt]

theorem of_int_none_iff (n : Int) : ofInt? n = none ↔ n < least ∨ greatest < n := by
  unfold ofInt?
  split <;> simp <;> omega

def add? (a b : Total) : Option Total :=
  ofInt? (a.toInt + b.toInt)

def sub? (a b : Total) : Option Total :=
  ofInt? (a.toInt - b.toInt)

def mul? (a b : Total) : Option Total :=
  ofInt? (a.toInt * b.toInt)

def neg? (a : Total) : Option Total :=
  ofInt? (-a.toInt)

def ofWord (w : UInt32) : Total :=
  Int64.ofInt w.toNat

theorem of_word_to_int (w : UInt32) : (ofWord w).toInt = w.toNat := by
  have bound := w.toNat_lt
  exact to_int_of_int w.toNat (by unfold least; omega) (by unfold greatest; omega)

def sum? (words : List UInt32) : Option Total :=
  words.foldlM (fun sum w => add? sum (ofWord w)) 0

def text (t : Total) : String :=
  toString t.toInt

end Total

end DiceRoll
