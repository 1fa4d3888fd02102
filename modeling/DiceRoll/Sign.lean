import DiceRoll.Total

set_option autoImplicit false

namespace DiceRoll

inductive Sign where
  | plus
  | minus
deriving DecidableEq, Repr

namespace Sign

def symbol : Sign → Char
  | plus => '+'
  | minus => '-'

def text (sign : Sign) : String :=
  sign.symbol.toString

-- The signed total. The least total has no negative.
def signed? : Sign → Total → Option Total
  | plus, total => some total
  | minus, total => total.neg?

def ofWord : Sign → UInt32 → Total
  | plus, w => Int64.ofInt w.toNat
  | minus, w => Int64.ofInt (-w.toNat)

theorem signed_of_word (sign : Sign) (w : UInt32) :
    sign.signed? (Total.ofWord w) = some (sign.ofWord w) := by
  have bound := w.toNat_lt
  cases sign with
  | plus => rfl
  | minus =>
    unfold signed? Total.neg?
    rw [Total.of_int_some_iff, Total.of_word_to_int]
    exact Total.to_int_of_int (-w.toNat) (by unfold Total.least; omega) (by unfold Total.greatest; omega)

end Sign

end DiceRoll
