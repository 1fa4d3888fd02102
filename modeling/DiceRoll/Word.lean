set_option autoImplicit false

namespace DiceRoll

def maxWord : Nat := 4294967295

-- The word for a number, the largest one for anything that does not fit.
def clamp (n : Nat) : UInt32 :=
  UInt32.ofNat (min n maxWord)

theorem clamp_to_nat (n : Nat) : (clamp n).toNat = min n maxWord :=
  UInt32.toNat_ofNat_of_lt' (Nat.lt_of_le_of_lt (Nat.min_le_right n maxWord) (by decide))

theorem word_le_max (w : UInt32) : w.toNat ≤ maxWord :=
  Nat.le_of_lt_succ w.toNat_lt

theorem clamp_word (w : UInt32) : clamp w.toNat = w := by
  apply UInt32.toNat_inj.1
  rw [clamp_to_nat, Nat.min_eq_left (word_le_max w)]

structure Positive where
  value : UInt32
  pos : 0 < value
deriving DecidableEq, Repr

namespace Positive

def clamp (n : Nat) (pos : 0 < n) : Positive where
  value := DiceRoll.clamp n
  pos := by
    rw [UInt32.lt_iff_toNat_lt, clamp_to_nat]
    exact Nat.lt_min.2 ⟨pos, by decide⟩

instance (n : Nat) : OfNat Positive (n + 1) :=
  ⟨clamp (n + 1) (Nat.succ_pos n)⟩

end Positive

end DiceRoll
