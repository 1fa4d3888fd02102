import DiceRoll.Word

set_option autoImplicit false

namespace DiceRoll

inductive Base where
  | zero
  | one
deriving DecidableEq, Repr

namespace Base

def value : Base → UInt32
  | zero => 0
  | one => 1

def symbol : Base → Char
  | zero => 'z'
  | one => 'd'

def text (base : Base) : String :=
  base.symbol.toString

def face (base : Base) (offset : UInt32) : UInt32 :=
  clamp (base.value.toNat + offset.toNat)

-- The highest face of a die, the lowest one if the die has no sides.
def highest (base : Base) (sides : UInt32) : UInt32 :=
  clamp (base.value.toNat + (sides.toNat - 1))

instance : Ord Base where
  compare a b := compare a.value b.value

theorem value_le_one (base : Base) : base.value.toNat ≤ 1 := by
  cases base <;> decide

theorem face_to_nat (base : Base) (sides offset : UInt32) (inside : offset < sides) :
    (base.face offset).toNat = base.value.toNat + offset.toNat := by
  have low := value_le_one base
  have top := word_le_max sides
  have below := UInt32.lt_iff_toNat_lt.1 inside
  rw [face, clamp_to_nat]
  unfold maxWord at *
  omega

theorem highest_to_nat (base : Base) (sides : UInt32) :
    (base.highest sides).toNat = base.value.toNat + (sides.toNat - 1) := by
  have low := value_le_one base
  have top := word_le_max sides
  rw [highest, clamp_to_nat]
  unfold maxWord at *
  omega

end Base

end DiceRoll
