import DiceRoll.Dice.Check
import DiceRoll.Generator

set_option autoImplicit false

namespace DiceRoll

inductive Roller where
  | values (left : List UInt32)
  | seeded (generator : Generator)
  | constant (value : UInt32)
  | lowest
  | highest
deriving DecidableEq, Repr

namespace Roller

def ofSeed (seed : UInt64) : Roller :=
  .seeded ⟨seed⟩

def draw (roller : Roller) (base : Base) (sides : UInt32) : Option (UInt32 × Roller) :=
  match roller with
  | .values [] => none
  | .values (value :: left) => some (value, .values left)
  | .seeded generator =>
      if pos : 0 < sides then
        let drawn := generator.below sides pos
        some (base.face drawn.1, .seeded drawn.2)
      else some (base.value, roller)
  | .constant value => some (value, roller)
  | .lowest => some (base.value, roller)
  | .highest => some (base.highest sides, roller)

def fixedValue (roller : Roller) (base : Base) (sides : UInt32) : Option UInt32 :=
  match roller with
  | .values _ => none
  | .seeded _ => none
  | .constant value => some value
  | .lowest => some base.value
  | .highest => some (base.highest sides)

def hasValues : Roller → Bool
  | .values [] => false
  | _ => true

-- How many states a roller can pass through, the present one among them. A loop that draws on after that many times
-- has come back to a state, and never ends.
def states : Roller → Nat
  | .values left => left.length + 1
  | .seeded _ => Generator.stateCount
  | _ => 1

def check (roller : Roller) (dice : Dice) : Except RollError Unit :=
  match dice.check with
  | .error error => .error error
  | .ok () =>
      match roller.fixedValue dice.base dice.sides.value with
      | none => .ok ()
      | some value => dice.checkFixed value

end Roller

end DiceRoll
