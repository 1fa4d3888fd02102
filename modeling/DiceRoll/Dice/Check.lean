import DiceRoll.Dice

set_option autoImplicit false

namespace DiceRoll

inductive RollError where
  | endlessExplosions (source : String) (threshold : UInt32)
  | endlessRerolls (source : String) (threshold : UInt32)
  | overflow (source : String)
deriving DecidableEq, Repr

namespace RollError

def message : RollError → String
  | endlessExplosions source threshold =>
      "dice expression '" ++ source ++ "' would explode forever (exploding on " ++ toString threshold ++ " or higher)"
  | endlessRerolls source threshold =>
      "dice expression '" ++ source ++ "' would reroll forever (rerolling on " ++ toString threshold ++ " or lower)"
  | overflow source => "integer overflow while rolling '" ++ source ++ "'"

end RollError

namespace Dice

def checkRerolls (dice : Dice) : Except RollError Unit :=
  match dice.rerollUpTo with
  | none => .ok ()
  | some low => if dice.highestFace ≤ low then .error (.endlessRerolls dice.source low) else .ok ()

def checkExplosions (dice : Dice) : Except RollError Unit :=
  match dice.explodeFrom with
  | none => .ok ()
  | some high =>
      if high.toNat ≤ dice.lowestAccepted then .error (.endlessExplosions dice.source high) else .ok ()

def check (dice : Dice) : Except RollError Unit :=
  match dice.checkRerolls with
  | .error error => .error error
  | .ok () => dice.checkExplosions

-- Refuses a term that does not finish when every die shows one value.
def checkFixed (dice : Dice) (value : UInt32) : Except RollError Unit :=
  if dice.rerolls value then .error (.endlessRerolls dice.source (dice.rerollUpTo.getD value))
  else if dice.explodes value then .error (.endlessExplosions dice.source (dice.explodeFrom.getD value))
  else .ok ()

end Dice

end DiceRoll
