import DiceRoll.Base
import DiceRoll.Keep

set_option autoImplicit false

namespace DiceRoll

structure Clauses where
  base : Base
  sides : Positive
  count : Positive
  -- Rolls up to this one are rolled again.
  rerollUpTo : Option UInt32
  keep : Keep
  -- Kept rolls from this one on add another die.
  explodeFrom : Option UInt32
  multiply : UInt32
deriving DecidableEq, Repr

namespace Clauses

def lowestFace (clauses : Clauses) : UInt32 :=
  clauses.base.value

def highestFace (clauses : Clauses) : UInt32 :=
  clauses.base.highest clauses.sides.value

def rerolls (clauses : Clauses) (value : UInt32) : Bool :=
  match clauses.rerollUpTo with
  | none => false
  | some low => value ≤ low

def explodes (clauses : Clauses) (value : UInt32) : Bool :=
  match clauses.explodeFrom with
  | none => false
  | some high => high ≤ value

-- The lowest number that can come out once rerolls are over. No die shows it if every face is rerolled.
def lowestAccepted (clauses : Clauses) : Nat :=
  match clauses.rerollUpTo with
  | none => clauses.lowestFace.toNat
  | some low => max clauses.lowestFace.toNat (low.toNat + 1)

def rerollText : Option UInt32 → String
  | none => ""
  | some low => "r" ++ toString low

def keepText (keep : Keep) (count : UInt32) : String :=
  if keep = ⟨.high, count⟩ then "" else keep.text

def explodeText (sides : UInt32) : Option UInt32 → String
  | none => ""
  | some high => if high = sides then "!" else "!" ++ toString high

def multiplyText (multiply : UInt32) : String :=
  if multiply = 1 then "" else "x" ++ toString multiply

def text (clauses : Clauses) : String :=
  toString clauses.count.value ++ clauses.base.text ++ toString clauses.sides.value ++ rerollText clauses.rerollUpTo ++
    keepText clauses.keep clauses.count.value ++ explodeText clauses.sides.value clauses.explodeFrom ++
    multiplyText clauses.multiply

end Clauses

structure Dice extends Clauses where
  source : String
deriving DecidableEq, Repr

end DiceRoll
