import DiceRoll.Dice
import DiceRoll.Sign

set_option autoImplicit false

namespace DiceRoll

structure Term where
  sign : Sign
  dice : Dice
deriving DecidableEq, Repr

-- One or more dice terms and a constant. The first term is always added.
structure Expression where
  first : Dice
  more : List Term
  adjustment : Total
deriving DecidableEq, Repr

namespace Expression

def ofDice (first : Dice) : Expression :=
  ⟨first, [], 0⟩

def andThen (expr : Expression) (sign : Sign) (dice : Dice) : Expression :=
  { expr with more := expr.more ++ [⟨sign, dice⟩] }

def plus (expr : Expression) (dice : Dice) : Expression :=
  expr.andThen .plus dice

def minus (expr : Expression) (dice : Dice) : Expression :=
  expr.andThen .minus dice

def adjust (expr : Expression) (adjustment : Total) : Expression :=
  { expr with adjustment := adjustment }

def terms (expr : Expression) : List Term :=
  ⟨.plus, expr.first⟩ :: expr.more

def signText (sign : Sign) : String :=
  " " ++ sign.text ++ " "

def adjustmentText (adjustment : Total) : String :=
  if adjustment = 0 then ""
  else signText (if adjustment.toInt < 0 then .minus else .plus) ++ toString adjustment.toInt.natAbs

def termText (dice : Dice) : Option Total → String
  | none => dice.text
  | some total => dice.text ++ " (" ++ total.text ++ ")"

-- Totals that are missing are left out, and those left over are not written.
def moreText : List Term → List Total → String
  | [], _ => ""
  | term :: terms, totals =>
      signText term.sign ++ termText term.dice totals.head? ++ moreText terms totals.tail

def textWith (expr : Expression) (totals : List Total) : String :=
  termText expr.first totals.head? ++ moreText expr.more totals.tail ++ adjustmentText expr.adjustment

def text (expr : Expression) : String :=
  expr.textWith []

end Expression

end DiceRoll
