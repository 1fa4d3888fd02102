import DiceRoll.Expression
import DiceRoll.Roll

set_option autoImplicit false

namespace DiceRoll

-- An expression with the totals of its terms, before their signs, and the total of all.
structure Evaluation where
  expr : Expression
  totals : List Total
  total : Total
deriving DecidableEq, Repr

namespace Evaluation

def text (evaluation : Evaluation) : String :=
  evaluation.expr.textWith evaluation.totals

end Evaluation

inductive EvalError where
  | dice (dice : Dice) (error : RollError)
  | overflow (expr : Expression)
deriving DecidableEq, Repr

namespace EvalError

def message : EvalError → String
  | .dice term error => "dice error while evaluating \"" ++ term.text ++ "\": " ++ error.message
  | .overflow expr => "integer overflow while evaluating " ++ expr.text

end EvalError

namespace Expression

def checkTerms (roller : Roller) : List Term → Except EvalError Unit
  | [] => .ok ()
  | term :: terms =>
      match roller.check term.dice with
      | .error error => .error (.dice term.dice error)
      | .ok () => checkTerms roller terms

variable {σ : Type} [Sink σ]

-- Gives the totals of the terms, the latest in front, and the total of all.
def rollTerms (expr : Expression) : List Term → List Total → Total → Rolling σ EvalError (List Total × Total)
  | [], totals, total => return (totals, total)
  | term :: terms, totals, total => do
      Rolling.tell (.started term.sign)
      let value ← term.dice.roll.mapError (EvalError.dice term.dice)
      match (term.sign.signed? value).bind total.add? with
      | none => Rolling.fail (.overflow expr)
      | some total => rollTerms expr terms (value :: totals) total

def evalUnchecked (expr : Expression) : Rolling σ EvalError Evaluation := do
  let (totals, total) ← expr.rollTerms expr.terms [] 0
  match total.add? expr.adjustment with
  | none => Rolling.fail (.overflow expr)
  | some total => return ⟨expr, totals.reverse, total⟩

def eval (expr : Expression) : Rolling σ EvalError Evaluation := do
  match checkTerms (← get).roller expr.terms with
  | .error error => Rolling.fail error
  | .ok () => expr.evalUnchecked

end Expression

end DiceRoll
