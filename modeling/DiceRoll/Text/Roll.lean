import DiceRoll.Evaluation
import DiceRoll.Text.Parse

set_option autoImplicit false

namespace DiceRoll

inductive TextError where
  | unreadable (errors : List ParseError)
  | unevaluated (error : EvalError)
deriving DecidableEq, Repr

namespace TextError

def message : TextError → String
  | unreadable errors => ParseError.messages errors
  | unevaluated error => error.message

end TextError

def rollText {σ : Type} [Sink σ] (input : String) : Rolling σ TextError Total :=
  match parse input with
  | .error errors => Rolling.fail (.unreadable errors)
  | .ok expr => do
      let evaluation ← expr.eval.mapError TextError.unevaluated
      return evaluation.total

end DiceRoll
