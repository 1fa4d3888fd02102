import DiceRoll.Proofs.Evaluation.Checked
import DiceRoll.Proofs.Rolling.Observed

set_option autoImplicit false

namespace DiceRoll.Expression

def Watched {α : Type} (roller : Roller) (rolling : (σ : Type) → [Sink σ] → Rolling σ EvalError α) : Prop :=
  Observed (fun _ => True) roller rolling

theorem sum_observed (expr : Expression) (terms : List Term) (totals : List Total) (sum? : Option Total)
    (roller : Roller) (later : ∀ sum, Watched roller fun _ => expr.rollTerms terms totals sum) :
    Watched roller fun _ => match sum? with
      | none => Rolling.fail (.overflow expr)
      | some sum => expr.rollTerms terms totals sum := by
  cases sum? with
  | none => exact observed_stop _ roller _
  | some sum => exact later sum

theorem term_observed (expr : Expression) (term : Term) (terms : List Term) (totals : List Total) (sum : Total)
    (roller : Roller) (later : ∀ totals sum after, Watched after fun _ => expr.rollTerms terms totals sum) :
    Watched roller fun _ => (do
      let value ← term.dice.roll.mapError (EvalError.dice term.dice)
      match (term.sign.signed? value).bind sum.add? with
      | none => Rolling.fail (.overflow expr)
      | some sum => expr.rollTerms terms (value :: totals) sum) :=
  observed_bind _ roller _ _
    (observed_weaken _ _ roller _ (fun _ _ => trivial) (observed_map_error _ _ roller _ (term.dice.roll_observed roller)))
    fun value after => expr.sum_observed terms (value :: totals) _ after fun sum => later _ sum after

theorem terms_observed (expr : Expression) (terms : List Term) (totals : List Total) (sum : Total) (roller : Roller) :
    Watched roller fun _ => expr.rollTerms terms totals sum := by
  induction terms generalizing totals sum roller with
  | nil => exact observed_pure _ roller (totals, sum)
  | cons term terms ih =>
      exact observed_bind _ roller _ _ (observed_tell _ roller _ trivial) fun _ after =>
        expr.term_observed term terms totals sum after ih

theorem constant_observed (expr : Expression) (totals : List Total) (sum : Total) (roller : Roller) :
    Watched roller fun _ => match sum.add? expr.adjustment with
      | none => Rolling.fail (.overflow expr)
      | some total => pure (⟨expr, totals.reverse, total⟩ : Evaluation) := by
  cases sum.add? expr.adjustment with
  | none => exact observed_stop _ roller _
  | some total => exact observed_pure _ roller _

theorem eval_observed (expr : Expression) (roller : Roller) : Watched roller fun _ => expr.eval := by
  cases checked : checkTerms roller expr.terms with
  | error error =>
      exact ⟨⟨.error (.failed error), roller, []⟩, List.forall_mem_nil _,
        fun _ _ sink => eval_refused expr ⟨roller, sink⟩ error checked⟩
  | ok _ =>
      obtain ⟨report, told, runs⟩ := observed_bind _ roller _ _ (expr.terms_observed expr.terms [] 0 roller)
        fun reached last => expr.constant_observed reached.1 reached.2 last
      exact ⟨report, told, fun σ _ sink => (eval_checked expr ⟨roller, sink⟩ checked).trans (runs σ sink)⟩

end DiceRoll.Expression
