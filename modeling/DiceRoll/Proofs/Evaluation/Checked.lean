import DiceRoll.Proofs.Evaluation.Terms

set_option autoImplicit false

namespace DiceRoll

def FirstRefused (roller : Roller) (terms : List Term) (refused : Term) (error : RollError) : Prop :=
  ∃ before later, terms = before ++ refused :: later ∧ (∀ term ∈ before, roller.check term.dice = .ok ()) ∧
    roller.check refused.dice = .error error

namespace Expression

theorem check_terms_ok_iff (roller : Roller) (terms : List Term) :
    checkTerms roller terms = .ok () ↔ ∀ term ∈ terms, roller.check term.dice = .ok () := by
  induction terms with
  | nil => exact ⟨fun _ => List.forall_mem_nil _, fun _ => rfl⟩
  | cons term terms ih =>
      rw [List.forall_mem_cons, ← ih, checkTerms]
      cases roller.check term.dice with
      | error error => simp
      | ok _ => simp

theorem check_terms_error (roller : Roller) (terms : List Term) (error : EvalError)
    (failed : checkTerms roller terms = .error error) :
    ∃ refused refusal, FirstRefused roller terms refused refusal ∧ error = .dice refused.dice refusal := by
  induction terms with
  | nil => cases failed
  | cons term terms ih =>
      rw [checkTerms] at failed
      cases checked : roller.check term.dice with
      | error refusal =>
          rw [checked] at failed
          cases failed
          exact ⟨term, refusal, ⟨[], terms, rfl, List.forall_mem_nil _, checked⟩, rfl⟩
      | ok _ =>
          rw [checked] at failed
          obtain ⟨refused, refusal, ⟨before, later, split, passed, last⟩, same⟩ := ih failed
          exact ⟨refused, refusal, ⟨term :: before, later, congrArg (List.cons term) split,
            List.forall_mem_cons.2 ⟨checked, passed⟩, last⟩, same⟩

theorem check_terms_refused (roller : Roller) (terms : List Term) (refused : Term) (refusal : RollError)
    (first : FirstRefused roller terms refused refusal) :
    checkTerms roller terms = .error (.dice refused.dice refusal) := by
  obtain ⟨before, later, rfl, passed, last⟩ := first
  induction before with
  | nil => rw [List.nil_append, checkTerms, last]
  | cons term before ih =>
      obtain ⟨checked, others⟩ := List.forall_mem_cons.1 passed
      rw [List.cons_append, checkTerms, checked]
      exact ih others

end Expression

variable {σ : Type} [Sink σ]

theorem eval_refused (expr : Expression) (table : Table σ) (error : EvalError)
    (refused : Expression.checkTerms table.roller expr.terms = .error error) :
    expr.eval table = .error (.failed error) table := by
  have got : (get : Rolling σ EvalError (Table σ)) table = .ok table table := rfl
  rw [Expression.eval, Rolling.bind_ok _ _ _ _ _ got, refused]
  rfl

theorem eval_checked (expr : Expression) (table : Table σ)
    (checked : Expression.checkTerms table.roller expr.terms = .ok ()) :
    expr.eval table = expr.evalUnchecked table := by
  have got : (get : Rolling σ EvalError (Table σ)) table = .ok table table := rfl
  rw [Expression.eval, Rolling.bind_ok _ _ _ _ _ got, checked]

inductive EvalRun (expr : Expression) (table : Table σ) :
    EStateM.Result (Stop EvalError) (Table σ) Evaluation → Prop where
  | finished (rolled : List RolledTerm) (after : Table σ) (sum total : Total)
      (all : rolled.map RolledTerm.term = expr.terms) (passed : TermsPass table 0 rolled after sum)
      (fits : total.toInt = sum.toInt + expr.adjustment.toInt) :
      EvalRun expr table (.ok ⟨expr, rolled.map RolledTerm.total, total⟩ after)
  | adjusted (rolled : List RolledTerm) (after : Table σ) (sum : Total)
      (all : rolled.map RolledTerm.term = expr.terms) (passed : TermsPass table 0 rolled after sum)
      (large : Total.ofInt? (sum.toInt + expr.adjustment.toInt) = none) :
      EvalRun expr table (.error (.failed (.overflow expr)) after)
  | overflow (rolled : List RolledTerm) (last : RolledTerm) (later : List Term) (middle after : Table σ)
      (reached : Total) (split : expr.terms = rolled.map RolledTerm.term ++ last.term :: later)
      (overflows : SumOverflow rolled last table middle after 0 reached) :
      EvalRun expr table (.error (.failed (.overflow expr)) after)
  | stopped (rolled : List RolledTerm) (term : Term) (later : List Term) (middle after : Table σ) (reached : Total)
      (stop : Stop RollError) (split : expr.terms = rolled.map RolledTerm.term ++ term :: later)
      (passed : TermsPass table 0 rolled middle reached)
      (run : term.dice.roll (middle.starts term.sign) = .error stop after) :
      EvalRun expr table (.error (stop.map (EvalError.dice term.dice)) after)

theorem eval_unchecked_run (expr : Expression) (table : Table σ) : EvalRun expr table (expr.evalUnchecked table) := by
  have terms := roll_terms_run expr table expr.terms [] 0
  rw [Expression.evalUnchecked]
  cases run : expr.rollTerms expr.terms [] 0 table with
  | error stop after =>
      rw [run] at terms
      rw [Rolling.bind_error _ _ _ _ _ run]
      cases terms with
      | stopped rolled term later middle _ reached stop split passed run =>
          exact .stopped rolled term later middle after reached stop split passed run
      | overflow rolled last later middle _ reached split overflows =>
          exact .overflow rolled last later middle after reached split overflows
  | ok result after =>
      rw [run] at terms
      rw [Rolling.bind_ok _ _ _ _ _ run]
      cases terms with
      | finished rolled _ sum all passed =>
          simp only [List.append_nil, List.reverse_reverse, Total.add?]
          cases added : Total.ofInt? (sum.toInt + expr.adjustment.toInt) with
          | none => exact .adjusted rolled after sum all passed added
          | some total => exact .finished rolled after sum total all passed ((Total.of_int_some_iff _ total).1 added)

theorem eval_ok_checked (expr : Expression) (table after : Table σ) (evaluation : Evaluation)
    (ran : expr.eval table = .ok evaluation after) : Expression.checkTerms table.roller expr.terms = .ok () := by
  cases checked : Expression.checkTerms table.roller expr.terms with
  | error error =>
      rw [eval_refused expr table error checked] at ran
      cases ran
  | ok _ => rfl

theorem eval_ok_run (expr : Expression) (table after : Table σ) (evaluation : Evaluation)
    (ran : expr.eval table = .ok evaluation after) : EvalRun expr table (.ok evaluation after) := by
  rw [← ran, eval_checked expr table (eval_ok_checked expr table after evaluation ran)]
  exact eval_unchecked_run expr table

end DiceRoll
