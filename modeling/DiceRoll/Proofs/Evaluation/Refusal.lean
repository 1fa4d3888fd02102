import DiceRoll.Proofs.Evaluation.Checked
import DiceRoll.Text.Roll

set_option autoImplicit false

namespace DiceRoll

variable {σ : Type} [Sink σ]

theorem roll_endless_iff (dice : Dice) (table after : Table σ) (error : RollError) :
    error.isEndless = true ∧ dice.roll table = .error (.failed error) after ↔
      table.roller.check dice = .error error ∧ after = table := by
  constructor
  · rintro ⟨endless, ran⟩
    cases checked : table.roller.check dice with
    | error refusal =>
        rw [roll_refused dice table refusal checked] at ran
        cases ran
        exact ⟨rfl, rfl⟩
    | ok _ =>
        obtain ⟨_, _, _, _, rfl⟩ := roll_failed_course dice table after error checked ran
        cases endless
  · rintro ⟨refused, rfl⟩
    exact ⟨Roller.check_endless _ dice error refused, roll_refused dice _ error refused⟩

-- Once all terms are checked, the check of a term in its turn passes as well.
theorem checked_eval_error (expr : Expression) (table after : Table σ) (dice : Dice) (error : RollError)
    (checked : ∀ term ∈ expr.terms, table.roller.check term.dice = .ok ())
    (ran : expr.evalUnchecked table = .error (.failed (.dice dice error)) after) : error.isEndless = false := by
  have run := eval_unchecked_run expr table
  rw [ran] at run
  generalize same : EStateM.Result.error (Stop.failed (EvalError.dice dice error)) after = result at run
  cases run with
  | finished => cases same
  | adjusted => cases same
  | overflow => cases same
  | stopped rolled term later middle _ reached stop split passed run =>
      cases stop with
      | exhausted => cases same
      | endless => cases same
      | failed refusal =>
          cases same
          have first : table.roller.check term.dice = .ok () :=
            checked term (split ▸ List.mem_append_right _ List.mem_cons_self)
          have again : (middle.starts term.sign).roller.check term.dice = .ok () :=
            (terms_pass_check table middle 0 reached rolled passed term.dice).trans first
          obtain ⟨_, _, _, _, rfl⟩ := roll_failed_course term.dice _ after error again run
          rfl

theorem eval_endless_iff (expr : Expression) (table after : Table σ) (dice : Dice) (error : RollError) :
    error.isEndless = true ∧ expr.eval table = .error (.failed (.dice dice error)) after ↔
      (∃ refused, FirstRefused table.roller expr.terms refused error ∧ refused.dice = dice) ∧ after = table := by
  constructor
  · rintro ⟨endless, ran⟩
    cases checked : Expression.checkTerms table.roller expr.terms with
    | error failure =>
        rw [eval_refused expr table failure checked] at ran
        cases ran
        obtain ⟨refused, refusal, first, same⟩ := Expression.check_terms_error _ _ _ checked
        cases same
        exact ⟨⟨refused, first, rfl⟩, rfl⟩
    | ok _ =>
        rw [eval_checked expr table checked] at ran
        have all := (Expression.check_terms_ok_iff _ _).1 checked
        rw [checked_eval_error expr table after dice error all ran] at endless
        cases endless
  · rintro ⟨⟨refused, first, rfl⟩, rfl⟩
    obtain ⟨before, later, split, passed, last⟩ := first
    refine ⟨Roller.check_endless _ _ error last, eval_refused expr _ _ ?_⟩
    exact Expression.check_terms_refused _ _ refused error ⟨before, later, split, passed, last⟩

theorem first_refused_iff (roller : Roller) (terms : List Term) :
    (∃ refused error, FirstRefused roller terms refused error) ↔
      ∃ term ∈ terms, ∃ error, roller.check term.dice = .error error := by
  constructor
  · rintro ⟨refused, error, before, later, rfl, _, last⟩
    exact ⟨refused, List.mem_append_right _ List.mem_cons_self, error, last⟩
  · rintro ⟨term, member, error, refused⟩
    cases checked : Expression.checkTerms roller terms with
    | error failure =>
        obtain ⟨refused, refusal, first, _⟩ := Expression.check_terms_error roller terms failure checked
        exact ⟨refused, refusal, first⟩
    | ok _ =>
        rw [(Expression.check_terms_ok_iff roller terms).1 checked term member] at refused
        cases refused

theorem unreadable_untouched (input : String) (table : Table σ) (errors : List ParseError)
    (unread : parse input = .error errors) : rollText input table = .error (.failed (.unreadable errors)) table := by
  rw [rollText, unread]
  rfl

theorem endless_refused_first (expr : Expression) (roller : Roller) (sink : σ) :
    (∀ dice error after,
        error.isEndless = true ∧ expr.eval ⟨roller, sink⟩ = .error (.failed (.dice dice error)) after ↔
          (∃ refused, FirstRefused roller expr.terms refused error ∧ refused.dice = dice) ∧ after = ⟨roller, sink⟩) ∧
      ((∃ dice error after,
          error.isEndless = true ∧ expr.eval ⟨roller, sink⟩ = .error (.failed (.dice dice error)) after) ↔
        ∃ term ∈ expr.terms, ∃ error, roller.check term.dice = .error error) ∧
      (∀ (dice : Dice) (error : RollError) (after : Table σ),
        error.isEndless = true ∧ dice.roll ⟨roller, sink⟩ = .error (.failed error) after ↔
          roller.check dice = .error error ∧ after = ⟨roller, sink⟩) ∧
      (∀ input errors, parse input = .error errors →
        rollText input ⟨roller, sink⟩ = .error (.failed (.unreadable errors)) ⟨roller, sink⟩) := by
  refine ⟨fun dice error after => eval_endless_iff expr ⟨roller, sink⟩ after dice error, ?_,
    fun dice error after => roll_endless_iff dice ⟨roller, sink⟩ after error,
    fun input errors unread => unreadable_untouched input ⟨roller, sink⟩ errors unread⟩
  rw [← first_refused_iff]
  constructor
  · rintro ⟨dice, error, after, failed⟩
    obtain ⟨⟨refused, first, _⟩, _⟩ := (eval_endless_iff expr ⟨roller, sink⟩ after dice error).1 failed
    exact ⟨refused, error, first⟩
  · rintro ⟨refused, error, first⟩
    exact ⟨refused.dice, error, ⟨roller, sink⟩,
      (eval_endless_iff expr ⟨roller, sink⟩ ⟨roller, sink⟩ refused.dice error).2 ⟨⟨refused, first, rfl⟩, rfl⟩⟩

def sixSided (rerollUpTo explodeFrom : Option UInt32) (source : String) : Dice :=
  ⟨⟨.one, 6, 1, rerollUpTo, ⟨.high, 1⟩, explodeFrom, 1⟩, source⟩

def twiceEndless : Expression :=
  ⟨sixSided none none "d6", [⟨.plus, sixSided (some 6) none "d6r6"⟩, ⟨.minus, sixSided none (some 1) "d6!1"⟩], 0⟩

theorem twice_endless_refused : RollError.isEndless (.endlessRerolls "d6r6" 6) = true ∧
    twiceEndless.eval ⟨.ofSeed 7, Trace.empty⟩ =
      .error (.failed (.dice (sixSided (some 6) none "d6r6") (.endlessRerolls "d6r6" 6))) ⟨.ofSeed 7, Trace.empty⟩ :=
  ((endless_refused_first twiceEndless (.ofSeed 7) Trace.empty).1 _ _ _).2
    ⟨⟨⟨.plus, sixSided (some 6) none "d6r6"⟩, ⟨[⟨.plus, sixSided none none "d6"⟩],
      [⟨.minus, sixSided none (some 1) "d6!1"⟩], rfl, List.forall_mem_singleton.2 rfl, rfl⟩, rfl⟩, rfl⟩

end DiceRoll
