import DiceRoll.Proofs.Evaluation.Observed
import DiceRoll.Proofs.Evaluation.Replay
import DiceRoll.Proofs.Rolling.Prolonged

set_option autoImplicit false

namespace DiceRoll

namespace Expression

theorem terms_prolonged (expr : Expression) (given more : List UInt32) (terms : List Term) (totals : List Total)
    (sum : Total) :
    Prolongs given more (fun _ => expr.rollTerms terms totals sum) fun _ => expr.rollTerms terms totals sum := by
  induction terms generalizing given totals sum with
  | nil => exact prolongs_pure given more (totals, sum)
  | cons term terms ih =>
      refine prolongs_bind _ given more _ _ _ _ (prolongs_start given more term.sign) (fun _ left _ _ => ?_)
        fun _ after => expr.term_observed term terms totals sum after (expr.terms_observed terms)
      refine prolongs_bind _ left more _ _ _ _ (prolongs_map_error _ left more _ _ (term.dice.roll_prolonged left more))
        (fun value rest _ _ => ?_) fun value after =>
          expr.sum_observed terms (value :: totals) _ after fun sum => expr.terms_observed terms _ sum after
      cases (term.sign.signed? value).bind sum.add? with
      | none => exact prolongs_fail rest more _
      | some reached => exact ih rest (value :: totals) reached

theorem unchecked_prolonged (expr : Expression) (given more : List UInt32) :
    Prolongs given more (fun _ => expr.evalUnchecked) fun _ => expr.evalUnchecked := by
  refine prolongs_bind _ given more _ _ _ _ (expr.terms_prolonged given more expr.terms [] 0)
    (fun reached left _ _ => ?_) fun reached last => expr.constant_observed reached.1 reached.2 last
  obtain ⟨totals, sum⟩ := reached
  cases added : sum.add? expr.adjustment with
  | none =>
      simp only [added]
      exact prolongs_fail left more _
  | some total =>
      simp only [added]
      exact prolongs_pure left more _

theorem check_terms_given (terms : List Term) (given more : List UInt32) :
    checkTerms (.values given) terms = checkTerms (.values more) terms := by
  induction terms with
  | nil => rfl
  | cons term terms ih => rw [checkTerms, checkTerms, ih]; rfl

theorem eval_prolonged (expr : Expression) (given more : List UInt32) :
    Prolongs given more (fun _ => expr.eval) fun _ => expr.eval := by
  have same := check_terms_given expr.terms (given ++ more) given
  cases checked : checkTerms (.values given) expr.terms with
  | error error =>
      exact ⟨_, _, .ended (.error error) given [] rfl, fun _ _ _ => eval_refused expr _ error checked,
        fun _ _ _ => eval_refused expr _ error (same.trans checked)⟩
  | ok _ =>
      obtain ⟨first, second, prolonged, runs, goesOn⟩ := expr.unchecked_prolonged given more
      exact ⟨first, second, prolonged, fun σ _ sink => (eval_checked expr _ checked).trans (runs σ sink),
        fun σ _ sink => (eval_checked expr _ (same.trans checked)).trans (goesOn σ sink)⟩

end Expression

theorem ended_report {σ : Type} [Sink σ] (outcome : Except EvalError Evaluation) (roller : Roller)
    (notices : List Notice) (sink : σ) :
    Report.on ⟨outcome.mapError .failed, roller, notices⟩ sink = ended outcome ⟨roller, notifyAll sink notices⟩ := by
  cases outcome <;> rfl

theorem ended_inj {σ : Type} (outcome same : Except EvalError Evaluation) (after last : Table σ)
    (equal : ended outcome after = ended same last) : outcome = same ∧ after = last := by
  cases outcome <;> cases same <;> cases equal <;> exact ⟨rfl, rfl⟩

theorem ended_not_exhausted {σ : Type} (outcome : Except EvalError Evaluation) (after last : Table σ) :
    ended outcome after ≠ .error .exhausted last := by
  cases outcome <;> nofun

inductive EvalProlonged {σ : Type} [Sink σ] (expr : Expression) (given more : List UInt32) (sink : σ) : Prop where
  | ended (outcome : Except EvalError Evaluation) (left : List UInt32) (notices : List Notice)
      (used : given = fallen (eventsTold notices) ++ left)
      (ran : expr.eval ⟨.values given, sink⟩ = ended outcome ⟨.values left, notifyAll sink notices⟩)
      (again : expr.eval ⟨.values (given ++ more), sink⟩ =
        ended outcome ⟨.values (left ++ more), notifyAll sink notices⟩)
  | spent (notices : List Notice) (later : Report EvalError Evaluation) (used : given = fallen (eventsTold notices))
      (ran : expr.eval ⟨.values given, sink⟩ = .error .exhausted ⟨.values [], notifyAll sink notices⟩)
      (goesOn : expr.eval ⟨.values (given ++ more), sink⟩ = later.on (notifyAll sink notices))

theorem eval_prolonged_cases {σ : Type} [Sink σ] (expr : Expression) (given more : List UInt32) (sink : σ) :
    EvalProlonged expr given more sink := by
  obtain ⟨first, second, prolonged, runs, goesOn⟩ := expr.eval_prolonged given more
  cases prolonged with
  | ended outcome left notices used =>
      exact .ended outcome left notices used ((runs σ sink).trans (ended_report outcome _ notices sink))
        ((goesOn σ sink).trans (ended_report outcome _ notices sink))
  | spent notices later used =>
      exact .spent notices later used (runs σ sink) ((goesOn σ sink).trans (later.after_on notices sink))

-- A trace that has recorded all of another one first.
structure Trace.Begins (part whole : Trace) : Prop where
  events : part.events.toList <+: whole.events.toList
  starts : part.starts.toList <+: whole.starts.toList

theorem notified_begins (trace : Trace) (notices : List Notice) : trace.Begins (notifyAll trace notices) := by
  rw [Trace.notified]
  exact ⟨⟨eventsTold notices, by simp⟩, ⟨startsTold trace.events.size notices, by simp⟩⟩

def lastTable {ε α σ : Type} : EStateM.Result ε (Table σ) α → Table σ
  | .ok _ after => after
  | .error _ after => after

theorem report_begins {ε α : Type} (report : Report ε α) (trace : Trace) :
    trace.Begins (lastTable (report.on trace)).sink := by
  obtain ⟨outcome, roller, notices⟩ := report
  cases outcome <;> exact notified_begins trace notices

theorem exhausted_told (expr : Expression) (given : List UInt32) (after : Table Trace)
    (ran : expr.eval ⟨.values given, Trace.empty⟩ = .error .exhausted after) :
    fallen after.sink.events.toList = given ∧
      ∀ more, after.sink.Begins (lastTable (expr.eval ⟨.values (given ++ more), Trace.empty⟩)).sink := by
  have told (more : List UInt32) : ∃ notices, after.sink = notifyAll Trace.empty notices ∧
      given = fallen (eventsTold notices) ∧
      after.sink.Begins (lastTable (expr.eval ⟨.values (given ++ more), Trace.empty⟩)).sink := by
    cases eval_prolonged_cases expr given more Trace.empty with
    | ended outcome left notices used same again => exact absurd (same.symm.trans ran) (ended_not_exhausted _ _ _)
    | spent notices later used same goesOn =>
        rw [ran] at same
        cases same
        rw [goesOn]
        exact ⟨notices, rfl, used, report_begins later _⟩
  refine ⟨?_, fun more => ?_⟩
  · obtain ⟨notices, recorded, used, _⟩ := told []
    rw [recorded, Trace.told_events, used]
  · obtain ⟨_, _, _, begins⟩ := told more
    exact begins

theorem ended_with_more {σ : Type} [Sink σ] (expr : Expression) (given left more : List UInt32) (sink last : σ)
    (outcome : Except EvalError Evaluation)
    (ran : expr.eval ⟨.values given, sink⟩ = ended outcome ⟨.values left, last⟩) :
    expr.eval ⟨.values (given ++ more), sink⟩ = ended outcome ⟨.values (left ++ more), last⟩ := by
  cases eval_prolonged_cases expr given more sink with
  | spent notices later used same goesOn => exact absurd (ran.symm.trans same) (ended_not_exhausted _ _ _)
  | ended same rest notices used runs again =>
      obtain ⟨rfl, tables⟩ := ended_inj _ _ _ _ (runs.symm.trans ran)
      cases tables
      exact again

theorem fewer_exhausted {σ : Type} [Sink σ] (expr : Expression) (part rest : List UInt32) (sink last : σ)
    (outcome : Except EvalError Evaluation) (present : rest ≠ [])
    (ran : expr.eval ⟨.values (part ++ rest), sink⟩ = ended outcome ⟨.values [], last⟩) :
    ∃ stopped, expr.eval ⟨.values part, sink⟩ = .error .exhausted stopped := by
  cases eval_prolonged_cases expr part rest sink with
  | spent notices later used same goesOn => exact ⟨_, same⟩
  | ended same left notices used runs again =>
      obtain ⟨_, tables⟩ := ended_inj _ _ _ _ (again.symm.trans ran)
      injection tables with rollers
      injection rollers with none
      exact absurd (List.append_eq_nil_iff.1 none).2 present

theorem ended_used (expr : Expression) (given : List UInt32) (outcome : Except EvalError Evaluation)
    (after : Table Trace) (checked : ∀ term ∈ expr.terms, term.dice.check = .ok ())
    (ran : expr.eval ⟨.values given, Trace.empty⟩ = ended outcome after) :
    ∃ used left, given = used ++ left ∧ after.roller = .values left ∧
      expr.eval ⟨.values used, Trace.empty⟩ = ended outcome ⟨.values [], after.sink⟩ := by
  have alone : ∀ term ∈ expr.terms, (Roller.values given).check term.dice = .ok () := fun term member =>
    check_given term.dice given (checked term member)
  obtain ⟨notices, recorded, again⟩ := end_replayed expr ⟨.values given, Trace.empty⟩ outcome after alone ran
  have made := again Trace.empty
  simp only at recorded
  rw [← recorded] at made
  cases eval_prolonged_cases expr given [] Trace.empty with
  | spent told later used same goesOn => exact absurd (ran.symm.trans same) (ended_not_exhausted _ _ _)
  | ended same left told used runs more =>
      obtain ⟨_, rfl⟩ := ended_inj _ _ _ _ (ran.symm.trans runs)
      have events : eventsTold told = eventsTold notices := by
        rw [← Trace.told_events told, ← Trace.told_events notices, ← recorded]
      rw [events] at used
      exact ⟨_, left, used, rfl, made⟩

theorem given_values_suffice_or_run_out (expr : Expression) (given : List UInt32)
    (checked : ∀ term ∈ expr.terms, term.dice.check = .ok ()) :
    ((∃ after, expr.eval ⟨.values given, Trace.empty⟩ = .error .exhausted after) ∨
        ∃ outcome after, expr.eval ⟨.values given, Trace.empty⟩ = ended outcome after) ∧
      (∀ after, expr.eval ⟨.values given, Trace.empty⟩ = .error .exhausted after →
        fallen after.sink.events.toList = given ∧
          ∀ more, after.sink.Begins (lastTable (expr.eval ⟨.values (given ++ more), Trace.empty⟩)).sink) ∧
      ∀ outcome after, expr.eval ⟨.values given, Trace.empty⟩ = ended outcome after →
        ∃ used left, given = used ++ left ∧ after.roller = .values left ∧
          (∀ others, expr.eval ⟨.values (used ++ others), Trace.empty⟩ =
            ended outcome ⟨.values others, after.sink⟩) ∧
          ∀ part, part <+: used → part ≠ used →
            ∃ stopped, expr.eval ⟨.values part, Trace.empty⟩ = .error .exhausted stopped := by
  refine ⟨?_, exhausted_told expr given, fun outcome after ran => ?_⟩
  · cases eval_prolonged_cases expr given [] Trace.empty with
    | spent notices later used ran goesOn => exact .inl ⟨_, ran⟩
    | ended outcome left notices used ran again => exact .inr ⟨outcome, _, ran⟩
  · obtain ⟨used, left, split, rest, alone⟩ := ended_used expr given outcome after checked ran
    refine ⟨used, left, split, rest, fun others => ended_with_more expr used [] others _ _ outcome alone, ?_⟩
    rintro part ⟨missing, rfl⟩ fewer
    have present : missing ≠ [] := fun none => fewer (by rw [none, List.append_nil])
    exact fewer_exhausted expr part missing _ _ outcome present alone

theorem rerolled_loss_cut_short : (∀ term ∈ rerolledLoss.terms, term.dice.check = .ok ()) ∧
    (∃ after, rerolledLoss.eval ⟨.values [4, 5, 4, 2], Trace.empty⟩ = .error .exhausted after ∧
      fallen after.sink.events.toList = [4, 5, 4, 2] ∧
        ∀ more, after.sink.Begins
          (lastTable (rerolledLoss.eval ⟨.values ([4, 5, 4, 2] ++ more), Trace.empty⟩)).sink) ∧
    ∃ after, rerolledLoss.eval ⟨.values [4, 5, 4, 2, 4, 4, 3], Trace.empty⟩ =
        ended (.ok ⟨rerolledLoss, [13, 8], 8⟩) after ∧
      ∃ used left, [4, 5, 4, 2, 4, 4, 3] = used ++ left ∧ after.roller = .values left ∧
        (∀ others, rerolledLoss.eval ⟨.values (used ++ others), Trace.empty⟩ =
          ended (.ok ⟨rerolledLoss, [13, 8], 8⟩) ⟨.values others, after.sink⟩) ∧
        ∀ part, part <+: used → part ≠ used →
          ∃ stopped, rerolledLoss.eval ⟨.values part, Trace.empty⟩ = .error .exhausted stopped := by
  have checked : ∀ term ∈ rerolledLoss.terms, term.dice.check = .ok () :=
    List.forall_mem_cons.2 ⟨rfl, List.forall_mem_singleton.2 rfl⟩
  have cut : ∃ after, rerolledLoss.eval ⟨.values [4, 5, 4, 2], Trace.empty⟩ = .error .exhausted after := by
    refine ⟨?stopped, ?short⟩
    case short =>
      simp only [rerolledLoss, Expression.eval, Expression.evalUnchecked, Expression.terms, Expression.rollTerms,
        Dice.roll, Dice.rollUnchecked, sort_insertion]
      rfl
  have whole : ∃ after, rerolledLoss.eval ⟨.values [4, 5, 4, 2, 4, 4, 3], Trace.empty⟩ =
      ended (.ok ⟨rerolledLoss, [13, 8], 8⟩) after := by
    refine ⟨?after, ?ran⟩
    case ran =>
      simp only [rerolledLoss, Expression.eval, Expression.evalUnchecked, Expression.terms, Expression.rollTerms,
        Dice.roll, Dice.rollUnchecked, sort_insertion]
      rfl
  obtain ⟨stopped, short⟩ := cut
  obtain ⟨after, ran⟩ := whole
  exact ⟨checked,
    ⟨stopped, short, (given_values_suffice_or_run_out rerolledLoss [4, 5, 4, 2] checked).2.1 stopped short⟩,
    after, ran, (given_values_suffice_or_run_out rerolledLoss _ checked).2.2 _ after ran⟩

end DiceRoll
