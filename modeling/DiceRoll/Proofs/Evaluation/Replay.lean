import DiceRoll.Proofs.Evaluation.Checked
import DiceRoll.Proofs.Rolling.EventOrder
import DiceRoll.Proofs.Rolling.Rerun

set_option autoImplicit false

namespace DiceRoll

def rolledValues (rolled : List RolledTerm) : List UInt32 :=
  rolled.flatMap fun each => each.course.values

theorem fallen_told (dice : Dice) (course : Course) (sign : Sign) :
    fallen (eventsTold (.started sign :: (course.events dice).map .rolled)) = course.values := by
  rw [eventsTold, events_told_rolled, fallen_course]

theorem fallen_terms (rolled : List RolledTerm) : fallen (eventsTold (termNotices rolled)) = rolledValues rolled := by
  induction rolled with
  | nil => rfl
  | cons first rolled ih =>
      have here : fallen (eventsTold first.notices) = first.course.values := fallen_told _ _ _
      change fallen (eventsTold (first.notices ++ termNotices rolled)) = first.course.values ++ rolledValues rolled
      rw [events_told_append, fallen_append, here, ih]

def ended {σ : Type} (outcome : Except EvalError Evaluation) (after : Table σ) :
    EStateM.Result (Stop EvalError) (Table σ) Evaluation :=
  match outcome with
  | .ok evaluation => .ok evaluation after
  | .error error => .error (.failed error) after

variable {σ : Type} [Sink σ]

theorem roll_replayed (dice : Dice) (course : Course) (left : List UInt32) (sink : σ) (checked : dice.check = .ok ())
    (follows : course.Follows dice) :
    dice.roll ⟨.values (course.values ++ left), sink⟩ =
      course.result dice ⟨.values left, tellAll sink (course.events dice)⟩ := by
  rw [roll_checked dice ⟨.values (course.values ++ left), sink⟩ (check_given dice _ checked)]
  exact course_replayed dice course left sink follows

theorem term_replayed (expr : Expression) (rolled : RolledTerm) (terms : List Term) (totals : List Total)
    (sum : Total) (left : List UInt32) (sink : σ) (checked : rolled.term.dice.check = .ok ()) (counts : rolled.Counts) :
    expr.rollTerms (rolled.term :: terms) totals sum ⟨.values (rolled.course.values ++ left), sink⟩ =
      match Total.ofInt? (sum.toInt + rolled.signedTotal) with
      | none => .error (.failed (.overflow expr)) ⟨.values left, notifyAll sink rolled.notices⟩
      | some next =>
          expr.rollTerms terms (rolled.total :: totals) next ⟨.values left, notifyAll sink rolled.notices⟩ := by
  have run := roll_replayed rolled.term.dice rolled.course left (Sink.notify sink (.started rolled.term.sign)) checked
    counts.follows
  rw [Course.result, counts.fits, tell_all_notices] at run
  exact roll_terms_added expr rolled.term terms totals sum rolled.total _ _ run
    (rolled.term.dice.total_nonneg _ _ _ counts.fits)

theorem terms_replayed (expr : Expression) (before after : Table σ) (sum last : Total) (rolled : List RolledTerm)
    (passes : TermsPass before sum rolled after last) (terms : List Term) (totals : List Total) (left : List UInt32)
    (sink : σ) (checked : ∀ each ∈ rolled, each.term.dice.check = .ok ()) :
    expr.rollTerms (rolled.map RolledTerm.term ++ terms) totals sum ⟨.values (rolledValues rolled ++ left), sink⟩ =
      expr.rollTerms terms ((rolled.map RolledTerm.total).reverse ++ totals) last
        ⟨.values left, notifyAll sink (termNotices rolled)⟩ := by
  induction passes generalizing totals sink with
  | nothing => rfl
  | term table middle after sum next last first rolled counts passes added rest ih =>
      obtain ⟨here, others⟩ := List.forall_mem_cons.1 checked
      have reached := (Total.of_int_some_iff _ next).2 added
      have later := ih (first.total :: totals) (notifyAll sink first.notices) others
      rw [← notify_all_append] at later
      have start : rolledValues (first :: rolled) ++ left = first.course.values ++ (rolledValues rolled ++ left) := by
        rw [rolledValues, List.flatMap_cons, List.append_assoc]
        rfl
      rw [start, List.map_cons, List.cons_append, term_replayed expr first _ totals sum _ sink here counts, reached]
      simp only [List.map_cons, List.reverse_cons, List.append_assoc, List.singleton_append]
      exact later

theorem given_again (expr : Expression) (given : List UInt32) (sink : σ)
    (checked : ∀ term ∈ expr.terms, term.dice.check = .ok ()) :
    expr.eval ⟨.values given, sink⟩ = expr.evalUnchecked ⟨.values given, sink⟩ :=
  eval_checked expr ⟨.values given, sink⟩
    ((Expression.check_terms_ok_iff _ _).2 fun term member => check_given term.dice given (checked term member))

theorem rolled_checked (terms later : List Term) (rolled : List RolledTerm)
    (split : terms = rolled.map RolledTerm.term ++ later) (checked : ∀ term ∈ terms, term.dice.check = .ok ()) :
    ∀ each ∈ rolled, each.term.dice.check = .ok () := by
  intro each member
  refine checked each.term ?_
  rw [split]
  exact List.mem_append_left _ (List.mem_map_of_mem member)

-- What was told by an evaluation to its end, with the same evaluation by the values that fell.
def Replayed (expr : Expression) (start : σ) (outcome : Except EvalError Evaluation) (after : Table σ) : Prop :=
  ∃ notices, after.sink = notifyAll start notices ∧ ∀ sink : σ,
    expr.eval ⟨.values (fallen (eventsTold notices)), sink⟩ = ended outcome ⟨.values [], notifyAll sink notices⟩

theorem passed_replayed (expr : Expression) (before after : Table σ) (sum : Total) (rolled : List RolledTerm)
    (checked : ∀ term ∈ expr.terms, term.dice.check = .ok ()) (all : rolled.map RolledTerm.term = expr.terms)
    (passed : TermsPass before 0 rolled after sum) :
    Replayed expr before.sink (match sum.add? expr.adjustment with
      | none => .error (.overflow expr)
      | some total => .ok ⟨expr, rolled.map RolledTerm.total, total⟩) after := by
  refine ⟨termNotices rolled, terms_pass_told before after 0 sum rolled passed, fun sink => ?_⟩
  have whole : expr.terms = rolled.map RolledTerm.term ++ [] := by rw [all, List.append_nil]
  have terms := terms_replayed expr before after 0 sum rolled passed [] [] [] sink
    (rolled_checked expr.terms [] rolled whole checked)
  rw [← whole, List.append_nil] at terms
  have end_ : expr.rollTerms [] ((rolled.map RolledTerm.total).reverse ++ []) sum
      ⟨.values [], notifyAll sink (termNotices rolled)⟩ = .ok ((rolled.map RolledTerm.total).reverse ++ [], sum)
        ⟨.values [], notifyAll sink (termNotices rolled)⟩ := rfl
  rw [fallen_terms, given_again expr _ sink checked, Expression.evalUnchecked,
    Rolling.bind_ok _ _ _ _ _ (terms.trans end_)]
  simp only [List.append_nil, List.reverse_reverse]
  cases sum.add? expr.adjustment with
  | none => rfl
  | some total => rfl

theorem sum_replayed (expr : Expression) (before middle after : Table σ) (reached : Total) (rolled : List RolledTerm)
    (last : RolledTerm) (later : List Term) (checked : ∀ term ∈ expr.terms, term.dice.check = .ok ())
    (split : expr.terms = rolled.map RolledTerm.term ++ last.term :: later)
    (overflows : SumOverflow rolled last before middle after 0 reached) :
    Replayed expr before.sink (.error (.overflow expr)) after := by
  refine ⟨termNotices rolled ++ last.notices, ?_, fun sink => ?_⟩
  · rw [overflows.passes.told, tell_all_notices, notify_all_append,
      ← terms_pass_told before middle 0 reached rolled overflows.passed]
    rfl
  · have values : fallen (eventsTold (termNotices rolled ++ last.notices)) =
        rolledValues rolled ++ (last.course.values ++ []) := by
      rw [events_told_append, fallen_append, fallen_terms, List.append_nil]
      exact congrArg _ (fallen_told _ _ _)
    have terms := terms_replayed expr before middle 0 reached rolled overflows.passed (last.term :: later) []
      (last.course.values ++ []) sink (rolled_checked expr.terms _ rolled split checked)
    have checkedLast := checked last.term (split ▸ List.mem_append_right _ List.mem_cons_self)
    rw [← split, term_replayed expr last _ _ reached [] _ checkedLast overflows.counts, overflows.large] at terms
    rw [values, given_again expr _ sink checked, Expression.evalUnchecked, Rolling.bind_error _ _ _ _ _ terms,
      notify_all_append]
    rfl

theorem stop_replayed (expr : Expression) (before middle after : Table σ) (reached : Total) (rolled : List RolledTerm)
    (term : Term) (later : List Term) (error : RollError) (checked : ∀ term ∈ expr.terms, term.dice.check = .ok ())
    (split : expr.terms = rolled.map RolledTerm.term ++ term :: later)
    (passed : TermsPass before 0 rolled middle reached) (checkedRoll : middle.roller.check term.dice = .ok ())
    (run : term.dice.roll (middle.starts term.sign) = .error (.failed error) after) :
    Replayed expr before.sink (.error (.dice term.dice error)) after := by
  obtain ⟨course, follows, passes, large, rfl⟩ :=
    roll_failed_course term.dice (middle.starts term.sign) after error checkedRoll run
  let told : List Notice := .started term.sign :: (course.events term.dice).map .rolled
  refine ⟨termNotices rolled ++ told, ?_, fun sink => ?_⟩
  · rw [passes.told, tell_all_notices, notify_all_append, ← terms_pass_told before middle 0 reached rolled passed]
    rfl
  · have values : fallen (eventsTold (termNotices rolled ++ told)) = rolledValues rolled ++ (course.values ++ []) := by
      rw [events_told_append, fallen_append, fallen_terms, fallen_told, List.append_nil]
    have terms := terms_replayed expr before middle 0 reached rolled passed (term :: later) []
      (course.values ++ []) sink (rolled_checked expr.terms _ rolled split checked)
    have checkedTerm := checked term (split ▸ List.mem_append_right _ List.mem_cons_self)
    have again := roll_replayed term.dice course []
      (Sink.notify (notifyAll sink (termNotices rolled)) (.started term.sign)) checkedTerm follows
    rw [Course.result, large] at again
    rw [← split, roll_terms_stopped expr term later _ reached _ _ _ again] at terms
    rw [values, given_again expr _ sink checked, Expression.evalUnchecked, Rolling.bind_error _ _ _ _ _ terms,
      tell_all_notices, notify_all_append]
    rfl

theorem end_replayed (expr : Expression) (before : Table σ) (outcome : Except EvalError Evaluation) (after : Table σ)
    (checked : ∀ term ∈ expr.terms, before.roller.check term.dice = .ok ())
    (ran : expr.eval before = ended outcome after) : Replayed expr before.sink outcome after := by
  have alone : ∀ term ∈ expr.terms, term.dice.check = .ok () := fun term member =>
    before.roller.check_dice term.dice (checked term member)
  have run := eval_unchecked_run expr before
  rw [← eval_checked expr before ((Expression.check_terms_ok_iff _ _).2 checked), ran] at run
  generalize same : ended outcome after = result at run
  cases run with
  | finished rolled last sum total all passed fits =>
      have added : sum.add? expr.adjustment = some total := (Total.of_int_some_iff _ total).2 fits
      have again := passed_replayed expr before last sum rolled alone all passed
      rw [added] at again
      cases outcome <;> cases same
      exact again
  | adjusted rolled last sum all passed large =>
      have added : sum.add? expr.adjustment = none := large
      have again := passed_replayed expr before last sum rolled alone all passed
      rw [added] at again
      cases outcome <;> cases same
      exact again
  | overflow rolled last later middle final reached split overflows =>
      cases outcome <;> cases same
      exact sum_replayed expr before middle after reached rolled last later alone split overflows
  | stopped rolled term later middle final reached stop split passed run =>
      have checkedRoll : middle.roller.check term.dice = .ok () :=
        (terms_pass_check before middle 0 reached rolled passed term.dice).trans
          (checked term (split ▸ List.mem_append_right _ List.mem_cons_self))
      cases outcome <;> cases stop <;> cases same
      exact stop_replayed expr before middle after reached rolled term later _ alone split passed checkedRoll run

theorem evaluation_replayed (expr : Expression) (roller : Roller) (outcome : Except EvalError Evaluation)
    (after : Table Trace) (checked : ∀ term ∈ expr.terms, roller.check term.dice = .ok ())
    (ran : expr.eval ⟨roller, Trace.empty⟩ = ended outcome after) :
    expr.eval ⟨.values (fallen after.sink.events.toList), Trace.empty⟩ = ended outcome ⟨.values [], after.sink⟩ := by
  obtain ⟨notices, told, again⟩ := end_replayed expr ⟨roller, Trace.empty⟩ outcome after checked ran
  have made := again Trace.empty
  rw [told, Trace.told_events]
  exact made

def rerolledLoss : Expression :=
  { first := ⟨⟨.one, 6, 3, some 2, ⟨.high, 2⟩, some 5, 1⟩, "3d6r2h2!5"⟩
    more := [⟨.minus, ⟨⟨.one, 4, 1, none, ⟨.high, 1⟩, none, 2⟩, "d4x2"⟩⟩]
    adjustment := 3 }

theorem rerolled_loss_replayed : ∃ after : Table Trace,
    (∀ term ∈ rerolledLoss.terms, (Roller.values [4, 5, 4, 2, 4, 4, 3]).check term.dice = .ok ()) ∧
      rerolledLoss.eval ⟨.values [4, 5, 4, 2, 4, 4, 3], Trace.empty⟩ = ended (.ok ⟨rerolledLoss, [13, 8], 8⟩) after ∧
      fallen after.sink.events.toList = [4, 5, 4, 2, 4, 4] ∧
      rerolledLoss.eval ⟨.values (fallen after.sink.events.toList), Trace.empty⟩ =
        ended (.ok ⟨rerolledLoss, [13, 8], 8⟩) ⟨.values [], after.sink⟩ := by
  have checked : ∀ term ∈ rerolledLoss.terms, (Roller.values [4, 5, 4, 2, 4, 4, 3]).check term.dice = .ok () :=
    List.forall_mem_cons.2 ⟨rfl, List.forall_mem_singleton.2 rfl⟩
  have ran : ∃ after : Table Trace,
      rerolledLoss.eval ⟨.values [4, 5, 4, 2, 4, 4, 3], Trace.empty⟩ =
          ended (.ok ⟨rerolledLoss, [13, 8], 8⟩) after ∧
        fallen after.sink.events.toList = [4, 5, 4, 2, 4, 4] := by
    refine ⟨?after, ?ran, ?fell⟩
    case ran =>
      simp only [rerolledLoss, Expression.eval, Expression.evalUnchecked, Expression.terms, Expression.rollTerms,
        Dice.roll, Dice.rollUnchecked, sort_insertion]
      rfl
    case fell => rfl
  obtain ⟨after, ran, fell⟩ := ran
  exact ⟨after, checked, ran, fell,
    evaluation_replayed rerolledLoss (.values [4, 5, 4, 2, 4, 4, 3]) _ after checked ran⟩

end DiceRoll
