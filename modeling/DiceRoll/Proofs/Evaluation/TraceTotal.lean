import DiceRoll.Proofs.Evaluation.Checked

set_option autoImplicit false

namespace DiceRoll

theorem net_change_terms (sign : Sign) (rolled : List RolledTerm) (counts : ∀ each ∈ rolled, each.Counts) :
    netChange sign (termNotices rolled) = signedSum rolled := by
  induction rolled generalizing sign with
  | nil => rfl
  | cons first rolled ih =>
      obtain ⟨here, others⟩ := List.forall_mem_cons.1 counts
      have split : signedSum (first :: rolled) = first.signedTotal + signedSum rolled := by simp [signedSum]
      have change : changeSum first.events = first.total.toInt :=
        course_change first.term.dice first.course first.total here.fits
      change netChange first.term.sign (first.events.map .rolled ++ termNotices rolled) = _
      rw [net_change_rolled, ih first.term.sign others, change, split]
      rfl

theorem evaluation_trace_total (expr : Expression) (roller : Roller) (evaluation : Evaluation) (after : Table Trace)
    (ran : expr.eval ⟨roller, Trace.empty⟩ = .ok evaluation after) :
    (∀ total, after.sink.total? = some total →
        total.toInt + expr.adjustment.toInt = evaluation.total.toInt) ∧
      ((weightSum after.sink.events.toList : Int) ≤ Total.greatest → ∃ total, after.sink.total? = some total) := by
  cases eval_ok_run expr ⟨roller, Trace.empty⟩ after evaluation ran with
  | finished rolled _ sum final all passed fits =>
      have zero := Total.to_int_zero
      have told := terms_pass_told _ after 0 sum rolled passed
      have counts := terms_pass_counts _ after 0 sum rolled passed
      have value := terms_pass_sum _ after 0 sum rolled passed
      rw [told, Trace.total_told, Trace.told_events]
      constructor
      · intro total tallied
        have exact_ := Trace.tally_exact .plus 0 total _ tallied
        rw [net_change_terms .plus rolled counts] at exact_
        change total.toInt + expr.adjustment.toInt = final.toInt
        omega
      · intro room
        exact Trace.tally_fits .plus 0 _ (by omega)

def doubledLoss : Expression :=
  { first := ⟨⟨.one, 6, 3, none, ⟨.high, 2⟩, none, 1⟩, "3d6h2"⟩
    more := [⟨.minus, ⟨⟨.one, 4, 1, none, ⟨.high, 1⟩, some 4, 2⟩, "1d4!x2"⟩⟩]
    adjustment := -1 }

theorem doubled_loss_total : ∃ after,
    doubledLoss.eval ⟨.values [5, 2, 6, 4, 4, 2], Trace.empty⟩ = .ok ⟨doubledLoss, [11, 20], -10⟩ after ∧
      (∀ total, after.sink.total? = some total → total.toInt + doubledLoss.adjustment.toInt = (-10 : Total).toInt) ∧
      ((weightSum after.sink.events.toList : Int) ≤ Total.greatest → ∃ total, after.sink.total? = some total) := by
  have ran : ∃ after,
      doubledLoss.eval ⟨.values [5, 2, 6, 4, 4, 2], Trace.empty⟩ = .ok ⟨doubledLoss, [11, 20], -10⟩ after := by
    refine ⟨?after, ?ran⟩
    case ran =>
      simp only [doubledLoss, Expression.eval, Expression.evalUnchecked, Expression.terms, Expression.rollTerms,
        Dice.roll, Dice.rollUnchecked, sort_insertion]
      rfl
  obtain ⟨after, ran⟩ := ran
  exact ⟨after, ran,
    evaluation_trace_total doubledLoss (.values [5, 2, 6, 4, 4, 2]) ⟨doubledLoss, [11, 20], -10⟩ after ran⟩

end DiceRoll
