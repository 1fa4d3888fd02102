import DiceRoll.Proofs.Evaluation.Prolonged

set_option autoImplicit false

namespace DiceRoll

namespace TermStart

def behind (start : TermStart) (count : Nat) : TermStart :=
  { start with index := count + start.index }

end TermStart

-- The index of a start counts the rolls before it, so that earlier rolls raise all indices by their number.
theorem starts_told_behind (count index : Nat) (notices : List Notice) :
    startsTold (count + index) notices = (startsTold index notices).map fun start => start.behind count := by
  induction notices generalizing index with
  | nil => rfl
  | cons notice notices ih =>
      cases notice with
      | started sign => exact congrArg (List.cons ⟨sign, count + index⟩) (ih index)
      | rolled event => exact ih (index + 1)

namespace Trace

def continuedBy (trace later : Trace) : Trace where
  events := trace.events ++ later.events
  starts := trace.starts ++ later.starts.map fun start => start.behind trace.events.size

theorem notified_continued (trace : Trace) (notices : List Notice) :
    notifyAll trace notices = trace.continuedBy (notifyAll empty notices) := by
  have starts := starts_told_behind trace.events.size 0 notices
  rw [Nat.add_zero] at starts
  rw [notified trace, notified empty, starts]
  simp [continuedBy, empty]

end Trace

theorem report_continued {ε α : Type} (report : Report ε α) (trace : Trace) :
    (lastTable (report.on trace)).sink = trace.continuedBy (lastTable (report.on Trace.empty)).sink := by
  obtain ⟨outcome, roller, notices⟩ := report
  cases outcome <;> exact Trace.notified_continued trace notices

namespace Expression

theorem eval_into_any_sink (expr : Expression) (roller : Roller) :
    (∃ report : Report EvalError Evaluation,
      ∀ (σ : Type) [Sink σ] (sink : σ), expr.eval ⟨roller, sink⟩ = report.on sink) ∧
    ∀ trace : Trace, (lastTable (expr.eval ⟨roller, trace⟩)).sink =
      trace.continuedBy (lastTable (expr.eval ⟨roller, Trace.empty⟩)).sink := by
  obtain ⟨report, _, runs⟩ := expr.eval_observed roller
  refine ⟨⟨report, runs⟩, fun trace => ?_⟩
  have here : expr.eval ⟨roller, trace⟩ = report.on trace := runs Trace trace
  have fresh : expr.eval ⟨roller, Trace.empty⟩ = report.on Trace.empty := runs Trace Trace.empty
  rw [here, fresh]
  exact report_continued report trace

end Expression

end DiceRoll
