import DiceRoll.Proofs.Trace.Change

set_option autoImplicit false

namespace DiceRoll.Trace

inductive Call where
  | tell (notice : Notice)
  | clear
deriving DecidableEq, Repr

def apply (trace : Trace) : Call → Trace
  | .tell notice => Sink.notify trace notice
  | .clear => trace.clear

def remember (told : List Notice) : Call → List Notice
  | .tell notice => told ++ [notice]
  | .clear => []

theorem call_remembered (told : List Notice) (call : Call) :
    (notifyAll empty told).apply call = notifyAll empty (remember told call) := by
  cases call with
  | tell notice => exact (notify_all_append empty told [notice]).symm
  | clear => rfl

theorem calls_remembered (told : List Notice) (calls : List Call) :
    calls.foldl apply (notifyAll empty told) = notifyAll empty (calls.foldl remember told) := by
  induction calls generalizing told with
  | nil => rfl
  | cons call calls ih => rw [List.foldl_cons, List.foldl_cons, call_remembered, ih]

-- The total of notices in exact numbers, with the sign of the latest start. There is none as soon as the weight of an
-- event or a sum does not fit into 64 bits.
def exactTotal? : Sign → Int → List Notice → Option Int
  | _, sum, [] => some sum
  | _, sum, .started sign :: notices => exactTotal? sign sum notices
  | sign, sum, .rolled event :: notices =>
      let next := sum + sign.exact event.change
      if event.weight ≤ Total.greatest ∧ Total.least ≤ next ∧ next ≤ Total.greatest then
        exactTotal? sign next notices
      else none

theorem tally_exact_total (sign : Sign) (sum : Total) (notices : List Notice) :
    (tally? sign sum notices).map Int64.toInt = exactTotal? sign sum.toInt notices := by
  induction notices generalizing sign sum with
  | nil => rfl
  | cons notice notices ih =>
      cases notice with
      | started next => exact ih next sum
      | rolled event =>
          rw [tally?, exactTotal?, add_event_exact]
          by_cases weighs : (event.weight : Int) ≤ Total.greatest
          · rw [if_pos weighs]
            cases added : Total.ofInt? (sum.toInt + sign.exact event.change) with
            | none =>
                have outside := (Total.of_int_none_iff _).1 added
                rw [if_neg (by omega)]
                rfl
            | some reached =>
                have value := (Total.of_int_some_iff _ reached).1 added
                rw [← value, if_pos ⟨weighs, reached.least_le, reached.le_greatest⟩]
                exact ih sign reached
          · rw [if_neg weighs, if_neg fun fits => weighs fits.1]
            rfl

theorem total_since_cleared (calls : List Call) :
    (calls.foldl apply empty).total?.map Int64.toInt = exactTotal? .plus 0 (calls.foldl remember []) := by
  have told : calls.foldl apply empty = notifyAll empty (calls.foldl remember []) := calls_remembered [] calls
  rw [told, total_told, tally_exact_total]
  rfl

end DiceRoll.Trace
