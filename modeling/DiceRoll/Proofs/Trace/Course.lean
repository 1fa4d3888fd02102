import DiceRoll.Proofs.Rolling.Course
import DiceRoll.Proofs.Trace.Change

set_option autoImplicit false

namespace DiceRoll

theorem accepted_change (dice : Dice) (phase : Phase) (value : UInt32) :
    Event.change ⟨phase.accepted, dice, value⟩ = (value.toNat * dice.multiply.toNat : Nat) := by
  cases phase <;> rfl

theorem rerolled_change (dice : Dice) (phase : Phase) (value : UInt32) :
    Event.change ⟨phase.rerolled, dice, value⟩ = 0 := by
  cases phase <;> rfl

theorem change_sum_rerolls (dice : Dice) (phase : Phase) (values : List UInt32) :
    changeSum (rerollEvents dice phase values) = 0 := by
  induction values with
  | nil => rfl
  | cons value values ih =>
      change ((_ : Int) :: _).sum = 0
      rw [List.sum_cons, rerolled_change, Int.zero_add]
      exact ih

theorem change_sum_dice (dice : Dice) (phase : Phase) (dies : List Die) :
    changeSum (diceEvents dice phase dies) = exactSum (dies.map Die.accepted) * dice.multiply.toNat := by
  induction dies with
  | nil => simp [changeSum, diceEvents, exactSum]
  | cons die dies ih =>
      change changeSum (die.events dice phase ++ diceEvents dice phase dies) = _
      rw [change_sum_append, Die.events, change_sum_append, change_sum_rerolls, ih, List.map_cons, exactSum]
      have last : changeSum [⟨phase.accepted, dice, die.accepted⟩] = die.accepted.toNat * dice.multiply.toNat := by
        simp [changeSum, accepted_change]
      rw [last, Int.zero_add, Int.natCast_add, Int.add_mul]

theorem change_sum_dropped (dice : Dice) (values : List UInt32) :
    changeSum (values.map fun value => ⟨.dropped, dice, value⟩) = -(exactSum values * dice.multiply.toNat) := by
  induction values with
  | nil => simp [changeSum, exactSum]
  | cons value values ih =>
      have first : Event.change ⟨.dropped, dice, value⟩ = -(value.toNat * dice.multiply.toNat) :=
        congrArg Neg.neg (Int.natCast_mul _ _)
      change ((_ : Int) :: _).sum = _
      rw [List.sum_cons, first, exactSum, Int.natCast_add, Int.add_mul, Int.neg_add]
      exact congrArg (_ + ·) ih

namespace Course

theorem kept_and_dropped (dice : Dice) (course : Course) :
    exactSum (course.initial.map Die.accepted) = exactSum (course.kept dice) + exactSum (course.dropped dice) := by
  rw [← exact_sum_append]
  exact exact_sum_permutation _ _ (course.split_fallen dice).symm

theorem change_sum_events (dice : Dice) (course : Course) :
    changeSum (course.events dice) =
      (exactSum (course.kept dice) + exactSum course.explosions) * dice.multiply.toNat := by
  rw [events, change_sum_append, change_sum_append, change_sum_dice, dropEvents, change_sum_dropped, change_sum_dice,
    kept_and_dropped dice course, explosions]
  grind

end Course

theorem course_change (dice : Dice) (course : Course) (total : Total)
    (fits : dice.total? (course.kept dice) course.explosions = some total) :
    changeSum (course.events dice) = total.toInt := by
  rw [dice.total_value _ _ total fits, Course.change_sum_events]

end DiceRoll
