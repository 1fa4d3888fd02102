import DiceRoll.Proofs.Rolling.Given
import DiceRoll.Trace

set_option autoImplicit false

namespace DiceRoll

def fallen (events : List Event) : List UInt32 :=
  (events.filter fun event => !event.kind.isDropped).map Event.value

theorem fallen_append (events more : List Event) : fallen (events ++ more) = fallen events ++ fallen more := by
  simp only [fallen, List.filter_append, List.map_append]

theorem fallen_rerolls (dice : Dice) (phase : Phase) (values : List UInt32) :
    fallen (rerollEvents dice phase values) = values := by
  induction values with
  | nil => rfl
  | cons value values ih => cases phase <;> exact congrArg (List.cons value) ih

theorem fallen_dice (dice : Dice) (phase : Phase) (dies : List Die) :
    fallen (diceEvents dice phase dies) = diceValues dies := by
  induction dies with
  | nil => rfl
  | cons die dies ih =>
      have first : fallen (die.events dice phase) = die.values := by
        rw [Die.events, fallen_append, fallen_rerolls]
        cases phase <;> rfl
      change fallen (die.events dice phase ++ diceEvents dice phase dies) = die.values ++ diceValues dies
      rw [fallen_append, first, ih]

theorem fallen_dropped (dice : Dice) (values : List UInt32) :
    fallen (values.map fun value => ⟨.dropped, dice, value⟩) = [] := by
  induction values with
  | nil => rfl
  | cons value values ih => exact ih

theorem fallen_drops (dice : Dice) (course : Course) : fallen (course.dropEvents dice) = [] :=
  fallen_dropped dice (course.dropped dice)

theorem fallen_course (dice : Dice) (course : Course) : fallen (course.events dice) = course.values := by
  rw [Course.events, fallen_append, fallen_append, fallen_dice, fallen_dice, fallen_drops, List.append_nil]
  rfl

variable {σ : Type} [Sink σ]

theorem roll_told_in_order (dice : Dice) (given : List UInt32) (sink : σ) (checked : dice.check = .ok ())
    (lasts : ∀ after, dice.roll (⟨.values given, sink⟩ : Table σ) ≠ .error .exhausted after) :
    ∃ (course : Course) (left : List UInt32), course.Follows dice ∧ (course.kept dice).Pairwise (· ≤ ·) ∧
      given = fallen (course.events dice) ++ left ∧
      ((∃ total, dice.roll ⟨.values given, sink⟩ = .ok total ⟨.values left, tellAll sink (course.events dice)⟩) ∨
        dice.roll ⟨.values given, sink⟩ =
          .error (.failed (.overflow dice.source)) ⟨.values left, tellAll sink (course.events dice)⟩) := by
  have run := roll_given dice given sink checked
  generalize dice.roll (⟨.values given, sink⟩ : Table σ) = result at run lasts ⊢
  cases run with
  | total course left total follows used fits =>
      exact ⟨course, left, follows, dice.keep.kept_ascending _, by rw [fallen_course, used], .inl ⟨total, rfl⟩⟩
  | overflow course left follows used large =>
      exact ⟨course, left, follows, dice.keep.kept_ascending _, by rw [fallen_course, used], .inr rfl⟩
  | initialSpent => exact absurd rfl (lasts _)
  | explosionSpent => exact absurd rfl (lasts _)

def explodingPair : Dice :=
  ⟨⟨.one, ⟨6, by decide⟩, ⟨4, by decide⟩, none, ⟨.high, 2⟩, some 6, 1⟩, "4d6h2!"⟩

theorem exploding_pair_told : explodingPair.check = .ok () ∧
    ∃ (course : Course) (left : List UInt32), course.Follows explodingPair ∧
      (course.kept explodingPair).Pairwise (· ≤ ·) ∧
      [6, 1, 5, 2, 6, 6, 3, 4] = fallen (course.events explodingPair) ++ left ∧
      ((∃ total, explodingPair.roll ⟨.values [6, 1, 5, 2, 6, 6, 3, 4], Trace.empty⟩ =
          .ok total ⟨.values left, tellAll Trace.empty (course.events explodingPair)⟩) ∨
        explodingPair.roll ⟨.values [6, 1, 5, 2, 6, 6, 3, 4], Trace.empty⟩ =
          .error (.failed (.overflow explodingPair.source))
            ⟨.values left, tellAll Trace.empty (course.events explodingPair)⟩) := by
  refine ⟨rfl, roll_told_in_order explodingPair [6, 1, 5, 2, 6, 6, 3, 4] Trace.empty rfl ?_⟩
  intro after spent
  have total : ∃ final, explodingPair.roll (⟨.values [6, 1, 5, 2, 6, 6, 3, 4], Trace.empty⟩ : Table Trace) =
      .ok 26 final := ⟨_, by simp only [Dice.roll, Dice.rollUnchecked, sort_insertion]; rfl⟩
  obtain ⟨final, run⟩ := total
  rw [run] at spent
  cases spent

end DiceRoll
