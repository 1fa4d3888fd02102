import DiceRoll.Proofs.Rolling.Course

set_option autoImplicit false

namespace DiceRoll

namespace RollError

def isEndless : RollError → Bool
  | endlessExplosions _ _ => true
  | endlessRerolls _ _ => true
  | overflow _ => false

end RollError

namespace Dice

theorem check_rerolls_error (dice : Dice) (error : RollError) (refused : dice.checkRerolls = .error error) :
    ∃ low, dice.rerollUpTo = some low ∧ error = .endlessRerolls dice.source low := by
  rw [checkRerolls] at refused
  cases threshold : dice.rerollUpTo with
  | none =>
      simp only [threshold] at refused
      cases refused
  | some low =>
      simp only [threshold] at refused
      split at refused <;> cases refused
      exact ⟨low, rfl, rfl⟩

theorem check_explosions_error (dice : Dice) (error : RollError) (refused : dice.checkExplosions = .error error) :
    ∃ high, dice.explodeFrom = some high ∧ error = .endlessExplosions dice.source high := by
  rw [checkExplosions] at refused
  cases threshold : dice.explodeFrom with
  | none =>
      simp only [threshold] at refused
      cases refused
  | some high =>
      simp only [threshold] at refused
      split at refused <;> cases refused
      exact ⟨high, rfl, rfl⟩

theorem check_endless (dice : Dice) (error : RollError) (refused : dice.check = .error error) :
    error.isEndless = true := by
  rw [check] at refused
  cases rerolls : dice.checkRerolls with
  | error first =>
      rw [rerolls] at refused
      cases refused
      obtain ⟨low, _, rfl⟩ := dice.check_rerolls_error error rerolls
      rfl
  | ok _ =>
      rw [rerolls] at refused
      obtain ⟨high, _, rfl⟩ := dice.check_explosions_error error refused
      rfl

theorem check_fixed_endless (dice : Dice) (value : UInt32) (error : RollError)
    (refused : dice.checkFixed value = .error error) : error.isEndless = true := by
  rw [checkFixed] at refused
  by_cases rerolls : dice.rerolls value = true
  · rw [if_pos rerolls] at refused
    cases refused
    rfl
  · rw [if_neg rerolls] at refused
    split at refused <;> cases refused
    rfl

end Dice

namespace Roller

theorem check_dice (roller : Roller) (dice : Dice) (checked : roller.check dice = .ok ()) : dice.check = .ok () := by
  rw [check] at checked
  cases first : dice.check with
  | error error =>
      rw [first] at checked
      cases checked
  | ok _ => rfl

theorem check_endless (roller : Roller) (dice : Dice) (error : RollError) (refused : roller.check dice = .error error) :
    error.isEndless = true := by
  rw [check] at refused
  cases checked : dice.check with
  | error first =>
      rw [checked] at refused
      cases refused
      exact dice.check_endless error checked
  | ok _ =>
      rw [checked] at refused
      cases fixed : roller.fixedValue dice.base dice.sides.value with
      | none =>
          simp only [fixed] at refused
          cases refused
      | some value =>
          simp only [fixed] at refused
          exact dice.check_fixed_endless value error refused

theorem draw_seeded (generator : Generator) (next : Roller) (base : Base) (sides value : UInt32)
    (drawn : (seeded generator).draw base sides = some (value, next)) : ∃ after, next = .seeded after := by
  by_cases pos : 0 < sides
  · simp only [draw, dif_pos pos, Option.some.injEq, Prod.mk.injEq] at drawn
    exact ⟨_, drawn.2.symm⟩
  · simp only [draw, dif_neg pos, Option.some.injEq, Prod.mk.injEq] at drawn
    exact ⟨_, drawn.2.symm⟩

theorem draw_fixed (roller next : Roller) (base : Base) (sides value : UInt32)
    (drawn : roller.draw base sides = some (value, next)) : next.fixedValue = roller.fixedValue := by
  cases roller with
  | values left =>
      cases left with
      | nil => cases drawn
      | cons first left =>
          cases drawn
          rfl
  | seeded generator =>
      obtain ⟨after, rfl⟩ := draw_seeded generator next base sides value drawn
      rfl
  | constant value =>
      cases drawn
      rfl
  | lowest =>
      cases drawn
      rfl
  | highest =>
      cases drawn
      rfl

theorem draws_check (base : Base) (sides : UInt32) (roller last : Roller) (values : List UInt32)
    (draws : Draws base sides roller values last) (dice : Dice) : last.check dice = roller.check dice := by
  induction draws with
  | nothing => rfl
  | value roller next last value values drawn rest ih =>
      rw [ih, check, check, draw_fixed roller next base sides value drawn]

end Roller

variable {σ : Type} [Sink σ]

theorem roll_checked (dice : Dice) (table : Table σ) (checked : table.roller.check dice = .ok ()) :
    dice.roll table = dice.rollUnchecked table := by
  have got : (get : Rolling σ RollError (Table σ)) table = .ok table table := rfl
  rw [Dice.roll, Rolling.bind_ok _ _ _ _ _ got, checked]

theorem roll_refused (dice : Dice) (table : Table σ) (error : RollError)
    (refused : table.roller.check dice = .error error) : dice.roll table = .error (.failed error) table := by
  have got : (get : Rolling σ RollError (Table σ)) table = .ok table table := rfl
  rw [Dice.roll, Rolling.bind_ok _ _ _ _ _ got, refused]
  rfl

theorem roll_total_course (dice : Dice) (table after : Table σ) (total : Total)
    (ran : dice.roll table = .ok total after) :
    ∃ course : Course, course.Follows dice ∧ Passes dice table course.values (course.events dice) after ∧
      dice.total? (course.kept dice) course.explosions = some total := by
  cases checked : table.roller.check dice with
  | error error =>
      rw [roll_refused dice table error checked] at ran
      cases ran
  | ok _ =>
      have run := roll_unchecked_run dice table
      rw [← roll_checked dice table checked, ran] at run
      cases run with
      | total course _ _ follows passes fits => exact ⟨course, follows, passes, fits⟩

theorem roll_failed_course (dice : Dice) (table after : Table σ) (error : RollError)
    (checked : table.roller.check dice = .ok ()) (ran : dice.roll table = .error (.failed error) after) :
    ∃ course : Course, course.Follows dice ∧ Passes dice table course.values (course.events dice) after ∧
      dice.total? (course.kept dice) course.explosions = none ∧ error = .overflow dice.source := by
  have run := roll_unchecked_run dice table
  rw [← roll_checked dice table checked, ran] at run
  cases run with
  | overflow course _ follows passes large => exact ⟨course, follows, passes, large, rfl⟩
  | initialStop dies rerolled _ _ stopped => exact stopped.unfinished.halts.elim
  | explosionStop middle course dies rerolled _ _ stopped => exact stopped.openChain.unfinished.halts.elim

end DiceRoll
