import DiceRoll.Proofs.Keep.Dominance
import DiceRoll.Proofs.Rolling.Rerun
import DiceRoll.Trace

set_option autoImplicit false

namespace DiceRoll

-- Every value is a die of its own, and none explodes.
def Course.once (values : List UInt32) : Course :=
  ⟨values.map (Die.mk []), []⟩

namespace Course

theorem once_accepted (values : List UInt32) : (once values).initial.map Die.accepted = values := by
  rw [once, List.map_map]
  exact List.map_id values

theorem once_values (values : List UInt32) : (once values).values = values := by
  rw [Course.values, once, List.flatten_nil]
  induction values with
  | nil => rfl
  | cons value values ih => exact congrArg (List.cons value) ih

theorem once_kept (dice : Dice) (values : List UInt32) :
    (once values).kept dice = (dice.keep.split (values.mergeSort (· ≤ ·))).1 := by
  rw [kept, sorted, once_accepted]

theorem once_follows (dice : Dice) (values : List UInt32) (unrolled : dice.rerollUpTo = none)
    (unexploding : dice.explodeFrom = none) (count : values.length = dice.count.value.toNat) :
    (once values).Follows dice where
  count := (List.length_map _).trans count
  obeys := List.forall_mem_map.2 fun value _ => ⟨nofun, by simp [Clauses.rerolls, unrolled]⟩
  chainCount := (List.countP_eq_zero.2 fun value _ => by simp [Clauses.explodes, unexploding]).symm
  chains := nofun

end Course

namespace Dice

theorem check_unclaused (dice : Dice) (unrolled : dice.rerollUpTo = none) (unexploding : dice.explodeFrom = none) :
    dice.check = .ok () := by
  simp [check, checkRerolls, checkExplosions, unrolled, unexploding]

theorem total_below (dice : Dice) (less more : List UInt32) (total : Total) (below : exactSum less ≤ exactSum more)
    (fits : dice.total? more [] = some total) : ∃ least, dice.total? less [] = some least ∧ least ≤ total := by
  have value := dice.total_value more [] total fits
  have most := Total.le_greatest total
  have product : (exactSum less * dice.multiply.toNat : Int) ≤ exactSum more * dice.multiply.toNat := by
    exact_mod_cast Nat.mul_le_mul_right dice.multiply.toNat below
  have none : (exactSum [] : Int) = 0 := rfl
  rw [total_exact] at fits
  split at fits
  · rename_i room
    rw [none, Int.add_zero] at value room
    have nonneg : (0 : Int) ≤ exactSum less * dice.multiply.toNat := by exact_mod_cast Nat.zero_le _
    obtain ⟨least, leastFits, leastValue⟩ := Total.of_int_fits (exactSum less * dice.multiply.toNat)
      (Total.least_le_nonneg _ nonneg) (by omega)
    refine ⟨least, ?_, Int64.le_iff_toInt_le.2 (by omega)⟩
    rw [total_exact, none, Int.add_zero, if_pos (by omega)]
    exact leastFits
  · cases fits

end Dice

variable {σ : Type} [Sink σ]

theorem once_rolled (dice : Dice) (values : List UInt32) (sink : σ) (total : Total) (after : Table σ)
    (unrolled : dice.rerollUpTo = none) (unexploding : dice.explodeFrom = none)
    (count : values.length = dice.count.value.toNat) :
    dice.roll ⟨.values values, sink⟩ = .ok total after ↔
      dice.total? (dice.keep.split (values.mergeSort (· ≤ ·))).1 [] = some total ∧
        after = ⟨.values [], tellAll sink ((Course.once values).events dice)⟩ := by
  have run := course_replayed dice (Course.once values) [] sink
    (Course.once_follows dice values unrolled unexploding count)
  have explosions : (Course.once values).explosions = [] := rfl
  rw [List.append_nil, Course.once_values] at run
  rw [roll_checked dice ⟨.values values, sink⟩ (check_given dice values (dice.check_unclaused unrolled unexploding)),
    run, Course.result, Course.once_kept, explosions]
  cases dice.total? (dice.keep.split (values.mergeSort (· ≤ ·))).1 [] with
  | none => simp
  | some fits => simp [eq_comm]

theorem better_dice_total (dice : Dice) (worse better : List UInt32) (sink : σ) (total : Total) (after : Table σ)
    (unrolled : dice.rerollUpTo = none) (unexploding : dice.explodeFrom = none)
    (count : better.length = dice.count.value.toNat) (below : List.Forall₂ (· ≤ ·) worse better)
    (ran : dice.roll ⟨.values better, sink⟩ = .ok total after) :
    ∃ least final, dice.roll ⟨.values worse, sink⟩ = .ok least final ∧ least ≤ total := by
  obtain ⟨fits, _⟩ := (once_rolled dice better sink total after unrolled unexploding count).1 ran
  have kept := exact_sum_below _ _ (dice.keep.split_below _ _ (sort_below worse better below))
  obtain ⟨least, leastFits, order⟩ := dice.total_below _ _ total kept fits
  have number := below.length_eq.trans count
  exact ⟨least, _, (once_rolled dice worse sink least _ unrolled unexploding number).2 ⟨leastFits, rfl⟩, order⟩

def middleTwo : Dice :=
  ⟨⟨.one, 6, 5, none, ⟨.middleLow, 2⟩, none, 3⟩, "5d6ml2x3"⟩

theorem middle_two_better : middleTwo.rerollUpTo = none ∧ middleTwo.explodeFrom = none ∧
    List.Forall₂ (· ≤ ·) [3, 2, 5, 1, 1] ([6, 2, 5, 5, 1] : List UInt32) ∧
    (∃ after, middleTwo.roll ⟨.values [6, 2, 5, 5, 1], Trace.empty⟩ = .ok 21 after) ∧
    ∃ least final, middleTwo.roll ⟨.values [3, 2, 5, 1, 1], Trace.empty⟩ = .ok least final ∧ least ≤ 21 := by
  have below : List.Forall₂ (· ≤ ·) [3, 2, 5, 1, 1] ([6, 2, 5, 5, 1] : List UInt32) := by decide
  have ran : ∃ after, middleTwo.roll (⟨.values [6, 2, 5, 5, 1], Trace.empty⟩ : Table Trace) = .ok 21 after :=
    ⟨_, by simp only [Dice.roll, Dice.rollUnchecked, sort_insertion]; rfl⟩
  obtain ⟨after, total⟩ := ran
  exact ⟨rfl, rfl, below, ⟨after, total⟩,
    better_dice_total middleTwo _ _ Trace.empty 21 after rfl rfl rfl below total⟩

end DiceRoll
