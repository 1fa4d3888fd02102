import DiceRoll.Proofs.Keep.Dominance
import Mathlib.Data.List.Perm.Subperm
import Mathlib.Order.Bounds.Defs

set_option autoImplicit false

namespace DiceRoll

theorem least_sum (rolls chosen : List UInt32) (ascending : rolls.Pairwise (· ≤ ·)) (part : chosen.Subperm rolls) :
    exactSum (rolls.take chosen.length) ≤ exactSum chosen := by
  obtain ⟨sorted, same, part⟩ := part
  rw [← same.length_eq, ← exact_sum_permutation sorted chosen same]
  clear same
  induction part with
  | slnil => exact Nat.le_refl 0
  | @cons chosen rolls roll part ih =>
      have shifted := Keep.cut_later 0 1 chosen.length (roll :: rolls) ascending (Nat.zero_le 1)
        (by rw [Nat.add_comm]; exact Nat.succ_le_succ part.length_le)
      exact Nat.le_trans (exact_sum_below _ _ shifted) (ih ascending.of_cons)
  | @cons_cons chosen rolls roll part ih => exact Nat.add_le_add_left (ih ascending.of_cons) roll.toNat

theorem greatest_sum (rolls chosen : List UInt32) (ascending : rolls.Pairwise (· ≤ ·)) (part : chosen.Subperm rolls) :
    exactSum chosen ≤ exactSum (rolls.drop (rolls.length - chosen.length)) := by
  obtain ⟨sorted, same, part⟩ := part
  -- The rolls that are not chosen come to at least the lowest ones of their number.
  obtain ⟨others, whole⟩ := part.exists_perm_append
  have rest : others.Subperm rolls :=
    (List.sublist_append_right sorted others).subperm.trans whole.symm.subperm
  have least := least_sum rolls others ascending rest
  have lengths := whole.length_eq
  have sums := exact_sum_permutation rolls _ whole
  have cut := congrArg exactSum (List.take_append_drop others.length rolls)
  have count : rolls.length - chosen.length = others.length := by
    rw [List.length_append, same.length_eq] at lengths
    omega
  rw [exact_sum_append, exact_sum_permutation sorted chosen same] at sums
  rw [exact_sum_append] at cut
  rw [count]
  omega

def selectionSums (rolls : List UInt32) (count : Nat) : Set Nat :=
  { sum | ∃ chosen : List UInt32, chosen.Subperm rolls ∧ chosen.length = count ∧ exactSum chosen = sum }

namespace Keep

theorem kept_selection (keep : Keep) (rolls : List UInt32) :
    exactSum (keep.split rolls).1 ∈ selectionSums rolls (min keep.count.toNat rolls.length) :=
  ⟨_, (keep.split_sublist rolls).subperm, keep.split_length rolls, rfl⟩

theorem high_greatest (rolls : List UInt32) (count : UInt32) (ascending : rolls.Pairwise (· ≤ ·)) :
    IsGreatest (selectionSums rolls (min count.toNat rolls.length)) (exactSum ((⟨.high, count⟩ : Keep).split rolls).1) := by
  refine ⟨kept_selection ⟨.high, count⟩ rolls, ?_⟩
  rintro _ ⟨chosen, part, length, rfl⟩
  have most := greatest_sum rolls chosen ascending part
  rw [length] at most
  exact most

theorem low_least (rolls : List UInt32) (count : UInt32) (ascending : rolls.Pairwise (· ≤ ·)) :
    IsLeast (selectionSums rolls (min count.toNat rolls.length)) (exactSum ((⟨.low, count⟩ : Keep).split rolls).1) := by
  refine ⟨kept_selection ⟨.low, count⟩ rolls, ?_⟩
  rintro _ ⟨chosen, part, length, rfl⟩
  have least := least_sum rolls chosen ascending part
  rw [length] at least
  exact least

theorem split_later (rule later : KeepRule) (count : UInt32) (rolls : List UInt32) (ascending : rolls.Pairwise (· ≤ ·))
    (order : ∀ length count, windowStart rule length count ≤ windowStart later length count) :
    List.Forall₂ (· ≤ ·) ((⟨rule, count⟩ : Keep).split rolls).1 ((⟨later, count⟩ : Keep).split rolls).1 := by
  rw [split_cut, split_cut]
  exact cut_later _ _ _ rolls ascending (order _ _) (window_fits later _ _ (Nat.min_le_right _ _))

theorem cut_reversed {α : Type} (start count : Nat) (rolls : List α) (fits : start + count ≤ rolls.length) :
    (cut start count rolls.reverse).1 = (cut (rolls.length - (start + count)) count rolls).1.reverse := by
  have lengths : (rolls.take (rolls.length - start)).length - count = rolls.length - (start + count) := by
    rw [List.length_take]
    omega
  have window : rolls.length - start - (rolls.length - (start + count)) = count := by omega
  rw [cut, cut, List.drop_reverse, List.take_reverse, lengths, List.drop_take, window]

end Keep

-- The rule that keeps from the one end what the other keeps from the other end.
def KeepRule.mirror : KeepRule → KeepRule
  | high => low
  | low => high
  | middleHigh => middleLow
  | middleLow => middleHigh

namespace Keep

theorem window_start_mirror (rule : KeepRule) (length count : Nat) :
    windowStart rule.mirror length count = length - (windowStart rule length count + count) := by
  cases rule <;> simp only [KeepRule.mirror, windowStart] <;> omega

theorem split_mirror {α : Type} (rule : KeepRule) (count : UInt32) (rolls : List α) :
    ((⟨rule.mirror, count⟩ : Keep).split rolls.reverse).1 = ((⟨rule, count⟩ : Keep).split rolls).1.reverse := by
  have start := window_start_mirror rule rolls.length (min count.toNat rolls.length)
  have fits := window_fits rule.mirror rolls.length _ (Nat.min_le_right count.toNat rolls.length)
  have place : rolls.length - (windowStart rule.mirror rolls.length (min count.toNat rolls.length) +
      min count.toNat rolls.length) = windowStart rule rolls.length (min count.toNat rolls.length) := by
    have before := window_fits rule rolls.length _ (Nat.min_le_right count.toNat rolls.length)
    omega
  rw [split_cut, split_cut, List.length_reverse, cut_reversed _ _ rolls fits, place]

theorem rules_ordered (rolls : List UInt32) (count : UInt32) (ascending : rolls.Pairwise (· ≤ ·)) :
    IsGreatest (selectionSums rolls (min count.toNat rolls.length))
        (exactSum ((⟨.high, count⟩ : Keep).split rolls).1) ∧
      IsLeast (selectionSums rolls (min count.toNat rolls.length))
        (exactSum ((⟨.low, count⟩ : Keep).split rolls).1) ∧
      List.Forall₂ (· ≤ ·) ((⟨.low, count⟩ : Keep).split rolls).1 ((⟨.middleLow, count⟩ : Keep).split rolls).1 ∧
      List.Forall₂ (· ≤ ·) ((⟨.middleLow, count⟩ : Keep).split rolls).1
        ((⟨.middleHigh, count⟩ : Keep).split rolls).1 ∧
      List.Forall₂ (· ≤ ·) ((⟨.middleHigh, count⟩ : Keep).split rolls).1 ((⟨.high, count⟩ : Keep).split rolls).1 ∧
      ∀ (α : Type) (any : List α),
        ((⟨.middleLow, count⟩ : Keep).split any.reverse).1 = ((⟨.middleHigh, count⟩ : Keep).split any).1.reverse ∧
          ((⟨.low, count⟩ : Keep).split any.reverse).1 = ((⟨.high, count⟩ : Keep).split any).1.reverse := by
  refine ⟨high_greatest rolls count ascending, low_least rolls count ascending,
    split_later .low .middleLow count rolls ascending fun length count => Nat.zero_le _,
    split_later .middleLow .middleHigh count rolls ascending fun length count => ?_,
    split_later .middleHigh .high count rolls ascending fun length count => ?_,
    fun α any => ⟨split_mirror .middleHigh count any, split_mirror .high count any⟩⟩
  · simp only [windowStart]
    omega
  · simp only [windowStart]
    omega

def fiveRolls : List UInt32 :=
  [1, 2, 2, 5, 6]

theorem five_rolls_ordered : fiveRolls.Pairwise (· ≤ ·) ∧ IsGreatest (selectionSums fiveRolls 2) 11 ∧
    IsLeast (selectionSums fiveRolls 2) 3 ∧ List.Forall₂ (· ≤ ·) [1, 2] ((⟨.middleLow, 2⟩ : Keep).split fiveRolls).1 ∧
    ((⟨.middleLow, 2⟩ : Keep).split [6, 5, 2, 2, 1]).1 = ((⟨.middleHigh, 2⟩ : Keep).split fiveRolls).1.reverse := by
  have ascending : fiveRolls.Pairwise (· ≤ ·) := by decide
  have ordered := rules_ordered fiveRolls 2 ascending
  exact ⟨ascending, ordered.1, ordered.2.1, ordered.2.2.1, (ordered.2.2.2.2.2 UInt32 fiveRolls).1⟩

end Keep

end DiceRoll
