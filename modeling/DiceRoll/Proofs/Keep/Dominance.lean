import DiceRoll.Proofs.Keep
import DiceRoll.Proofs.Total
import Mathlib.Data.List.Forall2

set_option autoImplicit false

namespace DiceRoll

theorem exact_sum_below (a b : List UInt32) (below : List.Forall₂ (· ≤ ·) a b) : exactSum a ≤ exactSum b := by
  induction below with
  | nil => exact Nat.le_refl 0
  | cons first rest ih => exact Nat.add_le_add (UInt32.le_iff_toNat_le.1 first) ih

-- How many rolls are at most some value only depends on which rolls there are, and there are the fewer the higher they
-- are. For ascending rolls the first one is read off it.
theorem count_below (a b : List UInt32) (below : List.Forall₂ (· ≤ ·) a b) (most : UInt32) :
    b.countP (· ≤ most) ≤ a.countP (· ≤ most) := by
  induction below with
  | nil => exact Nat.le_refl 0
  | @cons v w a b first rest ih =>
      rw [List.countP_cons, List.countP_cons]
      by_cases high : w ≤ most
      · rw [if_pos (decide_eq_true high), if_pos (decide_eq_true (UInt32.le_trans first high))]
        exact Nat.succ_le_succ ih
      · rw [if_neg (by simpa using high)]
        exact Nat.le_add_right_of_le ih

theorem ascending_below (a b : List UInt32) (ascendingA : a.Pairwise (· ≤ ·)) (ascendingB : b.Pairwise (· ≤ ·))
    (length : a.length = b.length) (counts : ∀ most, b.countP (· ≤ most) ≤ a.countP (· ≤ most)) :
    List.Forall₂ (· ≤ ·) a b := by
  induction a generalizing b with
  | nil =>
      cases List.length_eq_zero_iff.1 length.symm
      exact .nil
  | cons v a ih =>
      cases b with
      | nil => cases length
      | cons w b =>
          obtain ⟨leastA, restA⟩ := List.pairwise_cons.1 ascendingA
          obtain ⟨leastB, restB⟩ := List.pairwise_cons.1 ascendingB
          have first : v ≤ w := by
            have some_low : 0 < (v :: a).countP (· ≤ w) :=
              Nat.lt_of_lt_of_le (List.countP_pos_iff.2 ⟨w, List.mem_cons_self, by simp⟩) (counts w)
            obtain ⟨u, member, low⟩ := List.countP_pos_iff.1 some_low
            rcases List.mem_cons.1 member with rfl | later
            · exact of_decide_eq_true low
            · exact UInt32.le_trans (leastA u later) (of_decide_eq_true low)
          refine .cons first (ih b restA restB (Nat.succ.inj length) fun most => ?_)
          by_cases high : w ≤ most
          · have whole := counts most
            rw [List.countP_cons_of_pos (by simpa using high),
              List.countP_cons_of_pos (by simpa using UInt32.le_trans first high)] at whole
            exact Nat.le_of_succ_le_succ whole
          · have none : b.countP (· ≤ most) = 0 :=
              List.countP_eq_zero.2 fun u member low =>
                high (UInt32.le_trans (leastB u member) (of_decide_eq_true low))
            rw [none]
            exact Nat.zero_le _

theorem sort_below (a b : List UInt32) (below : List.Forall₂ (· ≤ ·) a b) :
    List.Forall₂ (· ≤ ·) (a.mergeSort (· ≤ ·)) (b.mergeSort (· ≤ ·)) := by
  refine ascending_below _ _ (sort_ascending a) (sort_ascending b) ?_ fun most => ?_
  · rw [List.length_mergeSort, List.length_mergeSort, below.length_eq]
  · rw [(List.mergeSort_perm a _).countP_eq, (List.mergeSort_perm b _).countP_eq]
    exact count_below a b below most

theorem ascending_get (rolls : List UInt32) (ascending : rolls.Pairwise (· ≤ ·)) (i j : Nat) (order : i ≤ j)
    (inside : j < rolls.length) : rolls[i] ≤ rolls[j] := by
  rcases Nat.eq_or_lt_of_le order with rfl | before
  · exact UInt32.le_refl _
  · exact List.pairwise_iff_getElem.1 ascending i j _ inside before

namespace Keep

theorem cut_get {α : Type} (start count : Nat) (rolls : List α) (i : Nat) (inside : i < (cut start count rolls).1.length)
    (place : start + i < rolls.length) : (cut start count rolls).1[i] = rolls[start + i] := by
  simp only [cut, List.getElem_take, List.getElem_drop]

theorem cut_later (start later count : Nat) (rolls : List UInt32) (ascending : rolls.Pairwise (· ≤ ·))
    (order : start ≤ later) (fits : later + count ≤ rolls.length) :
    List.Forall₂ (· ≤ ·) (cut start count rolls).1 (cut later count rolls).1 := by
  have first := cut_length start count rolls (by omega)
  have second := cut_length later count rolls fits
  refine List.forall₂_iff_get.2 ⟨first.trans second.symm, fun i inside insideLater => ?_⟩
  rw [List.get_eq_getElem, List.get_eq_getElem, cut_get start count rolls i inside (by omega),
    cut_get later count rolls i insideLater (by omega)]
  exact ascending_get rolls ascending _ _ (by omega) _

theorem split_below (keep : Keep) (a b : List UInt32) (below : List.Forall₂ (· ≤ ·) a b) :
    List.Forall₂ (· ≤ ·) (keep.split a).1 (keep.split b).1 := by
  rw [split_cut, split_cut, below.length_eq]
  exact List.forall₂_take _ (List.forall₂_drop _ below)

end Keep

end DiceRoll
