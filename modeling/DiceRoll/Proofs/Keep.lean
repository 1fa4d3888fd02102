import DiceRoll.Keep
import Mathlib.Data.List.Sort

set_option autoImplicit false

namespace DiceRoll

theorem sort_ascending (rolls : List UInt32) : (rolls.mergeSort (· ≤ ·)).Pairwise (· ≤ ·) := by
  have sorted : (rolls.mergeSort (· ≤ ·)).Pairwise fun a b => decide (a ≤ b) = true := by
    apply List.pairwise_mergeSort
    · intro a b c ab bc
      exact decide_eq_true (UInt32.le_trans (of_decide_eq_true ab) (of_decide_eq_true bc))
    · intro a b
      simpa only [Bool.or_eq_true, decide_eq_true_eq] using UInt32.le_total a b
  exact sorted.imp of_decide_eq_true

theorem sort_permutation (a b : List UInt32) (same : a.Perm b) : a.mergeSort (· ≤ ·) = b.mergeSort (· ≤ ·) := by
  have sorted : (a.mergeSort (· ≤ ·)).Perm (b.mergeSort (· ≤ ·)) :=
    (List.mergeSort_perm a _).trans (same.trans (List.mergeSort_perm b _).symm)
  exact sorted.eq_of_pairwise (fun _ _ _ _ => UInt32.le_antisymm) (sort_ascending a) (sort_ascending b)

-- The insertion sort is structural, so that runs on fixed values compute with it.
theorem sort_insertion (rolls : List UInt32) : rolls.mergeSort (· ≤ ·) = rolls.insertionSort (· ≤ ·) := by
  have total : Std.Total (α := UInt32) (· ≤ ·) := ⟨UInt32.le_total⟩
  have trans : IsTrans UInt32 (· ≤ ·) := ⟨fun _ _ _ => UInt32.le_trans⟩
  have antisymm : Std.Antisymm (α := UInt32) (· ≤ ·) := ⟨fun _ _ => UInt32.le_antisymm⟩
  exact List.mergeSort_eq_insertionSort (· ≤ ·) rolls

namespace Keep

variable {α : Type}

def cut (start count : Nat) (rolls : List α) : List α × List α :=
  ((rolls.drop start).take count, rolls.take start ++ rolls.drop (start + count))

-- Where the kept rolls begin. A middle rule leaves out as many below them as above. If their number is odd, the higher
-- rule leaves out one more below, and the lower one leaves out one more above.
def windowStart (rule : KeepRule) (length count : Nat) : Nat :=
  match rule with
  | .high => length - count
  | .low => 0
  | .middleHigh => (length - count + 1) / 2
  | .middleLow => (length - count) / 2

theorem window_fits (rule : KeepRule) (length count : Nat) (enough : count ≤ length) :
    windowStart rule length count + count ≤ length := by
  cases rule <;> simp only [windowStart] <;> omega

theorem cut_none (start : Nat) (rolls : List α) : cut start 0 rolls = ([], rolls) := by
  rw [cut, List.take_zero, Nat.add_zero, List.take_append_drop]

theorem cut_whole (start count : Nat) (rolls : List α) :
    rolls.take start ++ (cut start count rolls).1 ++ rolls.drop (start + count) = rolls := by
  rw [cut, List.append_assoc, ← List.drop_drop, List.take_append_drop, List.take_append_drop]

theorem cut_sublist (start count : Nat) (rolls : List α) : (cut start count rolls).1.Sublist rolls :=
  (List.take_sublist count _).trans (List.drop_sublist start rolls)

theorem cut_permutation (start count : Nat) (rolls : List α) :
    ((cut start count rolls).1 ++ (cut start count rolls).2).Perm rolls := by
  have swapped : ((cut start count rolls).1 ++ rolls.take start ++ rolls.drop (start + count)).Perm
      (rolls.take start ++ (cut start count rolls).1 ++ rolls.drop (start + count)) :=
    List.perm_append_comm.append_right _
  rw [cut_whole, List.append_assoc] at swapped
  exact swapped

theorem cut_length (start count : Nat) (rolls : List α) (fits : start + count ≤ rolls.length) :
    (cut start count rolls).1.length = count := by
  simp only [cut, List.length_take, List.length_drop]
  omega

theorem take_high_cut (count : Nat) (rolls : List α) (enough : count ≤ rolls.length) :
    takeHigh count rolls = cut (rolls.length - count) count rolls := by
  have window : (rolls.drop (rolls.length - count)).take count = rolls.drop (rolls.length - count) :=
    List.take_of_length_le (by rw [List.length_drop]; omega)
  rw [takeHigh, cut, window, Nat.sub_add_cancel enough, List.drop_length, List.append_nil]

theorem take_low_cut (count : Nat) (rolls : List α) : takeLow count rolls = cut 0 count rolls := by
  rw [takeLow, cut, List.drop_zero, List.take_zero, List.nil_append, Nat.zero_add]

-- The top of what lies below an index and the bottom of what lies above it are one window.
theorem halves_cut (half share more : Nat) (rolls : List α) (below : share ≤ half) (inside : half ≤ rolls.length) :
    ((takeHigh share (rolls.take half)).1 ++ (takeLow more (rolls.drop half)).1,
      (takeHigh share (rolls.take half)).2 ++ (takeLow more (rolls.drop half)).2) =
        cut (half - share) (share + more) rolls := by
  have length : (rolls.take half).length = half := List.length_take_of_le inside
  have lower : (rolls.take half).drop (half - share) = (rolls.drop (half - share)).take share := by
    rw [List.drop_take, Nat.sub_sub_self below]
  have upper : (rolls.drop (half - share)).drop share = rolls.drop half := by
    rw [List.drop_drop, Nat.sub_add_cancel below]
  have left : (rolls.take half).take (half - share) = rolls.take (half - share) := by
    rw [List.take_take, Nat.min_eq_left (Nat.sub_le half share)]
  have right : half - share + (share + more) = half + more := by omega
  rw [takeHigh, takeLow, length, lower, left, cut, List.take_add, upper, List.drop_drop, right]

theorem from_lower_bounds (rule : KeepRule) (length count : Nat) (some : count ≠ 0) (enough : count ≤ length) :
    fromLower rule length count ≤ (length + 1) / 2 ∧ fromLower rule length count ≤ count := by
  cases rule <;> simp only [fromLower] <;> split <;> omega

theorem from_lower_start (rule : KeepRule) (length count : Nat) (middle : rule = .middleHigh ∨ rule = .middleLow)
    (enough : count ≤ length) :
    (length + 1) / 2 - fromLower rule length count = windowStart rule length count := by
  rcases middle with rfl | rfl <;> simp only [fromLower, windowStart] <;> split <;> omega

theorem take_middle_cut (rule : KeepRule) (count : Nat) (rolls : List α)
    (middle : rule = .middleHigh ∨ rule = .middleLow) (enough : count ≤ rolls.length) :
    takeMiddle rule count rolls = cut (windowStart rule rolls.length count) count rolls := by
  by_cases none : count = 0
  · rw [takeMiddle, if_pos none, none, cut_none]
  · obtain ⟨below, within⟩ := from_lower_bounds rule rolls.length count none enough
    have halves := halves_cut ((rolls.length + 1) / 2) (fromLower rule rolls.length count)
      (count - fromLower rule rolls.length count) rolls below (by omega)
    rw [from_lower_start rule rolls.length count middle enough, Nat.add_sub_cancel' within] at halves
    rw [takeMiddle, if_neg none]
    exact halves

theorem split_cut (keep : Keep) (rolls : List α) :
    keep.split rolls =
      cut (windowStart keep.rule rolls.length (min keep.count.toNat rolls.length))
        (min keep.count.toNat rolls.length) rolls := by
  have enough : min keep.count.toNat rolls.length ≤ rolls.length := Nat.min_le_right _ _
  obtain ⟨rule, count⟩ := keep
  cases rule with
  | high => exact take_high_cut _ rolls enough
  | low => exact take_low_cut _ rolls
  | middleHigh => exact take_middle_cut .middleHigh _ rolls (.inl rfl) enough
  | middleLow => exact take_middle_cut .middleLow _ rolls (.inr rfl) enough

theorem split_sublist (keep : Keep) (rolls : List α) : (keep.split rolls).1.Sublist rolls := by
  rw [split_cut]
  exact cut_sublist _ _ rolls

theorem split_permutation (keep : Keep) (rolls : List α) :
    ((keep.split rolls).1 ++ (keep.split rolls).2).Perm rolls := by
  rw [split_cut]
  exact cut_permutation _ _ rolls

theorem split_length (keep : Keep) (rolls : List α) :
    (keep.split rolls).1.length = min keep.count.toNat rolls.length := by
  rw [split_cut]
  exact cut_length _ _ rolls (window_fits keep.rule _ _ (Nat.min_le_right _ _))

theorem split_all (keep : Keep) (rolls : List α) (enough : rolls.length ≤ keep.count.toNat) :
    keep.split rolls = (rolls, []) := by
  have fits := window_fits keep.rule rolls.length rolls.length (Nat.le_refl _)
  have first : windowStart keep.rule rolls.length rolls.length = 0 := by omega
  rw [split_cut, Nat.min_eq_right enough, first, cut, List.drop_zero, List.take_length, List.take_zero, Nat.zero_add,
    List.drop_length, List.append_nil]

theorem cut_replicate (start count length : Nat) (value : α) (fits : start + count ≤ length) :
    cut start count (List.replicate length value) =
      (List.replicate count value, List.replicate (length - count) value) := by
  have kept : min count (length - start) = count := by omega
  have dropped : min start length + (length - (start + count)) = length - count := by omega
  rw [cut, List.drop_replicate, List.take_replicate, List.take_replicate, List.drop_replicate,
    List.replicate_append_replicate, kept, dropped]

theorem split_replicate (keep : Keep) (length : Nat) (value : α) :
    keep.split (List.replicate length value) =
      (List.replicate (min keep.count.toNat length) value,
        List.replicate (length - min keep.count.toNat length) value) := by
  rw [split_cut, List.length_replicate]
  exact cut_replicate _ _ length value (window_fits keep.rule length _ (Nat.min_le_right _ _))

theorem split_keeps_window (keep : Keep) (rolls : List α) :
    ∃ before window after, rolls = before ++ window ++ after ∧
      window.length = min keep.count.toNat rolls.length ∧
      before.length = windowStart keep.rule rolls.length window.length ∧ keep.split rolls = (window, before ++ after) := by
  have fits := window_fits keep.rule rolls.length _ (Nat.min_le_right keep.count.toNat rolls.length)
  have length := cut_length _ _ rolls fits
  refine ⟨_, _, _, (cut_whole _ _ rolls).symm, length, ?_, split_cut keep rolls⟩
  rw [length]
  exact List.length_take_of_le (Nat.le_of_add_right_le fits)

example : (⟨.middleHigh, 2⟩ : Keep).split [5, 1, 4, 2, 3] = ([4, 2], [5, 1, 3]) := by decide

theorem kept_ascending (keep : Keep) (rolls : List UInt32) :
    (keep.split (rolls.mergeSort (· ≤ ·))).1.Pairwise (· ≤ ·) :=
  (sort_ascending rolls).sublist (split_sublist keep _)

end Keep

end DiceRoll
