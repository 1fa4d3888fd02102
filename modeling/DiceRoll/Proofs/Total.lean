import DiceRoll.Roll

set_option autoImplicit false

namespace DiceRoll

def exactSum : List UInt32 → Nat
  | [] => 0
  | w :: words => w.toNat + exactSum words

theorem exact_sum_append (a b : List UInt32) : exactSum (a ++ b) = exactSum a + exactSum b := by
  induction a with
  | nil => simp [exactSum]
  | cons w words ih => simp [exactSum, ih, Nat.add_assoc]

theorem exact_sum_permutation (a b : List UInt32) (same : a.Perm b) : exactSum a = exactSum b := by
  induction same with
  | nil => rfl
  | cons w _ ih => rw [exactSum, exactSum, ih]
  | swap v w words =>
      simp only [exactSum]
      omega
  | trans _ _ first second => exact first.trans second

theorem exact_sum_least (words : List UInt32) (least : Nat) (above : ∀ w ∈ words, least ≤ w.toNat) :
    words.length * least ≤ exactSum words := by
  induction words with
  | nil => exact Nat.le_of_eq (Nat.zero_mul least)
  | cons w words ih =>
      obtain ⟨first, others⟩ := List.forall_mem_cons.1 above
      have rest := ih others
      rw [List.length_cons, Nat.succ_mul, exactSum]
      omega

theorem exact_sum_most (words : List UInt32) (most : Nat) (below : ∀ w ∈ words, w.toNat ≤ most) :
    exactSum words ≤ words.length * most := by
  induction words with
  | nil => exact Nat.zero_le _
  | cons w words ih =>
      obtain ⟨first, others⟩ := List.forall_mem_cons.1 below
      have rest := ih others
      rw [List.length_cons, Nat.succ_mul, exactSum]
      omega

theorem exact_sum_replicate (count : Nat) (w : UInt32) : exactSum (List.replicate count w) = count * w.toNat := by
  have same : ∀ v ∈ List.replicate count w, v.toNat = w.toNat := fun v member =>
    congrArg UInt32.toNat (List.eq_of_mem_replicate member)
  have least := exact_sum_least _ w.toNat fun v member => Nat.le_of_eq (same v member).symm
  have most := exact_sum_most _ w.toNat fun v member => Nat.le_of_eq (same v member)
  rw [List.length_replicate] at least most
  exact Nat.le_antisymm most least

namespace Total

theorem to_int_zero : (0 : Total).toInt = 0 := by decide

theorem least_le_nonneg (n : Int) (nonneg : 0 ≤ n) : least ≤ n :=
  Int.le_trans (by decide) nonneg

theorem large_of_none (n : Int) (nonneg : 0 ≤ n) (unfit : ofInt? n = none) : greatest < n := by
  have low := least_le_nonneg n nonneg
  have outside := (of_int_none_iff n).1 unfit
  omega

theorem of_int_self (t : Total) : ofInt? t.toInt = some t :=
  (of_int_some_iff _ t).2 rfl

theorem of_int_large (n : Int) (large : greatest < n) : ofInt? n = none :=
  (of_int_none_iff n).2 (Or.inr large)

theorem of_int_fits (n : Int) (low : least ≤ n) (high : n ≤ greatest) : ∃ t, ofInt? n = some t ∧ t.toInt = n :=
  ⟨Int64.ofInt n, if_pos ⟨low, high⟩, to_int_of_int n low high⟩

theorem fold_exact (words : List UInt32) (sum : Total) (nonneg : 0 ≤ sum.toInt) :
    words.foldlM (fun sum w => add? sum (ofWord w)) sum = ofInt? (sum.toInt + exactSum words) := by
  induction words generalizing sum with
  | nil =>
      rw [List.foldlM_nil]
      exact ((of_int_some_iff _ sum).2 (by simp [exactSum])).symm
  | cons w words ih =>
      have split : sum.toInt + exactSum (w :: words) = sum.toInt + w.toNat + exactSum words := by
        rw [exactSum]
        omega
      rw [List.foldlM_cons, split]
      cases added : add? sum (ofWord w) with
      | none =>
          rw [add?, of_word_to_int] at added
          have large := large_of_none _ (by omega) added
          exact (of_int_large _ (by omega)).symm
      | some next =>
          rw [add?, of_word_to_int, of_int_some_iff] at added
          rw [← added]
          exact ih next (by omega)

theorem sum_exact (words : List UInt32) : sum? words = ofInt? (exactSum words) := by
  rw [sum?, fold_exact words 0 (Int.le_of_eq to_int_zero.symm), to_int_zero, Int.zero_add]

end Total

namespace Dice

theorem total_exact (dice : Dice) (kept explosions : List UInt32) :
    dice.total? kept explosions =
      if (exactSum kept + exactSum explosions : Int) ≤ Total.greatest then
        Total.ofInt? ((exactSum kept + exactSum explosions) * dice.multiply.toNat)
      else none := by
  unfold total?
  rw [Total.sum_exact, Total.sum_exact]
  cases keptSum : Total.ofInt? (exactSum kept) with
  | none =>
      have large := Total.large_of_none _ (by omega) keptSum
      rw [if_neg (by omega)]
      rfl
  | some a =>
      cases explosionSum : Total.ofInt? (exactSum explosions) with
      | none =>
          have large := Total.large_of_none _ (by omega) explosionSum
          rw [if_neg (by omega)]
          rfl
      | some b =>
          rw [← (Total.of_int_some_iff _ a).1 keptSum, ← (Total.of_int_some_iff _ b).1 explosionSum]
          change (a.add? b).bind (fun sum => sum.mul? (Total.ofWord dice.multiply)) = _
          cases added : a.add? b with
          | none =>
              have low := (Total.of_int_some_iff _ a).1 keptSum
              have lowToo := (Total.of_int_some_iff _ b).1 explosionSum
              have large := Total.large_of_none _ (by omega) added
              rw [if_neg (by omega)]
              rfl
          | some sum =>
              have exact_ := (Total.of_int_some_iff _ sum).1 added
              rw [← exact_, if_pos (Total.le_greatest sum), Option.bind_some, Total.mul?, Total.of_word_to_int]

theorem total_value (dice : Dice) (kept explosions : List UInt32) (total : Total)
    (fits : dice.total? kept explosions = some total) :
    total.toInt = (exactSum kept + exactSum explosions) * dice.multiply.toNat := by
  rw [total_exact] at fits
  split at fits
  · exact (Total.of_int_some_iff _ total).1 fits
  · cases fits

theorem total_nonneg (dice : Dice) (kept explosions : List UInt32) (total : Total)
    (fits : dice.total? kept explosions = some total) : 0 ≤ total.toInt := by
  rw [total_value dice kept explosions total fits]
  exact Int.mul_nonneg (by omega) (by omega)

end Dice

end DiceRoll
