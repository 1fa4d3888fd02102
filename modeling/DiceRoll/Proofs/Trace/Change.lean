import DiceRoll.Proofs.Total
import DiceRoll.Proofs.Trace.Tally
import Mathlib.Algebra.GroupWithZero.Nat
import Mathlib.Algebra.Ring.Int.Defs

set_option autoImplicit false

namespace DiceRoll

namespace Sign

def exact : Sign → Int → Int
  | plus, n => n
  | minus, n => -n

theorem exact_add (sign : Sign) (a b : Int) : sign.exact (a + b) = sign.exact a + sign.exact b := by
  cases sign with
  | plus => rfl
  | minus => exact Int.neg_add

theorem exact_zero (sign : Sign) : sign.exact 0 = 0 := by
  cases sign <;> rfl

theorem exact_neg (sign : Sign) (n : Int) : sign.exact (-n) = -sign.exact n := by
  cases sign <;> rfl

theorem exact_nat_abs (sign : Sign) (n : Int) : (sign.exact n).natAbs = n.natAbs := by
  cases sign with
  | plus => rfl
  | minus => exact Int.natAbs_neg n

theorem exact_fits (sign : Sign) (n : Nat) (fits : (n : Int) ≤ Total.greatest) :
    Total.least ≤ sign.exact n ∧ sign.exact n ≤ Total.greatest := by
  unfold Total.least Total.greatest at *
  cases sign <;> simp only [exact] <;> omega

theorem signed_exact (sign : Sign) (total : Total) : sign.signed? total = Total.ofInt? (sign.exact total.toInt) := by
  cases sign with
  | plus => exact (Total.of_int_self total).symm
  | minus => rfl

end Sign

namespace Event

def weight (event : Event) : Nat :=
  event.value.toNat * event.dice.multiply.toNat

def change (event : Event) : Int :=
  match event.kind with
  | .initial => event.weight
  | .explosion => event.weight
  | .dropped => -event.weight
  | .initialReroll => 0
  | .explosionReroll => 0

theorem change_bound (event : Event) : event.change.natAbs ≤ event.weight := by
  unfold change
  cases event.kind <;> simp

end Event

def weightSum (events : List Event) : Nat :=
  (events.map Event.weight).sum

def changeSum (events : List Event) : Int :=
  (events.map Event.change).sum

theorem change_sum_append (events more : List Event) : changeSum (events ++ more) = changeSum events + changeSum more := by
  simp [changeSum]

def netChange : Sign → List Notice → Int
  | _, [] => 0
  | _, .started sign :: notices => netChange sign notices
  | sign, .rolled event :: notices => sign.exact event.change + netChange sign notices

theorem net_change_rolled (sign : Sign) (events : List Event) (notices : List Notice) :
    netChange sign (events.map .rolled ++ notices) = sign.exact (changeSum events) + netChange sign notices := by
  induction events with
  | nil => simp [changeSum, sign.exact_zero]
  | cons event events ih =>
      have split : changeSum (event :: events) = event.change + changeSum events := by simp [changeSum]
      rw [List.map_cons, List.cons_append, netChange, ih, split, sign.exact_add, Int.add_assoc]

namespace Trace

theorem weight_exact (event : Event) :
    (Total.ofWord event.value).mul? (Total.ofWord event.dice.multiply) = Total.ofInt? event.weight := by
  rw [Total.mul?, Total.of_word_to_int, Total.of_word_to_int, Event.weight, Int.natCast_mul]

-- An event needs its weight to fit, also where its weight does not count.
theorem add_event_exact (sign : Sign) (sum : Total) (event : Event) :
    addEvent? sign sum event =
      if (event.weight : Int) ≤ Total.greatest then Total.ofInt? (sum.toInt + sign.exact event.change) else none := by
  by_cases fits : (event.weight : Int) ≤ Total.greatest
  · obtain ⟨value, valued, valueExact⟩ :=
      Total.of_int_fits event.weight (Total.least_le_nonneg _ (Int.natCast_nonneg _)) fits
    obtain ⟨signed, applied, signedExact⟩ : ∃ signed, sign.signed? value = some signed ∧
        signed.toInt = sign.exact event.weight := by
      rw [sign.signed_exact, valueExact]
      exact Total.of_int_fits _ (sign.exact_fits event.weight fits).1 (sign.exact_fits event.weight fits).2
    rw [if_pos fits]
    simp only [addEvent?, weight_exact, valued, applied, Option.bind_eq_bind, Option.bind_some]
    unfold Event.change
    cases event.kind with
    | initial => rw [Total.add?, signedExact]
    | explosion => rw [Total.add?, signedExact]
    | dropped => rw [Total.sub?, signedExact, sign.exact_neg, Int.sub_eq_add_neg]
    | initialReroll => rw [sign.exact_zero, Int.add_zero, Total.of_int_self]
    | explosionReroll => rw [sign.exact_zero, Int.add_zero, Total.of_int_self]
  · rw [if_neg fits, addEvent?, weight_exact, Total.of_int_large _ (Int.not_le.1 fits)]
    rfl

theorem tally_exact (sign : Sign) (sum total : Total) (notices : List Notice)
    (tallied : tally? sign sum notices = some total) : total.toInt = sum.toInt + netChange sign notices := by
  induction notices generalizing sign sum with
  | nil =>
      cases tallied
      simp [netChange]
  | cons notice notices ih =>
      cases notice with
      | started next => exact ih next sum tallied
      | rolled event =>
          obtain ⟨middle, added, rest⟩ := Option.bind_eq_some_iff.1 tallied
          rw [add_event_exact] at added
          split at added
          · rw [Total.of_int_some_iff] at added
            rw [ih sign middle rest, added, netChange, Int.add_assoc]
          · cases added

theorem tally_fits (sign : Sign) (sum : Total) (notices : List Notice)
    (room : (sum.toInt.natAbs + weightSum (eventsTold notices) : Int) ≤ Total.greatest) :
    ∃ total, tally? sign sum notices = some total := by
  induction notices generalizing sign sum with
  | nil => exact ⟨sum, rfl⟩
  | cons notice notices ih =>
      cases notice with
      | started next => exact ih next sum room
      | rolled event =>
          have weights : weightSum (eventsTold (.rolled event :: notices)) =
              event.weight + weightSum (eventsTold notices) := by simp [weightSum, eventsTold]
          have changed : (sign.exact event.change).natAbs ≤ event.weight :=
            (sign.exact_nat_abs event.change).symm ▸ event.change_bound
          rw [weights] at room
          obtain ⟨middle, added, middleExact⟩ := Total.of_int_fits (sum.toInt + sign.exact event.change)
            (by unfold Total.least Total.greatest at *; omega) (by unfold Total.greatest at *; omega)
          obtain ⟨total, rest⟩ := ih sign middle (by omega)
          refine ⟨total, ?_⟩
          rw [tally?, add_event_exact, if_pos (by omega), added]
          exact rest

end Trace

end DiceRoll
