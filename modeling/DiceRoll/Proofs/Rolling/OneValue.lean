import DiceRoll.Proofs.Rolling.Fixed
import DiceRoll.Proofs.Rolling.Guard

set_option autoImplicit false

namespace DiceRoll

theorem draws_fixed (base : Base) (sides value : UInt32) (roller last : Roller) (values : List UInt32)
    (fixed : roller.fixedValue base sides = some value) (draws : Draws base sides roller values last) :
    last = roller ∧ ∀ shown ∈ values, shown = value := by
  induction draws with
  | nothing roller => exact ⟨rfl, List.forall_mem_nil _⟩
  | value roller next last first values drawn rest ih =>
      rw [roller.fixed_draw base sides value fixed] at drawn
      cases drawn
      obtain ⟨same, others⟩ := ih fixed
      exact ⟨same, List.forall_mem_cons.2 ⟨rfl, others⟩⟩

namespace Dice

def onceEvents (dice : Dice) (value : UInt32) : List Event :=
  List.replicate dice.count.value.toNat ⟨.initial, dice, value⟩ ++
    List.replicate (dice.count.value.toNat - dice.keptCount) ⟨.dropped, dice, value⟩

end Dice

namespace Course

theorem fixed_split (dice : Dice) (value : UInt32) :
    dice.keep.split (fixed dice value).sorted =
      (List.replicate dice.keptCount value, List.replicate (dice.count.value.toNat - dice.keptCount) value) := by
  have fallen : (fixed dice value).initial.map Die.accepted = List.replicate dice.count.value.toNat value :=
    List.map_replicate
  have sorted : (fixed dice value).sorted = List.replicate dice.count.value.toNat value :=
    List.perm_replicate.1 ((List.mergeSort_perm _ _).trans (List.Perm.of_eq fallen))
  rw [sorted]
  exact dice.keep.split_replicate _ value

theorem fixed_events (dice : Dice) (value : UInt32) : (fixed dice value).events dice = dice.onceEvents value := by
  have fallen : diceEvents dice .initial (fixed dice value).initial =
      List.replicate dice.count.value.toNat ⟨.initial, dice, value⟩ := by
    rw [diceEvents, fixed, List.flatMap_replicate]
    exact List.flatten_replicate_singleton
  have dropped : (fixed dice value).dropEvents dice =
      List.replicate (dice.count.value.toNat - dice.keptCount) ⟨.dropped, dice, value⟩ := by
    rw [dropEvents, Course.dropped, fixed_split, List.map_replicate]
  rw [events, fallen, dropped, Dice.onceEvents]
  exact List.append_nil _

theorem fixed_total (dice : Dice) (value : UInt32) :
    dice.total? ((fixed dice value).kept dice) (fixed dice value).explosions =
      if (dice.keptCount * value.toNat : Int) ≤ Total.greatest then
        Total.ofInt? (dice.keptCount * value.toNat * dice.multiply.toNat)
      else none := by
  have kept : exactSum ((fixed dice value).kept dice) = dice.keptCount * value.toNat := by
    rw [Course.kept, fixed_split, exact_sum_replicate]
  have explosions : exactSum (fixed dice value).explosions = 0 := rfl
  rw [dice.total_exact, kept, explosions]
  simp only [Int.natCast_mul, Int.natCast_zero, Int.add_zero]

end Course

namespace Dice

theorem extreme_refused (dice : Dice) (roller : Roller) (value : UInt32)
    (extreme : roller = .lowest ∨ roller = .highest)
    (fixed : roller.fixedValue dice.base dice.sides.value = some value) (refused : roller.check dice ≠ .ok ()) :
    dice.rerolls value = true ∨ dice.explodes value = true := by
  have face : dice.HasFace value := by
    have ordered := UInt32.le_iff_toNat_le.2 dice.faces_ordered
    rcases extreme with rfl | rfl <;> cases fixed
    · exact ⟨UInt32.le_refl _, ordered⟩
    · exact ⟨ordered, UInt32.le_refl _⟩
  by_contra settled
  obtain ⟨accepted, final⟩ := not_or.1 settled
  have passes := dice.check_ok_iff_settles.2 ⟨value, face, Bool.eq_false_iff.2 accepted, Bool.eq_false_iff.2 final⟩
  apply refused
  rw [Roller.check, passes, fixed]
  simp only [checkFixed, if_neg accepted, if_neg final]

end Dice

theorem fixed_halts {σ ε : Type} (dice : Dice) (limit : Nat) (values : List UInt32) (value : UInt32)
    (after : Table σ) (stop : Stop ε) (fixed : after.roller.fixedValue dice.base dice.sides.value = some value)
    (halts : Halts dice limit values after stop) : stop = .endless := by
  cases stop with
  | failed error => exact halts.elim
  | exhausted =>
      rw [Halts, after.roller.fixed_draw _ _ value fixed] at halts
      cases halts
  | endless => rfl

theorem fixed_result {σ : Type} (dice : Dice) (value : UInt32) (after : Table σ) :
    ((dice.keptCount * value.toNat : Int) ≤ Total.greatest ∧
        (dice.keptCount * value.toNat * dice.multiply.toNat : Int) ≤ Total.greatest →
      ∃ total, (Course.fixed dice value).result dice after = .ok total after ∧
        total.toInt = dice.keptCount * value.toNat * dice.multiply.toNat) ∧
      (Total.greatest < dice.keptCount * value.toNat ∨
          Total.greatest < dice.keptCount * value.toNat * dice.multiply.toNat →
        (Course.fixed dice value).result dice after = .error (.failed (.overflow dice.source)) after) := by
  rw [Course.result, Course.fixed_total]
  constructor
  · rintro ⟨sumFits, productFits⟩
    have nonneg : (0 : Int) ≤ dice.keptCount * value.toNat * dice.multiply.toNat := by
      exact_mod_cast Nat.zero_le _
    obtain ⟨total, fits, product⟩ := Total.of_int_fits _ (Total.least_le_nonneg _ nonneg) productFits
    rw [if_pos sumFits, fits]
    exact ⟨total, rfl, product⟩
  · intro large
    by_cases sumFits : (dice.keptCount * value.toNat : Int) ≤ Total.greatest
    · rw [if_pos sumFits, Total.of_int_large _ (large.resolve_left (Int.not_lt.2 sumFits))]
    · rw [if_neg sumFits]

variable {σ : Type} [Sink σ]

theorem unfinal_endless (dice : Dice) (roller : Roller) (value : UInt32) (sink : σ) (keeps : 0 < dice.keep.count)
    (fixed : roller.fixedValue dice.base dice.sides.value = some value)
    (unfinal : dice.rerolls value = true ∨ dice.explodes value = true) :
    ∃ after, dice.rollUnchecked ⟨roller, sink⟩ = .error .endless after := by
  have unfollowed (course : Course) (last : Roller) (follows : course.Follows dice)
      (draws : Draws dice.base dice.sides.value roller course.values last) : False := by
    obtain ⟨shown, member, accepted, final⟩ := dice.course_final course keeps follows
    rw [(draws_fixed _ _ value roller last _ fixed draws).2 shown member] at accepted final
    simp [accepted, final] at unfinal
  -- The roller goes on to show the value, so that it is the limit where the run stops.
  have still (values : List UInt32) (last : Roller)
      (draws : Draws dice.base dice.sides.value roller values last) :
      last.fixedValue dice.base dice.sides.value = some value := by
    rw [(draws_fixed _ _ value roller last values fixed draws).1, fixed]
  have run := roll_unchecked_run dice (⟨roller, sink⟩ : Table σ)
  generalize dice.rollUnchecked (⟨roller, sink⟩ : Table σ) = outcome at run ⊢
  cases run with
  | total course after total follows passes fits => exact (unfollowed course _ follows passes.drawn).elim
  | overflow course after follows passes large => exact (unfollowed course _ follows passes.drawn).elim
  | initialStop dies rerolled after stop stopped =>
      have same := still _ _ stopped.unfinished.passes.drawn
      exact ⟨after, by rw [fixed_halts dice _ _ value after stop same stopped.unfinished.halts]⟩
  | explosionStop middle course dies rerolled after stop stopped =>
      have unfinished := stopped.openChain.unfinished
      have same := still _ _ (passes_append _ _ _ _ _ _ _ _ stopped.passes unfinished.passes).drawn
      exact ⟨after, by rw [fixed_halts dice _ _ value after stop same unfinished.halts]⟩

theorem one_value_rolled (dice : Dice) (roller : Roller) (value : UInt32) (sink : σ)
    (fixed : roller.fixedValue dice.base dice.sides.value = some value) :
    (roller.check dice = .ok () →
      ((dice.keptCount * value.toNat : Int) ≤ Total.greatest ∧
          (dice.keptCount * value.toNat * dice.multiply.toNat : Int) ≤ Total.greatest →
        ∃ total, dice.roll ⟨roller, sink⟩ = .ok total ⟨roller, tellAll sink (dice.onceEvents value)⟩ ∧
          total.toInt = dice.keptCount * value.toNat * dice.multiply.toNat) ∧
      (Total.greatest < dice.keptCount * value.toNat ∨
          Total.greatest < dice.keptCount * value.toNat * dice.multiply.toNat →
        dice.roll ⟨roller, sink⟩ =
          .error (.failed (.overflow dice.source)) ⟨roller, tellAll sink (dice.onceEvents value)⟩)) ∧
      (roller = .lowest ∨ roller = .highest → 0 < dice.keep.count → roller.check dice ≠ .ok () →
        (∀ draws, ∃ after,
          dice.rollUnchecked ⟨.values (List.replicate draws value), sink⟩ = .error .exhausted after) ∧
        ∃ after, dice.rollUnchecked ⟨roller, sink⟩ = .error .endless after) := by
  refine ⟨fun checked => ?_, fun extreme keeps refused => ?_⟩
  · rw [fixed_rolled dice ⟨roller, sink⟩ value fixed (roller.fixed_draw _ _ value fixed) checked,
      Course.fixed_events]
    exact fixed_result dice value _
  · have unfinal := dice.extreme_refused roller value extreme fixed refused
    refine ⟨fun draws => unfinal_runs_out dice _ sink keeps fun shown member => ?_,
      unfinal_endless dice roller value sink keeps fixed unfinal⟩
    rw [List.eq_of_mem_replicate member]
    exact unfinal

theorem exploding_pair_one_value :
    (Roller.constant 5).check explodingPair = .ok () ∧
      (∃ total, explodingPair.roll ⟨.constant 5, Trace.empty⟩ =
          .ok total ⟨.constant 5, tellAll Trace.empty (explodingPair.onceEvents 5)⟩ ∧ total.toInt = 10) ∧
      Roller.highest.check explodingPair ≠ .ok () ∧
      (∀ draws, ∃ after, explodingPair.rollUnchecked (⟨.values (List.replicate draws 6), Trace.empty⟩ : Table Trace) =
        .error .exhausted after) := by
  have fives := one_value_rolled explodingPair (.constant 5) 5 Trace.empty rfl
  have sixes := one_value_rolled explodingPair .highest 6 Trace.empty rfl
  have refused : Roller.highest.check explodingPair ≠ .ok () := nofun
  exact ⟨rfl, (fives.1 rfl).1 (by decide), refused, (sixes.2 (.inr rfl) (by decide) refused).1⟩

end DiceRoll
