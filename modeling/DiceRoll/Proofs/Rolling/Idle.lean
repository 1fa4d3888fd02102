import DiceRoll.Proofs.Rolling.Retold

set_option autoImplicit false

namespace DiceRoll

namespace Dice

-- The same term without the clauses that do nothing to its faces, whatever its text.
def withoutIdle (dice : Dice) (source : String) : Dice :=
  { dice with
    rerollUpTo := dice.rerollUpTo.filter (dice.lowestFace ≤ ·)
    keep := if dice.count.value ≤ dice.keep.count then ⟨.high, dice.count.value⟩ else dice.keep
    explodeFrom := dice.explodeFrom.filter (· ≤ dice.highestFace)
    source := source }

variable (dice : Dice) (source : String)

theorem idle_reroll_some (low : UInt32) (threshold : dice.rerollUpTo = some low) :
    (dice.withoutIdle source).rerollUpTo = if dice.lowestFace ≤ low then some low else none := by
  simp [withoutIdle, threshold, Option.filter_some]

theorem idle_reroll_none (threshold : dice.rerollUpTo = none) : (dice.withoutIdle source).rerollUpTo = none := by
  rw [withoutIdle, threshold]
  rfl

theorem idle_explode_some (high : UInt32) (threshold : dice.explodeFrom = some high) :
    (dice.withoutIdle source).explodeFrom = if high ≤ dice.highestFace then some high else none := by
  simp [withoutIdle, threshold, Option.filter_some]

theorem idle_explode_none (threshold : dice.explodeFrom = none) : (dice.withoutIdle source).explodeFrom = none := by
  rw [withoutIdle, threshold]
  rfl

theorem idle_rerolls (value : UInt32) (face : dice.HasFace value) :
    (dice.withoutIdle source).rerolls value = dice.rerolls value := by
  rw [Clauses.rerolls, Clauses.rerolls]
  cases threshold : dice.rerollUpTo with
  | none => rw [idle_reroll_none dice source threshold]
  | some low =>
      rw [idle_reroll_some dice source low threshold]
      by_cases acts : dice.lowestFace ≤ low
      · rw [if_pos acts]
      · rw [if_neg acts]
        exact (decide_eq_false fun below => acts (UInt32.le_trans face.1 below)).symm

theorem idle_explodes (value : UInt32) (face : dice.HasFace value) :
    (dice.withoutIdle source).explodes value = dice.explodes value := by
  rw [Clauses.explodes, Clauses.explodes]
  cases threshold : dice.explodeFrom with
  | none => rw [idle_explode_none dice source threshold]
  | some high =>
      rw [idle_explode_some dice source high threshold]
      by_cases acts : high ≤ dice.highestFace
      · rw [if_pos acts]
      · rw [if_neg acts]
        exact (decide_eq_false fun above => acts (UInt32.le_trans above face.2)).symm

theorem idle_reroll_acts (value : UInt32) (face : dice.HasFace value) (rerolls : dice.rerolls value = true) :
    (dice.withoutIdle source).rerollUpTo = dice.rerollUpTo := by
  rw [Clauses.rerolls] at rerolls
  cases threshold : dice.rerollUpTo with
  | none =>
      rw [threshold] at rerolls
      cases rerolls
  | some low =>
      rw [threshold] at rerolls
      rw [idle_reroll_some dice source low threshold, if_pos (UInt32.le_trans face.1 (of_decide_eq_true rerolls))]

theorem idle_explode_acts (value : UInt32) (face : dice.HasFace value) (explodes : dice.explodes value = true) :
    (dice.withoutIdle source).explodeFrom = dice.explodeFrom := by
  rw [Clauses.explodes] at explodes
  cases threshold : dice.explodeFrom with
  | none =>
      rw [threshold] at explodes
      cases explodes
  | some high =>
      rw [threshold] at explodes
      rw [idle_explode_some dice source high threshold, if_pos (UInt32.le_trans (of_decide_eq_true explodes) face.2)]

theorem idle_split (rolls : List UInt32) (length : rolls.length = dice.count.value.toNat) :
    (dice.withoutIdle source).keep.split rolls = dice.keep.split rolls := by
  rw [withoutIdle]
  by_cases all : dice.count.value ≤ dice.keep.count
  · have enough : rolls.length ≤ dice.keep.count.toNat := by
      rw [length]
      exact UInt32.le_iff_toNat_le.1 all
    rw [if_pos all, Keep.split_all dice.keep rolls enough, Keep.split_all _ rolls (Nat.le_of_eq length)]
  · rw [if_neg all]

theorem idle_alike : Alike dice (dice.withoutIdle source) where
  base := rfl
  sides := rfl
  count := rfl
  multiply := rfl
  rerolls := dice.idle_rerolls source
  explodes := dice.idle_explodes source
  split := dice.idle_split source

theorem idle_lowest : (dice.withoutIdle source).lowestAccepted = dice.lowestAccepted := by
  rw [Clauses.lowestAccepted, Clauses.lowestAccepted]
  cases threshold : dice.rerollUpTo with
  | none =>
      rw [idle_reroll_none dice source threshold]
      rfl
  | some low =>
      rw [idle_reroll_some dice source low threshold]
      by_cases acts : dice.lowestFace ≤ low
      · rw [if_pos acts]
        rfl
      · rw [if_neg acts]
        have below := UInt32.lt_iff_toNat_lt.1 (UInt32.not_le.1 acts)
        exact (Nat.max_eq_left below).symm

theorem idle_check_rerolls :
    (dice.withoutIdle source).checkRerolls = dice.checkRerolls.mapError (RollError.withSource source) := by
  rw [checkRerolls, checkRerolls]
  cases threshold : dice.rerollUpTo with
  | none =>
      rw [idle_reroll_none dice source threshold]
      rfl
  | some low =>
      rw [idle_reroll_some dice source low threshold]
      have same : (dice.withoutIdle source).highestFace = dice.highestFace := rfl
      by_cases acts : dice.lowestFace ≤ low
      · rw [if_pos acts]
        by_cases all : dice.highestFace ≤ low
        · simp only [same, if_pos all]
          rfl
        · simp only [same, if_neg all]
          rfl
      · have some_ : ¬dice.highestFace ≤ low := fun all =>
          acts (UInt32.le_trans (UInt32.le_iff_toNat_le.2 dice.faces_ordered) all)
        rw [if_neg acts]
        simp only [if_neg some_]
        rfl

theorem idle_check_explosions (rerolled : dice.checkRerolls = .ok ()) :
    (dice.withoutIdle source).checkExplosions = dice.checkExplosions.mapError (RollError.withSource source) := by
  have reaches := dice.check_rerolls_ok_iff.1 rerolled
  rw [checkExplosions, checkExplosions]
  cases threshold : dice.explodeFrom with
  | none =>
      rw [idle_explode_none dice source threshold]
      rfl
  | some high =>
      rw [idle_explode_some dice source high threshold]
      by_cases acts : high ≤ dice.highestFace
      · rw [if_pos acts]
        by_cases all : high.toNat ≤ dice.lowestAccepted
        · simp only [dice.idle_lowest source, if_pos all]
          rfl
        · simp only [dice.idle_lowest source, if_neg all]
          rfl
      · have above := UInt32.lt_iff_toNat_lt.1 (UInt32.not_le.1 acts)
        have some_ : ¬high.toNat ≤ dice.lowestAccepted := by omega
        rw [if_neg acts]
        simp only [if_neg some_]
        rfl

theorem idle_check : (dice.withoutIdle source).check = dice.check.mapError (RollError.withSource source) := by
  have rerolls := dice.idle_check_rerolls source
  rw [check, check]
  cases rerolled : dice.checkRerolls with
  | error error =>
      rw [rerolls, rerolled]
      rfl
  | ok _ =>
      rw [rerolls, rerolled]
      exact dice.idle_check_explosions source rerolled

theorem idle_check_fixed (value : UInt32) (face : dice.HasFace value) :
    (dice.withoutIdle source).checkFixed value = (dice.checkFixed value).mapError (RollError.withSource source) := by
  rw [checkFixed, checkFixed, dice.idle_rerolls source value face, dice.idle_explodes source value face]
  cases rerolls : dice.rerolls value with
  | true =>
      rw [if_pos rfl, if_pos rfl, dice.idle_reroll_acts source value face rerolls]
      rfl
  | false =>
      rw [if_neg Bool.false_ne_true, if_neg Bool.false_ne_true]
      cases explodes : dice.explodes value with
      | true =>
          rw [if_pos rfl, if_pos rfl, dice.idle_explode_acts source value face explodes]
          rfl
      | false => rfl

theorem idle_roller_check (roller : Roller) (faces : roller.ShowsFaces dice) :
    roller.check (dice.withoutIdle source) = (roller.check dice).mapError (RollError.withSource source) := by
  rw [Roller.check, Roller.check, dice.idle_check source]
  cases dice.check with
  | error error => rfl
  | ok _ =>
      cases fixed : roller.fixedValue dice.base dice.sides.value with
      | none =>
          simp only [withoutIdle, fixed]
          rfl
      | some value =>
          have face := roller.fixed_face dice value faces fixed
          have same : roller.fixedValue (dice.withoutIdle source).base (dice.withoutIdle source).sides.value =
              some value := fixed
          simp only [same]
          exact dice.idle_check_fixed source value face

theorem sides_above_zero_based (zero : dice.base = .zero) : ¬dice.sides.value ≤ dice.highestFace := by
  have top := dice.base.highest_to_nat dice.sides.value
  have low : dice.base.value.toNat = 0 := by rw [zero]; rfl
  have sides := UInt32.lt_iff_toNat_lt.1 dice.sides.pos
  change 0 < dice.sides.value.toNat at sides
  rw [UInt32.le_iff_toNat_le, Clauses.highestFace]
  omega

theorem idle_clauses_change_nothing (roller : Roller) (faces : roller.ShowsFaces dice) :
    (dice.withoutIdle source).check = dice.check.mapError (RollError.withSource source) ∧
      roller.check (dice.withoutIdle source) = (roller.check dice).mapError (RollError.withSource source) ∧
      (∃ report : Report RollError Total,
        (∀ (σ : Type) [Sink σ] (sink : σ), dice.roll ⟨roller, sink⟩ = report.on sink) ∧
          ∀ (σ : Type) [Sink σ] (sink : σ),
            (dice.withoutIdle source).roll ⟨roller, sink⟩ = (report.retold (dice.withoutIdle source)).on sink) ∧
      (dice.base = .zero → dice.explodeFrom = some dice.sides.value →
        (dice.withoutIdle source).explodeFrom = none) := by
  have checks := dice.idle_roller_check source roller faces
  obtain ⟨report, _, runs, again⟩ := roll_retold (dice.idle_alike source) roller faces checks
  refine ⟨dice.idle_check source, checks, ⟨report, runs, again⟩, fun zero atSides => ?_⟩
  have above : ¬dice.sides.value ≤ dice.highestFace := dice.sides_above_zero_based zero
  rw [idle_explode_some dice source _ atSides, if_neg above]

end Dice

def idleTriple : Dice :=
  ⟨⟨.one, 6, 3, some 0, ⟨.middleLow, 5⟩, some 7, 2⟩, "3d6r0ml5!7x2"⟩

def plainTriple : Dice :=
  ⟨⟨.one, 6, 3, none, ⟨.high, 3⟩, none, 2⟩, "3d6x2"⟩

theorem idle_triple_plain : (Roller.values [4, 1, 6]).ShowsFaces idleTriple ∧
    idleTriple.withoutIdle "3d6x2" = plainTriple ∧
    (∃ after, idleTriple.roll ⟨.values [4, 1, 6], Trace.empty⟩ = .ok 22 after) ∧
    plainTriple.check = idleTriple.check.mapError (RollError.withSource "3d6x2") ∧
    ∃ report : Report RollError Total,
      (∀ (σ : Type) [Sink σ] (sink : σ), idleTriple.roll ⟨.values [4, 1, 6], sink⟩ = report.on sink) ∧
        ∀ (σ : Type) [Sink σ] (sink : σ),
          plainTriple.roll ⟨.values [4, 1, 6], sink⟩ = (report.retold plainTriple).on sink := by
  have faces : (Roller.values [4, 1, 6]).ShowsFaces idleTriple := by
    rw [Roller.ShowsFaces]
    simp only [List.forall_mem_cons, Dice.HasFace]
    exact ⟨by decide, by decide, by decide, List.forall_mem_nil _⟩
  have same : idleTriple.withoutIdle "3d6x2" = plainTriple := by decide
  have changes := idleTriple.idle_clauses_change_nothing "3d6x2" (.values [4, 1, 6]) faces
  rw [same] at changes
  exact ⟨faces, same, ⟨_, by simp only [Dice.roll, Dice.rollUnchecked, sort_insertion]; rfl⟩, changes.1,
    changes.2.2.1⟩

end DiceRoll
