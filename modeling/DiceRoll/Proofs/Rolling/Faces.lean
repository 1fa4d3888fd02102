import DiceRoll.Proofs.Rolling.Fixed
import DiceRoll.Proofs.Rolling.Guard

set_option autoImplicit false

namespace DiceRoll

def AllTold (dice : Dice) (values : List UInt32) (events : List Event) : Prop :=
  ∀ event ∈ events, event.value ∈ values ∧ (event.kind.isReroll = false → dice.rerolls event.value = false)

theorem all_told_nothing (dice : Dice) (values : List UInt32) : AllTold dice values [] :=
  List.forall_mem_nil _

theorem all_told_append (dice : Dice) (values more : List UInt32) (events later : List Event)
    (first : AllTold dice values events) (second : AllTold dice more later) :
    AllTold dice (values ++ more) (events ++ later) :=
  List.forall_mem_append.2
    ⟨fun event member => ⟨List.mem_append_left _ (first event member).1, (first event member).2⟩,
      fun event member => ⟨List.mem_append_right _ (second event member).1, (second event member).2⟩⟩

theorem rerolls_all_told (dice : Dice) (phase : Phase) (values : List UInt32) :
    AllTold dice values (rerollEvents dice phase values) := by
  intro event member
  obtain ⟨value, drawn, rfl⟩ := List.mem_map.1 member
  exact ⟨drawn, by cases phase <;> nofun⟩

theorem dice_all_told (dice : Dice) (phase : Phase) (dies : List Die) (obeys : ∀ die ∈ dies, die.Obeys dice) :
    AllTold dice (diceValues dies) (diceEvents dice phase dies) := by
  induction dies with
  | nil => exact all_told_nothing dice _
  | cons die dies ih =>
      obtain ⟨first, others⟩ := List.forall_mem_cons.1 obeys
      have last : AllTold dice [die.accepted] [⟨phase.accepted, dice, die.accepted⟩] :=
        List.forall_mem_singleton.2 ⟨List.mem_singleton_self _, fun _ => first.accepts⟩
      have here := all_told_append dice _ _ _ _ (rerolls_all_told dice phase die.rerolled) last
      exact all_told_append dice _ _ _ _ here (ih others)

theorem drops_all_told (dice : Dice) (course : Course) (obeys : ∀ die ∈ course.initial, die.Obeys dice) :
    AllTold dice (diceValues course.initial) (course.dropEvents dice) := by
  intro event member
  obtain ⟨value, dropped, rfl⟩ := List.mem_map.1 member
  obtain ⟨die, fell, rfl⟩ := course.dropped_fallen dice value dropped
  exact ⟨Dice.accepted_mem _ die fell, fun _ => (obeys die fell).accepts⟩

theorem initial_all_told (dice : Dice) (course : Course) (obeys : ∀ die ∈ course.initial, die.Obeys dice) :
    AllTold dice (diceValues course.initial)
      (diceEvents dice .initial course.initial ++ course.dropEvents dice) :=
  List.forall_mem_append.2 ⟨dice_all_told dice .initial _ obeys, drops_all_told dice course obeys⟩

theorem course_all_told (dice : Dice) (course : Course) (follows : course.Follows dice) :
    AllTold dice course.values (course.events dice) :=
  all_told_append dice _ _ _ _ (initial_all_told dice course follows.obeys)
    (dice_all_told dice .explosion _ (chains_obey dice _ follows.chains))

def reached {σ ε α : Type} : EStateM.Result (Stop ε) (Table σ) α → Table σ
  | .ok _ after => after
  | .error _ after => after

section

variable {σ : Type} [Sink σ]

theorem unchecked_all_told (dice : Dice) (table : Table σ) :
    ∃ values events, Passes dice table values events (reached (dice.rollUnchecked table)) ∧
      AllTold dice values events := by
  have run := roll_unchecked_run dice table
  generalize dice.rollUnchecked table = result at run ⊢
  cases run with
  | total course after total follows passes fits => exact ⟨_, _, passes, course_all_told dice course follows⟩
  | overflow course after follows passes large => exact ⟨_, _, passes, course_all_told dice course follows⟩
  | initialStop dies rerolled after stop stopped =>
      exact ⟨_, _, stopped.unfinished.passes, all_told_append dice _ _ _ _
        (dice_all_told dice .initial dies stopped.unfinished.obeys) (rerolls_all_told dice .initial rerolled)⟩
  | explosionStop middle course dies rerolled after stop stopped =>
      have unfinished := stopped.openChain.unfinished
      have later := all_told_append dice _ _ _ _ (dice_all_told dice .explosion _ unfinished.obeys)
        (rerolls_all_told dice .explosion rerolled)
      exact ⟨_, _, passes_append _ _ _ _ _ _ _ _ stopped.passes unfinished.passes,
        all_told_append dice _ _ _ _ (initial_all_told dice course stopped.obeys) later⟩

theorem roll_all_told (dice : Dice) (table : Table σ) :
    ∃ values events, Passes dice table values events (reached (dice.roll table)) ∧ AllTold dice values events := by
  cases checked : table.roller.check dice with
  | error error =>
      rw [roll_refused dice table error checked]
      exact ⟨[], [], passes_nothing dice table, all_told_nothing dice []⟩
  | ok _ =>
      rw [roll_checked dice table checked]
      exact unchecked_all_told dice table

end

theorem Roller.seeded_draw (generator : Generator) (base : Base) (sides : UInt32) (pos : 0 < sides)
    (passes : ¬Generator.rejects sides.toNat (Generator.word (generator.state + Generator.increment))) :
    (seeded generator).draw base sides =
      some (base.face (Generator.scale sides (Generator.word (generator.state + Generator.increment))),
        seeded ⟨generator.state + Generator.increment⟩) := by
  rw [draw, dif_pos pos, Generator.below, Generator.settle_passes sides pos _ passes]

namespace Dice

theorem seeded_draw_face (dice : Dice) (roller next : Roller) (value : UInt32) (seeded : roller.kind = .seeded)
    (drawn : roller.draw dice.base dice.sides.value = some (value, next)) : dice.HasFace value := by
  cases roller with
  | values left => cases seeded
  | constant same => cases seeded
  | lowest => cases seeded
  | highest => cases seeded
  | seeded generator =>
      simp only [Roller.draw, dif_pos dice.sides.pos, Option.some.injEq, Prod.mk.injEq] at drawn
      have inside := generator.below_lt dice.sides.value dice.sides.pos
      have shown := dice.base.face_to_nat _ _ inside
      have top := dice.base.highest_to_nat dice.sides.value
      have below := UInt32.lt_iff_toNat_lt.1 inside
      rw [← drawn.1]
      refine ⟨UInt32.le_iff_toNat_le.2 ?_, UInt32.le_iff_toNat_le.2 ?_⟩
      · rw [shown]
        exact Nat.le_add_right _ _
      · rw [shown, Clauses.highestFace, top]
        omega

theorem seeded_draws_faces (dice : Dice) (roller last : Roller) (values : List UInt32) (seeded : roller.kind = .seeded)
    (draws : Draws dice.base dice.sides.value roller values last) : ∀ value ∈ values, dice.HasFace value := by
  induction draws with
  | nothing => exact List.forall_mem_nil _
  | value roller next last value values drawn rest ih =>
      have goesOn := (roller.draw_kind next _ _ value drawn).trans seeded
      exact List.forall_mem_cons.2 ⟨dice.seeded_draw_face roller next value seeded drawn, ih goesOn⟩

theorem above_threshold (dice : Dice) (value : UInt32) (accepted : dice.rerolls value = false) :
    ∀ low, dice.rerollUpTo = some low → low < value := by
  intro low threshold
  rw [Clauses.rerolls, threshold] at accepted
  exact UInt32.not_le.1 (of_decide_eq_false accepted)

end Dice

namespace Course

theorem kept_least (dice : Dice) (course : Course) (follows : course.Follows dice)
    (faces : ∀ value ∈ course.values, dice.HasFace value) :
    dice.keptCount * dice.lowestAccepted ≤ exactSum (course.kept dice) := by
  rw [← course.kept_length dice follows]
  refine exact_sum_least _ _ fun value kept => ?_
  obtain ⟨die, fell, rfl⟩ := course.kept_fallen dice value kept
  have face := faces die.accepted (List.mem_append_left _ (Dice.accepted_mem _ die fell))
  exact (dice.accepted_iff die.accepted face.1).1 (follows.obeys die fell).accepts

theorem kept_most (dice : Dice) (course : Course) (follows : course.Follows dice)
    (faces : ∀ value ∈ course.values, dice.HasFace value) :
    exactSum (course.kept dice) ≤ dice.keptCount * dice.highestFace.toNat := by
  rw [← course.kept_length dice follows]
  refine exact_sum_most _ _ fun value kept => ?_
  obtain ⟨die, fell, rfl⟩ := course.kept_fallen dice value kept
  exact UInt32.le_iff_toNat_le.1 (faces die.accepted (List.mem_append_left _ (Dice.accepted_mem _ die fell))).2

theorem no_explosions (dice : Dice) (course : Course) (follows : course.Follows dice)
    (never : dice.explodeFrom = none) : course.explosions = [] := by
  have ends : (course.kept dice).countP dice.explodes = 0 :=
    List.countP_eq_zero.2 fun value _ => by simp [Clauses.explodes, never]
  have unchained : course.chains = [] := List.length_eq_zero_iff.1 (follows.chainCount.trans ends)
  rw [explosions, unchained]
  rfl

end Course

variable {σ : Type} [Sink σ]

theorem seeded_roll_bounds (dice : Dice) (generator : Generator) (sink : σ) :
    (∀ offset < dice.sides.value, (dice.base.face offset).toNat = dice.lowestFace.toNat + offset.toNat) ∧
      dice.highestFace.toNat = dice.lowestFace.toNat + (dice.sides.value.toNat - 1) ∧
      (∃ events, (reached (dice.roll ⟨.seeded generator, sink⟩)).sink = tellAll sink events ∧
        ∀ event ∈ events, dice.HasFace event.value ∧
          (event.kind.isReroll = false → ∀ low, dice.rerollUpTo = some low → low < event.value)) ∧
      ∀ total after, dice.roll ⟨.seeded generator, sink⟩ = .ok total after →
        (dice.keptCount * dice.lowestAccepted * dice.multiply.toNat : Int) ≤ total.toInt ∧
          (dice.explodeFrom = none →
            total.toInt ≤ dice.keptCount * dice.highestFace.toNat * dice.multiply.toNat) := by
  refine ⟨dice.base.face_to_nat dice.sides.value, dice.base.highest_to_nat dice.sides.value, ?_, ?_⟩
  · obtain ⟨values, events, passes, told⟩ := roll_all_told dice ⟨.seeded generator, sink⟩
    refine ⟨events, passes.told, fun event member => ?_⟩
    obtain ⟨drawn, accepted⟩ := told event member
    exact ⟨dice.seeded_draws_faces _ _ values rfl passes.drawn _ drawn,
      fun fell => dice.above_threshold event.value (accepted fell)⟩
  · intro total after ran
    obtain ⟨course, follows, passes, fits⟩ := roll_total_course dice _ after total ran
    have faces := dice.seeded_draws_faces _ _ _ rfl passes.drawn
    have least := Nat.mul_le_mul_right dice.multiply.toNat (course.kept_least dice follows faces)
    have most := Nat.mul_le_mul_right dice.multiply.toNat (course.kept_most dice follows faces)
    rw [dice.total_value _ _ total fits]
    refine ⟨?_, fun never => ?_⟩
    · have grows := Nat.mul_le_mul_right dice.multiply.toNat
        (Nat.le_add_right (exactSum (course.kept dice)) (exactSum course.explosions))
      exact_mod_cast least.trans grows
    · rw [course.no_explosions dice follows never]
      exact_mod_cast most

def rerolledDie : Dice :=
  ⟨⟨.one, 6, 1, some 2, ⟨.high, 1⟩, none, 1⟩, "d6r2"⟩

def rerolledOnce : Course :=
  ⟨[⟨[2], 4⟩], []⟩

theorem rerolled_once_drawn :
    Draws .one 6 (.seeded ⟨9⟩) rerolledOnce.values (.seeded ⟨9 + Generator.increment + Generator.increment⟩) := by
  have two : (Roller.seeded ⟨9⟩).draw .one 6 = some (2, .seeded ⟨9 + Generator.increment⟩) := by
    rw [Roller.seeded_draw _ _ _ (by decide) (by decide +kernel)]
    rfl
  have four : (Roller.seeded ⟨9 + Generator.increment⟩).draw .one 6 =
      some (4, .seeded ⟨9 + Generator.increment + Generator.increment⟩) := by
    rw [Roller.seeded_draw _ _ _ (by decide) (by decide +kernel)]
    rfl
  exact .value _ _ _ _ _ two (.value _ _ _ _ _ four (.nothing _))

theorem rerolled_die_bounds :
    ∃ total after, rerolledDie.roll (⟨.seeded ⟨9⟩, Trace.empty⟩ : Table Trace) = .ok total after ∧
      3 ≤ total.toInt ∧ total.toInt ≤ 6 := by
  have follows : rerolledOnce.Follows rerolledDie :=
    ⟨rfl, List.forall_mem_singleton.2 ⟨List.forall_mem_singleton.2 rfl, rfl⟩,
      (List.countP_eq_zero.2 fun _ _ => Bool.false_ne_true).symm, List.forall_mem_nil _⟩
  have rolled := course_rolled rerolledDie rerolledOnce ⟨.seeded ⟨9⟩, Trace.empty⟩ _ follows
    (course_within _ _ (by decide)) rerolled_once_drawn
  have ran : ∃ after, rerolledDie.roll (⟨.seeded ⟨9⟩, Trace.empty⟩ : Table Trace) = .ok 4 after := by
    rw [roll_checked rerolledDie _ rfl, rolled]
    simp only [Course.result, Course.kept, Course.sorted, sort_insertion]
    exact ⟨_, rfl⟩
  obtain ⟨after, ran⟩ := ran
  have bounds := (seeded_roll_bounds rerolledDie ⟨9⟩ Trace.empty).2.2.2 4 after ran
  exact ⟨4, after, ran, bounds.1, bounds.2 rfl⟩

end DiceRoll
