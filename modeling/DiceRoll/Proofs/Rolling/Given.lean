import DiceRoll.Proofs.Rolling.Checked

set_option autoImplicit false

namespace DiceRoll

-- Where given values ran out: these dice fell, and the next one was rolled again this often.
structure Spent (dice : Dice) (dies : List Die) (rerolled : List UInt32) : Prop where
  obeys : ∀ die ∈ dies, die.Obeys dice
  rerolls : ∀ value ∈ rerolled, dice.rerolls value = true

-- The limit of a loop is larger than the number of values, so only their end can stop it.
theorem halts_given {σ ε : Type} (dice : Dice) (given values left : List UInt32) (sink : σ) (stop : Stop ε)
    (used : given = values ++ left)
    (halts : Halts dice (given.length + 1) values (⟨.values left, sink⟩ : Table σ) stop) :
    stop = .exhausted ∧ left = [] := by
  cases stop with
  | failed error => exact halts.elim
  | exhausted =>
      cases left with
      | nil => exact ⟨rfl, rfl⟩
      | cons value left => cases halts
  | endless =>
      have enough : given.length + 1 ≤ values.length := halts
      rw [used, List.length_append] at enough
      omega

variable {σ : Type} [Sink σ]

inductive GivenRun (dice : Dice) (given : List UInt32) (sink : σ) :
    EStateM.Result (Stop RollError) (Table σ) Total → Prop where
  | total (course : Course) (left : List UInt32) (total : Total) (follows : course.Follows dice)
      (used : given = course.values ++ left)
      (fits : dice.total? (course.kept dice) course.explosions = some total) :
      GivenRun dice given sink (.ok total ⟨.values left, tellAll sink (course.events dice)⟩)
  | overflow (course : Course) (left : List UInt32) (follows : course.Follows dice)
      (used : given = course.values ++ left)
      (large : dice.total? (course.kept dice) course.explosions = none) :
      GivenRun dice given sink
        (.error (.failed (.overflow dice.source)) ⟨.values left, tellAll sink (course.events dice)⟩)
  | initialSpent (dies : List Die) (rerolled : List UInt32) (fewer : dies.length < dice.count.value.toNat)
      (spent : Spent dice dies rerolled) (used : given = diceValues dies ++ rerolled) :
      GivenRun dice given sink (.error .exhausted
        ⟨.values [], tellAll sink (diceEvents dice .initial dies ++ rerollEvents dice .initial rerolled)⟩)
  | explosionSpent (course : Course) (dies : List Die) (rerolled : List UInt32)
      (count : course.initial.length = dice.count.value.toNat) (obeys : ∀ die ∈ course.initial, die.Obeys dice)
      (fewer : course.chains.length < (course.kept dice).countP dice.explodes)
      (closed : ∀ chain ∈ course.chains, Chain dice chain)
      (explode : ∀ die ∈ dies, dice.explodes die.accepted = true)
      (spent : Spent dice (course.chains.flatten ++ dies) rerolled)
      (used : given = course.values ++ (diceValues dies ++ rerolled)) :
      GivenRun dice given sink (.error .exhausted
        ⟨.values [], tellAll sink (course.events dice ++
          (diceEvents dice .explosion dies ++ rerollEvents dice .explosion rerolled))⟩)

theorem passes_given (dice : Dice) (given values : List UInt32) (sink : σ) (events : List Event) (after : Table σ)
    (passes : Passes dice ⟨.values given, sink⟩ values events after) :
    ∃ left, given = values ++ left ∧ after = ⟨.values left, tellAll sink events⟩ := by
  obtain ⟨roller, told⟩ := after
  obtain ⟨drawn, rfl⟩ := passes
  obtain ⟨left, used, final⟩ := draws_given _ _ given values roller drawn
  exact ⟨left, used, by rw [final]⟩

theorem roll_unchecked_given (dice : Dice) (given : List UInt32) (sink : σ) :
    GivenRun dice given sink (dice.rollUnchecked ⟨.values given, sink⟩) := by
  have run := roll_unchecked_run dice (⟨.values given, sink⟩ : Table σ)
  generalize dice.rollUnchecked (⟨.values given, sink⟩ : Table σ) = result at run ⊢
  cases run with
  | total course after total follows passes fits =>
      obtain ⟨left, used, rfl⟩ := passes_given dice given _ sink _ after passes
      exact .total course left total follows used fits
  | overflow course after follows passes large =>
      obtain ⟨left, used, rfl⟩ := passes_given dice given _ sink _ after passes
      exact .overflow course left follows used large
  | initialStop dies rerolled after stop stopped =>
      obtain ⟨left, used, rfl⟩ := passes_given dice given _ sink _ after stopped.unfinished.passes
      obtain ⟨rfl, rfl⟩ := halts_given dice given _ left _ stop used stopped.unfinished.halts
      rw [List.append_nil] at used
      exact .initialSpent dies rerolled stopped.fewer ⟨stopped.unfinished.obeys, stopped.unfinished.rerolls⟩ used
  | explosionStop middle course dies rerolled after stop stopped =>
      have unfinished := stopped.openChain.unfinished
      have whole := passes_append _ _ _ _ _ _ _ _ stopped.passes unfinished.passes
      have halts := halts_longer dice (given.length + 1) (given.length + 1) _
        (diceValues course.initial ++ (diceValues (course.chains.flatten ++ dies) ++ rerolled)) after stop
        (fun enough => Nat.le_trans enough (by simp only [List.length_append]; omega)) unfinished.halts
      obtain ⟨left, used, rfl⟩ := passes_given dice given _ sink _ after whole
      obtain ⟨rfl, rfl⟩ := halts_given dice given _ left _ stop used halts
      have spent : given = course.values ++ (diceValues dies ++ rerolled) := by
        simpa only [Course.values, diceValues, List.flatMap_append, List.append_assoc, List.append_nil] using used
      have told : diceEvents dice .initial course.initial ++ course.dropEvents dice ++
          (diceEvents dice .explosion (course.chains.flatten ++ dies) ++ rerollEvents dice .explosion rerolled) =
            course.events dice ++ (diceEvents dice .explosion dies ++ rerollEvents dice .explosion rerolled) := by
        simp only [Course.events, diceEvents, List.flatMap_append, List.append_assoc]
      rw [told]
      exact .explosionSpent course dies rerolled stopped.count stopped.obeys stopped.fewer stopped.openChain.closed
        stopped.openChain.explode ⟨unfinished.obeys, unfinished.rerolls⟩ spent

theorem check_given (dice : Dice) (given : List UInt32) (checked : dice.check = .ok ()) :
    (Roller.values given).check dice = .ok () := by
  rw [Roller.check, checked]
  rfl

theorem roll_given (dice : Dice) (given : List UInt32) (sink : σ) (checked : dice.check = .ok ()) :
    GivenRun dice given sink (dice.roll ⟨.values given, sink⟩) := by
  rw [roll_checked dice ⟨.values given, sink⟩ (check_given dice given checked)]
  exact roll_unchecked_given dice given sink

end DiceRoll
