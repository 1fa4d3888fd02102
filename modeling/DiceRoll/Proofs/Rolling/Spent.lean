import DiceRoll.Proofs.Rolling.Rerun

set_option autoImplicit false

namespace DiceRoll

variable {σ ε : Type} [Sink σ]

theorem die_spent (dice : Dice) (phase : Phase) (times : Nat) (rerolled : List UInt32) (sink : σ)
    (rerolls : ∀ value ∈ rerolled, dice.rerolls value = true) (short : rerolled.length < times) :
    dice.rollDie (ε := ε) phase times ⟨.values rerolled, sink⟩ =
      .error .exhausted ⟨.values [], tellAll sink (rerollEvents dice phase rerolled)⟩ := by
  induction rerolled generalizing times sink with
  | nil =>
      cases times with
      | zero => cases short
      | succ times => exact Rolling.bind_error _ _ _ _ _ rfl
  | cons value rerolled ih =>
      obtain ⟨again, others⟩ := List.forall_mem_cons.1 rerolls
      cases times with
      | zero => cases short
      | succ times =>
          rw [die_again dice phase times _ value (.values rerolled) rfl again]
          exact ih times _ others (Nat.lt_of_succ_lt_succ short)

theorem die_given (dice : Dice) (phase : Phase) (times : Nat) (die : Die) (dies : List Die) (rerolled : List UInt32)
    (sink : σ) (obeys : die.Obeys dice) (short : (diceValues (die :: dies) ++ rerolled).length < times) :
    dice.rollDie (ε := ε) phase times ⟨.values (diceValues (die :: dies) ++ rerolled), sink⟩ =
      .ok die.accepted ⟨.values (diceValues dies ++ rerolled), tellAll sink (die.events dice phase)⟩ := by
  have values : diceValues (die :: dies) ++ rerolled = die.values ++ (diceValues dies ++ rerolled) :=
    List.append_assoc _ _ _
  rw [List.length_append, dice_values_cons_length] at short
  rw [values]
  exact die_rolled dice phase times _ die _ obeys (by omega) (given_draws _ _ die.values _)

theorem dice_spent (dice : Dice) (limit number : Nat) (dies : List Die) (rerolled rolls : List UInt32) (sink : σ)
    (spent : Spent dice dies rerolled) (short : (diceValues dies ++ rerolled).length < limit)
    (fewer : dies.length < number) :
    dice.rollDice (ε := ε) limit number rolls ⟨.values (diceValues dies ++ rerolled), sink⟩ =
      .error .exhausted
        ⟨.values [], tellAll sink (diceEvents dice .initial dies ++ rerollEvents dice .initial rerolled)⟩ := by
  induction dies generalizing number rolls sink with
  | nil =>
      cases number with
      | zero => cases fewer
      | succ number => exact Rolling.bind_error _ _ _ _ _ (die_spent dice .initial limit rerolled sink spent.rerolls short)
  | cons die dies ih =>
      obtain ⟨here, others⟩ := List.forall_mem_cons.1 spent.obeys
      have run := die_given (ε := ε) dice .initial limit die dies rerolled sink here short
      rw [List.length_append, dice_values_cons_length] at short
      cases number with
      | zero => cases fewer
      | succ number =>
          have rest := ih number (die.accepted :: rolls) (tellAll sink (die.events dice .initial))
            ⟨others, spent.rerolls⟩ (by rw [List.length_append]; omega) (Nat.lt_of_succ_lt_succ fewer)
          rw [Dice.rollDice, Rolling.bind_ok _ _ _ _ _ run, rest, ← tell_all_append]
          simp only [diceEvents, List.flatMap_cons, List.append_assoc]

theorem chain_spent (dice : Dice) (limit times : Nat) (dies : List Die) (rerolled explosions : List UInt32) (sink : σ)
    (spent : Spent dice dies rerolled) (explode : ∀ die ∈ dies, dice.explodes die.accepted = true)
    (short : (diceValues dies ++ rerolled).length < limit) (most : dies.length < times) :
    dice.rollChain (ε := ε) limit times explosions ⟨.values (diceValues dies ++ rerolled), sink⟩ =
      .error .exhausted
        ⟨.values [], tellAll sink (diceEvents dice .explosion dies ++ rerollEvents dice .explosion rerolled)⟩ := by
  induction dies generalizing times explosions sink with
  | nil =>
      cases times with
      | zero => cases most
      | succ times =>
          exact Rolling.bind_error _ _ _ _ _ (die_spent dice .explosion limit rerolled sink spent.rerolls short)
  | cons die dies ih =>
      obtain ⟨here, others⟩ := List.forall_mem_cons.1 spent.obeys
      obtain ⟨explodes, explodeOthers⟩ := List.forall_mem_cons.1 explode
      have run := die_given (ε := ε) dice .explosion limit die dies rerolled sink here short
      rw [List.length_append, dice_values_cons_length] at short
      cases times with
      | zero => cases most
      | succ times =>
          have rest := ih times (die.accepted :: explosions) (tellAll sink (die.events dice .explosion))
            ⟨others, spent.rerolls⟩ explodeOthers (by rw [List.length_append]; omega) (Nat.lt_of_succ_lt_succ most)
          rw [Dice.rollChain, Rolling.bind_ok _ _ _ _ _ run, explodes, if_pos rfl, rest, ← tell_all_append]
          simp only [diceEvents, List.flatMap_cons, List.append_assoc]

theorem chain_given (dice : Dice) (limit : Nat) (chain : List Die) (left explosions : List UInt32) (sink : σ)
    (closed : Chain dice chain) (short : (diceValues chain ++ left).length < limit) :
    dice.rollChain (ε := ε) limit limit explosions ⟨.values (diceValues chain ++ left), sink⟩ =
      .ok ((chain.map Die.accepted).reverse ++ explosions)
        ⟨.values left, tellAll sink (diceEvents dice .explosion chain)⟩ := by
  have count := dice_values_length chain
  rw [List.length_append] at short
  exact chain_rolled dice limit limit chain explosions _ _ closed
    (fun die member => Nat.lt_trans (die_values_length chain die member) (by omega)) (by omega)
    (given_draws _ _ (diceValues chain) _)

theorem chains_spent (dice : Dice) (limit : Nat) (kept : List UInt32) (chains : List (List Die)) (dies : List Die)
    (rerolled explosions : List UInt32) (sink : σ) (fewer : chains.length < kept.countP dice.explodes)
    (closed : ∀ chain ∈ chains, Chain dice chain) (explode : ∀ die ∈ dies, dice.explodes die.accepted = true)
    (spent : Spent dice dies rerolled)
    (short : (diceValues chains.flatten ++ (diceValues dies ++ rerolled)).length < limit) :
    dice.rollChains (ε := ε) limit kept explosions
        ⟨.values (diceValues chains.flatten ++ (diceValues dies ++ rerolled)), sink⟩ =
      .error .exhausted ⟨.values [], tellAll sink (diceEvents dice .explosion chains.flatten ++
        (diceEvents dice .explosion dies ++ rerollEvents dice .explosion rerolled))⟩ := by
  induction kept generalizing chains explosions sink with
  | nil => cases fewer
  | cons value kept ih =>
      rw [Dice.rollChains]
      cases explodes : dice.explodes value with
      | false =>
          rw [List.countP_cons_of_neg (by simp [explodes])] at fewer
          exact ih chains explosions sink fewer closed short
      | true =>
          rw [List.countP_cons_of_pos explodes] at fewer
          rw [if_pos rfl]
          cases chains with
          | nil =>
              -- The values run out in the chain of this kept value.
              have least := dice_values_length dies
              rw [List.flatten_nil, List.length_append, List.length_append] at short
              exact Rolling.bind_error _ _ _ _ _ (chain_spent dice limit limit dies rerolled explosions sink spent
                explode (by rw [List.length_append]; omega) (by omega))
          | cons chain chains =>
              obtain ⟨closedHere, closedOthers⟩ := List.forall_mem_cons.1 closed
              have split : diceValues (chain :: chains).flatten = diceValues chain ++ diceValues chains.flatten := by
                simp only [diceValues, List.flatten_cons, List.flatMap_append]
              rw [split, List.append_assoc] at short ⊢
              have run := chain_given (ε := ε) dice limit chain (diceValues chains.flatten ++ (diceValues dies ++ rerolled))
                explosions sink closedHere short
              rw [List.length_append] at short
              have rest := ih chains ((chain.map Die.accepted).reverse ++ explosions)
                (tellAll sink (diceEvents dice .explosion chain)) (Nat.lt_of_succ_lt_succ fewer) closedOthers (by omega)
              rw [Rolling.bind_ok _ _ _ _ _ run, rest, ← tell_all_append]
              simp only [diceEvents, List.flatten_cons, List.flatMap_append, List.append_assoc]

theorem initial_spent (dice : Dice) (dies : List Die) (rerolled : List UInt32) (sink : σ)
    (fewer : dies.length < dice.count.value.toNat) (spent : Spent dice dies rerolled) :
    dice.rollUnchecked ⟨.values (diceValues dies ++ rerolled), sink⟩ = .error .exhausted
      ⟨.values [], tellAll sink (diceEvents dice .initial dies ++ rerollEvents dice .initial rerolled)⟩ := by
  have states : Rolling.states (ε := RollError) (⟨.values (diceValues dies ++ rerolled), sink⟩ : Table σ) =
      .ok ((diceValues dies ++ rerolled).length + 1) ⟨.values (diceValues dies ++ rerolled), sink⟩ := rfl
  rw [Dice.rollUnchecked, Rolling.bind_ok _ _ _ _ _ states]
  exact Rolling.bind_error _ _ _ _ _
    (dice_spent dice _ _ dies rerolled [] sink spent (Nat.lt_succ_self _) fewer)

theorem explosions_spent (dice : Dice) (course : Course) (dies : List Die) (rerolled : List UInt32) (sink : σ)
    (count : course.initial.length = dice.count.value.toNat) (obeys : ∀ die ∈ course.initial, die.Obeys dice)
    (fewer : course.chains.length < (course.kept dice).countP dice.explodes)
    (closed : ∀ chain ∈ course.chains, Chain dice chain)
    (explode : ∀ die ∈ dies, dice.explodes die.accepted = true) (spent : Spent dice dies rerolled) :
    dice.rollUnchecked ⟨.values (course.values ++ (diceValues dies ++ rerolled)), sink⟩ = .error .exhausted
      ⟨.values [], tellAll sink (course.events dice ++
        (diceEvents dice .explosion dies ++ rerollEvents dice .explosion rerolled))⟩ := by
  obtain ⟨initial, chains⟩ := course
  simp only at count obeys fewer closed
  rw [Course.values, List.append_assoc]
  generalize given : diceValues initial ++ (diceValues chains.flatten ++ (diceValues dies ++ rerolled)) = values
  have states : Rolling.states (ε := RollError) (⟨.values values, sink⟩ : Table σ) =
      .ok (values.length + 1) ⟨.values values, sink⟩ := rfl
  have long := congrArg List.length given
  rw [List.length_append] at long
  have fell := dice_rolled (ε := RollError) dice (values.length + 1) initial [] ⟨.values values, sink⟩ _ obeys
    (fun die member => Nat.lt_trans (die_values_length initial die member) (by omega))
    (given ▸ given_draws _ _ (diceValues initial) _)
  have dropped := drops_told (ε := RollError) dice (Course.dropped dice ⟨initial, chains⟩)
    ⟨.values (diceValues chains.flatten ++ (diceValues dies ++ rerolled)),
      tellAll sink (diceEvents dice .initial initial)⟩
  have exploded := chains_spent (ε := RollError) dice (values.length + 1) (Course.kept dice ⟨initial, chains⟩) chains
    dies rerolled [] (tellAll (tellAll sink (diceEvents dice .initial initial))
      (Course.dropEvents dice ⟨initial, chains⟩)) fewer closed explode spent (by omega)
  rw [Dice.rollUnchecked, Rolling.bind_ok _ _ _ _ _ states, ← count, Rolling.bind_ok _ _ _ _ _ fell]
  simp only [reversed_split dice ⟨initial, chains⟩]
  rw [Rolling.bind_ok _ _ _ _ _ dropped, Course.events, List.append_assoc, List.append_assoc, tell_all_append,
    tell_all_append]
  exact Rolling.bind_error _ _ _ _ _ exploded

theorem given_run_rolled (dice : Dice) (given : List UInt32) (sink : σ)
    (result : EStateM.Result (Stop RollError) (Table σ) Total) (run : GivenRun dice given sink result) :
    dice.rollUnchecked ⟨.values given, sink⟩ = result := by
  cases run with
  | total course left total follows used fits =>
      rw [used, course_replayed dice course left sink follows, Course.result, fits]
  | overflow course left follows used large =>
      rw [used, course_replayed dice course left sink follows, Course.result, large]
  | initialSpent dies rerolled fewer spent used =>
      rw [used]
      exact initial_spent dice dies rerolled sink fewer spent
  | explosionSpent course dies rerolled count obeys fewer closed explode spent used =>
      rw [used]
      exact explosions_spent dice course dies rerolled sink count obeys fewer closed explode
        ⟨(List.forall_mem_append.1 spent.obeys).2, spent.rerolls⟩

theorem given_run_checked (dice : Dice) (given : List UInt32) (sink : σ)
    (result : EStateM.Result (Stop RollError) (Table σ) Total) (checked : dice.check = .ok ())
    (run : GivenRun dice given sink result) : dice.roll ⟨.values given, sink⟩ = result := by
  rw [roll_checked dice ⟨.values given, sink⟩ (check_given dice given checked)]
  exact given_run_rolled dice given sink result run

end DiceRoll
