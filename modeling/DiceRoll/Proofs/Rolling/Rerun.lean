import DiceRoll.Proofs.Rolling.Given

set_option autoImplicit false

namespace DiceRoll

theorem draws_split (base : Base) (sides : UInt32) (roller last : Roller) (values more : List UInt32)
    (draws : Draws base sides roller (values ++ more) last) :
    ∃ middle, Draws base sides roller values middle ∧ Draws base sides middle more last := by
  induction values generalizing roller with
  | nil => exact ⟨roller, .nothing roller, draws⟩
  | cons value values ih =>
      cases draws with
      | value _ next _ _ _ drawn rest =>
          obtain ⟨middle, first, second⟩ := ih next rest
          exact ⟨middle, .value roller next middle value values drawn first, second⟩

theorem given_draws (base : Base) (sides : UInt32) (values left : List UInt32) :
    Draws base sides (.values (values ++ left)) values (.values left) := by
  induction values with
  | nil => exact .nothing _
  | cons value values ih => exact .value _ _ _ value values rfl ih

theorem chain_inversion (dice : Dice) (die : Die) (chain : List Die) (obeys : Chain dice (die :: chain)) :
    chain = [] ∧ dice.explodes die.accepted = false ∨ dice.explodes die.accepted = true ∧ Chain dice chain := by
  obtain ⟨all, before, last, split, explode, final⟩ := obeys
  cases before with
  | nil =>
      cases split
      exact .inl ⟨rfl, final⟩
  | cons first before =>
      cases split
      obtain ⟨explodes, others⟩ := List.forall_mem_cons.1 explode
      exact .inr ⟨explodes, (List.forall_mem_cons.1 all).2, before, last, rfl, others, final⟩

-- No die is rolled again as often as the limit says, and no chain is longer.
structure Course.Within (limit : Nat) (course : Course) : Prop where
  initial : ∀ die ∈ course.initial, die.rerolled.length < limit
  explosions : ∀ die ∈ course.chains.flatten, die.rerolled.length < limit
  chains : ∀ chain ∈ course.chains, chain.length ≤ limit

theorem dice_values_cons_length (die : Die) (dies : List Die) :
    (diceValues (die :: dies)).length = die.rerolled.length + 1 + (diceValues dies).length := by
  simp only [diceValues, List.flatMap_cons, Die.values, List.length_append, List.length_singleton]

theorem die_values_length (dies : List Die) : ∀ die ∈ dies, die.rerolled.length < (diceValues dies).length := by
  induction dies with
  | nil => nofun
  | cons first dies ih =>
      rw [dice_values_cons_length]
      refine List.forall_mem_cons.2 ⟨by omega, fun die member => ?_⟩
      have later := ih die member
      omega

theorem dice_values_length (dies : List Die) : dies.length ≤ (diceValues dies).length := by
  induction dies with
  | nil => exact Nat.le_refl 0
  | cons first dies ih =>
      rw [dice_values_cons_length, List.length_cons]
      omega

theorem course_within (course : Course) (limit : Nat) (enough : course.values.length ≤ limit) :
    course.Within limit := by
  rw [Course.values, List.length_append] at enough
  refine ⟨fun die member => ?_, fun die member => ?_, fun chain member => ?_⟩
  · have short := die_values_length course.initial die member
    omega
  · have short := die_values_length course.chains.flatten die member
    omega
  · have inside := (List.sublist_flatten_of_mem member).length_le
    have short := dice_values_length course.chains.flatten
    omega

variable {σ ε : Type} [Sink σ]

theorem die_accepted (dice : Dice) (phase : Phase) (times : Nat) (table : Table σ) (value : UInt32) (next : Roller)
    (drawn : table.roller.draw dice.base dice.sides.value = some (value, next))
    (accepts : dice.rerolls value = false) :
    dice.rollDie (ε := ε) phase (times + 1) table = .ok value (table.tell next ⟨phase.accepted, dice, value⟩) := by
  have draw : Rolling.draw (ε := ε) dice.base dice.sides.value table = .ok value ⟨next, table.sink⟩ := by
    rw [Rolling.draw, drawn]
  rw [Dice.rollDie, Rolling.bind_ok _ _ _ _ _ draw, accepts]
  rfl

theorem die_again (dice : Dice) (phase : Phase) (times : Nat) (table : Table σ) (value : UInt32) (next : Roller)
    (drawn : table.roller.draw dice.base dice.sides.value = some (value, next))
    (rerolls : dice.rerolls value = true) :
    dice.rollDie (ε := ε) phase (times + 1) table =
      dice.rollDie phase times (table.tell next ⟨phase.rerolled, dice, value⟩) := by
  have draw : Rolling.draw (ε := ε) dice.base dice.sides.value table = .ok value ⟨next, table.sink⟩ := by
    rw [Rolling.draw, drawn]
  rw [Dice.rollDie, Rolling.bind_ok _ _ _ _ _ draw, rerolls]
  rfl

theorem die_rolled (dice : Dice) (phase : Phase) (times : Nat) (table : Table σ) (die : Die) (last : Roller)
    (obeys : die.Obeys dice) (short : die.rerolled.length < times)
    (draws : Draws dice.base dice.sides.value table.roller die.values last) :
    dice.rollDie (ε := ε) phase times table =
      .ok die.accepted ⟨last, tellAll table.sink (die.events dice phase)⟩ := by
  obtain ⟨rerolled, accepted⟩ := die
  obtain ⟨rerolls, accepts⟩ := obeys
  simp only at rerolls accepts short
  induction rerolled generalizing table times with
  | nil =>
      cases times with
      | zero => omega
      | succ times =>
          cases draws with
          | value _ next _ _ _ drawn rest =>
              cases rest
              exact die_accepted dice phase times table accepted last drawn accepts
  | cons value rerolled ih =>
      obtain ⟨again, others⟩ := List.forall_mem_cons.1 rerolls
      cases times with
      | zero => omega
      | succ times =>
          cases draws with
          | value _ next _ _ _ drawn rest =>
              rw [die_again dice phase times table value next drawn again]
              exact ih times _ (Nat.lt_of_succ_lt_succ short) rest others

theorem dice_rolled (dice : Dice) (limit : Nat) (dies : List Die) (rolls : List UInt32) (table : Table σ)
    (last : Roller) (obeys : ∀ die ∈ dies, die.Obeys dice) (short : ∀ die ∈ dies, die.rerolled.length < limit)
    (draws : Draws dice.base dice.sides.value table.roller (diceValues dies) last) :
    dice.rollDice (ε := ε) limit dies.length rolls table =
      .ok ((dies.map Die.accepted).reverse ++ rolls) ⟨last, tellAll table.sink (diceEvents dice .initial dies)⟩ := by
  induction dies generalizing rolls table with
  | nil =>
      cases draws
      rfl
  | cons die dies ih =>
      obtain ⟨here, others⟩ := List.forall_mem_cons.1 obeys
      obtain ⟨shortHere, shortOthers⟩ := List.forall_mem_cons.1 short
      obtain ⟨middle, first, second⟩ := draws_split _ _ _ _ die.values (diceValues dies) draws
      have run := die_rolled (ε := ε) dice .initial limit table die middle here shortHere first
      have rest := ih (die.accepted :: rolls) ⟨middle, tellAll table.sink (die.events dice .initial)⟩ others
        shortOthers second
      rw [List.length_cons, Dice.rollDice, Rolling.bind_ok _ _ _ _ _ run, rest, ← tell_all_append]
      simp only [List.map_cons, List.reverse_cons, List.append_assoc, List.singleton_append]
      rfl

theorem drops_told (dice : Dice) (values : List UInt32) (table : Table σ) :
    dice.tellDropped (ε := ε) values table =
      .ok () ⟨table.roller, tellAll table.sink (values.map fun value => ⟨.dropped, dice, value⟩)⟩ := by
  obtain ⟨⟨roller, sink⟩, run, drawn, told⟩ := tell_dropped_run (ε := ε) dice values table
  simp only at drawn told
  cases drawn
  rw [run, told]

theorem chain_rolled (dice : Dice) (limit times : Nat) (chain : List Die) (explosions : List UInt32) (table : Table σ)
    (last : Roller) (obeys : Chain dice chain) (short : ∀ die ∈ chain, die.rerolled.length < limit)
    (most : chain.length ≤ times) (draws : Draws dice.base dice.sides.value table.roller (diceValues chain) last) :
    dice.rollChain (ε := ε) limit times explosions table =
      .ok ((chain.map Die.accepted).reverse ++ explosions)
        ⟨last, tellAll table.sink (diceEvents dice .explosion chain)⟩ := by
  induction chain generalizing times explosions table with
  | nil =>
      obtain ⟨before, final, split, _⟩ := obeys.ends
      cases before <;> cases split
  | cons die chain ih =>
      obtain ⟨shortHere, shortOthers⟩ := List.forall_mem_cons.1 short
      obtain ⟨middle, first, second⟩ := draws_split _ _ _ _ die.values (diceValues chain) draws
      have here := (List.forall_mem_cons.1 obeys.obeys).1
      have run := die_rolled (ε := ε) dice .explosion limit table die middle here shortHere first
      cases times with
      | zero => cases most
      | succ times =>
          rw [Dice.rollChain, Rolling.bind_ok _ _ _ _ _ run]
          rcases chain_inversion dice die chain obeys with ⟨rfl, final⟩ | ⟨explodes, rest⟩
          · cases second
            rw [final]
            simp [diceEvents]
            rfl
          · have goesOn := ih times (die.accepted :: explosions)
              ⟨middle, tellAll table.sink (die.events dice .explosion)⟩ rest shortOthers
              (Nat.le_of_succ_le_succ most) second
            rw [explodes, if_pos rfl, goesOn, ← tell_all_append]
            simp only [List.map_cons, List.reverse_cons, List.append_assoc, List.singleton_append]
            rfl

theorem chains_rolled (dice : Dice) (limit : Nat) (kept : List UInt32) (chains : List (List Die))
    (explosions : List UInt32) (table : Table σ) (last : Roller) (count : chains.length = kept.countP dice.explodes)
    (closed : ∀ chain ∈ chains, Chain dice chain) (short : ∀ die ∈ chains.flatten, die.rerolled.length < limit)
    (most : ∀ chain ∈ chains, chain.length ≤ limit)
    (draws : Draws dice.base dice.sides.value table.roller (diceValues chains.flatten) last) :
    dice.rollChains (ε := ε) limit kept explosions table =
      .ok ((chains.flatten.map Die.accepted).reverse ++ explosions)
        ⟨last, tellAll table.sink (diceEvents dice .explosion chains.flatten)⟩ := by
  induction kept generalizing chains explosions table with
  | nil =>
      cases List.length_eq_zero_iff.1 count
      cases draws
      rfl
  | cons value kept ih =>
      rw [Dice.rollChains]
      cases explodes : dice.explodes value with
      | false =>
          rw [List.countP_cons_of_neg (by simp [explodes])] at count
          exact ih chains explosions table count closed short most draws
      | true =>
          rw [List.countP_cons_of_pos explodes] at count
          cases chains with
          | nil => cases count
          | cons chain chains =>
              obtain ⟨closedHere, closedOthers⟩ := List.forall_mem_cons.1 closed
              obtain ⟨mostHere, mostOthers⟩ := List.forall_mem_cons.1 most
              rw [List.flatten_cons] at draws short ⊢
              obtain ⟨shortHere, shortOthers⟩ := List.forall_mem_append.1 short
              rw [diceValues, List.flatMap_append] at draws
              obtain ⟨middle, first, second⟩ := draws_split _ _ _ _ _ _ draws
              have run := chain_rolled (ε := ε) dice limit limit chain explosions table middle closedHere shortHere
                mostHere first
              have rest := ih chains ((chain.map Die.accepted).reverse ++ explosions)
                ⟨middle, tellAll table.sink (diceEvents dice .explosion chain)⟩ (Nat.succ.inj count) closedOthers
                shortOthers mostOthers second
              rw [if_pos rfl, Rolling.bind_ok _ _ _ _ _ run, rest, ← tell_all_append]
              simp only [List.map_append, List.reverse_append, List.append_assoc, diceEvents, List.flatMap_append]

def Course.result (dice : Dice) (course : Course) (after : Table σ) :
    EStateM.Result (Stop RollError) (Table σ) Total :=
  match dice.total? (course.kept dice) course.explosions with
  | none => .error (.failed (.overflow dice.source)) after
  | some total => .ok total after

theorem course_rolled (dice : Dice) (course : Course) (table : Table σ) (last : Roller)
    (follows : course.Follows dice) (within : course.Within table.roller.states)
    (draws : Draws dice.base dice.sides.value table.roller course.values last) :
    dice.rollUnchecked table = course.result dice ⟨last, tellAll table.sink (course.events dice)⟩ := by
  obtain ⟨initial, chains⟩ := course
  obtain ⟨count, obeys, chainCount, closed⟩ := follows
  obtain ⟨shortInitial, shortExplosions, most⟩ := within
  obtain ⟨middle, first, second⟩ := draws_split _ _ _ _ (diceValues initial) (diceValues chains.flatten) draws
  have states : Rolling.states (ε := RollError) table = .ok table.roller.states table := rfl
  have fell := dice_rolled (ε := RollError) dice table.roller.states initial [] table middle obeys shortInitial first
  simp only at count
  rw [Dice.rollUnchecked, Rolling.bind_ok _ _ _ _ _ states, ← count, Rolling.bind_ok _ _ _ _ _ fell]
  simp only [reversed_split dice ⟨initial, chains⟩]
  have dropped : dice.tellDropped (ε := RollError) (Course.dropped dice ⟨initial, chains⟩)
      ⟨middle, tellAll table.sink (diceEvents dice .initial initial)⟩ =
        .ok () ⟨middle, tellAll (tellAll table.sink (diceEvents dice .initial initial))
          (Course.dropEvents dice ⟨initial, chains⟩)⟩ := drops_told dice _ _
  have exploded := chains_rolled (ε := RollError) dice table.roller.states (Course.kept dice ⟨initial, chains⟩) chains
    [] ⟨middle, tellAll (tellAll table.sink (diceEvents dice .initial initial))
      (Course.dropEvents dice ⟨initial, chains⟩)⟩ last chainCount closed shortExplosions most second
  rw [Rolling.bind_ok _ _ _ _ _ dropped, Rolling.bind_ok _ _ _ _ _ exploded]
  have same := total_permutation dice (Course.kept dice ⟨initial, chains⟩)
    ((chains.flatten.map Die.accepted).reverse ++ []) (Course.explosions ⟨initial, chains⟩)
    (by rw [List.append_nil]; exact List.reverse_perm _)
  rw [same, Course.result, Course.events, tell_all_append, tell_all_append]
  cases dice.total? (Course.kept dice ⟨initial, chains⟩) (Course.explosions ⟨initial, chains⟩) with
  | none => rfl
  | some total => rfl

theorem course_replayed (dice : Dice) (course : Course) (left : List UInt32) (sink : σ)
    (follows : course.Follows dice) :
    dice.rollUnchecked ⟨.values (course.values ++ left), sink⟩ =
      course.result dice ⟨.values left, tellAll sink (course.events dice)⟩ := by
  refine course_rolled dice course ⟨.values (course.values ++ left), sink⟩ (.values left) follows ?_ ?_
  · exact course_within course _ (by simp only [Roller.states, List.length_append]; omega)
  · exact given_draws _ _ course.values left

end DiceRoll
