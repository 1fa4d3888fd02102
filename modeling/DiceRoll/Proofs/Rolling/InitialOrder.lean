import DiceRoll.Proofs.Rolling.Faces
import DiceRoll.Proofs.Rolling.Spent

set_option autoImplicit false

namespace DiceRoll

namespace Dice

-- The values up to the one that a number of dice is accepted with, and those behind it. All of them if they do not
-- suffice.
def firstDice (dice : Dice) : Nat → List UInt32 → List UInt32 × List UInt32
  | 0, given => ([], given)
  | _ + 1, [] => ([], [])
  | number + 1, value :: given =>
      let rest := dice.firstDice (if dice.rerolls value then number + 1 else number) given
      (value :: rest.1, rest.2)

theorem first_dice_rerolled (dice : Dice) (number : Nat) (rerolled given : List UInt32)
    (rerolls : ∀ value ∈ rerolled, dice.rerolls value = true) :
    dice.firstDice (number + 1) (rerolled ++ given) =
      (rerolled ++ (dice.firstDice (number + 1) given).1, (dice.firstDice (number + 1) given).2) := by
  induction rerolled with
  | nil => rfl
  | cons value rerolled ih =>
      obtain ⟨again, others⟩ := List.forall_mem_cons.1 rerolls
      rw [List.cons_append, firstDice, again, if_pos rfl, ih others]
      rfl

theorem first_dice_die (dice : Dice) (number : Nat) (die : Die) (given : List UInt32) (obeys : die.Obeys dice) :
    dice.firstDice (number + 1) (die.values ++ given) =
      (die.values ++ (dice.firstDice number given).1, (dice.firstDice number given).2) := by
  have last : dice.firstDice (number + 1) (die.accepted :: given) =
      (die.accepted :: (dice.firstDice number given).1, (dice.firstDice number given).2) := by
    rw [firstDice, obeys.accepts]
    rfl
  rw [Die.values, List.append_assoc, List.singleton_append, dice.first_dice_rerolled number _ _ obeys.rerolls, last,
    List.append_assoc]
  rfl

theorem first_dice_fallen (dice : Dice) (more : Nat) (dies : List Die) (given : List UInt32)
    (obeys : ∀ die ∈ dies, die.Obeys dice) :
    dice.firstDice (dies.length + more) (diceValues dies ++ given) =
      (diceValues dies ++ (dice.firstDice more given).1, (dice.firstDice more given).2) := by
  induction dies with
  | nil =>
      rw [List.length_nil, Nat.zero_add]
      rfl
  | cons die dies ih =>
      obtain ⟨first, others⟩ := List.forall_mem_cons.1 obeys
      have values : diceValues (die :: dies) = die.values ++ diceValues dies := rfl
      have count : (die :: dies).length + more = dies.length + more + 1 := Nat.succ_add _ _
      rw [values, List.append_assoc, count, dice.first_dice_die _ die _ first, ih others, List.append_assoc]

theorem first_dice_all (dice : Dice) (dies : List Die) (given : List UInt32) (obeys : ∀ die ∈ dies, die.Obeys dice) :
    dice.firstDice dies.length (diceValues dies ++ given) = (diceValues dies, given) := by
  have fallen := dice.first_dice_fallen 0 dies given obeys
  rw [firstDice, List.append_nil] at fallen
  exact fallen

theorem first_dice_spent (dice : Dice) (number : Nat) (dies : List Die) (rerolled : List UInt32)
    (spent : Spent dice dies rerolled) (fewer : dies.length < number) :
    dice.firstDice number (diceValues dies ++ rerolled) = (diceValues dies ++ rerolled, []) := by
  obtain ⟨missing, rfl⟩ := Nat.exists_eq_add_of_lt fewer
  have last := dice.first_dice_rerolled missing rerolled [] spent.rerolls
  rw [List.append_nil, firstDice, List.append_nil] at last
  rw [Nat.add_assoc, dice.first_dice_fallen (missing + 1) dies rerolled spent.obeys, last]

theorem first_dice_accepted (dice : Dice) (dies : List Die) (given : List UInt32)
    (obeys : ∀ die ∈ dies, die.Obeys dice) :
    dice.accepted (dice.firstDice dies.length (diceValues dies ++ given)).1 = dies.map Die.accepted := by
  rw [dice.first_dice_all dies given obeys, dice.accepted_dice dies obeys]

theorem first_dice_spent_accepted (dice : Dice) (number : Nat) (dies : List Die) (rerolled : List UInt32)
    (spent : Spent dice dies rerolled) (fewer : dies.length < number) :
    dice.accepted (dice.firstDice number (diceValues dies ++ rerolled)).1 = dies.map Die.accepted := by
  rw [dice.first_dice_spent number dies rerolled spent fewer, dice.accepted_append, dice.accepted_dice dies spent.obeys,
    dice.accepted_rerolled rerolled spent.rerolls, List.append_nil]

theorem values_fall (dice : Dice) (number : Nat) (given : List UInt32) :
    (∃ dies left, dies.length = number ∧ (∀ die ∈ dies, die.Obeys dice) ∧ given = diceValues dies ++ left) ∨
      ∃ dies rerolled, dies.length < number ∧ Spent dice dies rerolled ∧ given = diceValues dies ++ rerolled := by
  have run := roll_dice_run (ε := RollError) dice (given.length + 1) number (⟨.values given, ()⟩ : Table Unit) []
  generalize dice.rollDice (given.length + 1) number [] (⟨.values given, ()⟩ : Table Unit) = result at run
  cases run with
  | rolled dies after count obeys passes =>
      obtain ⟨left, used, _⟩ := passes_given dice given _ () _ after passes
      exact .inl ⟨dies, left, count, obeys, used⟩
  | stopped dies rerolled after stop fewer unfinished =>
      obtain ⟨left, used, rfl⟩ := passes_given dice given _ () _ after unfinished.passes
      obtain ⟨rfl, rfl⟩ := halts_given dice given _ left _ stop used unfinished.halts
      rw [List.append_nil] at used
      exact .inr ⟨dies, rerolled, fewer, ⟨unfinished.obeys, unfinished.rerolls⟩, used⟩

end Dice

-- The first dice are accepted with the same values in any order, and the same values are given behind them.
structure Reordered (dice : Dice) (given other : List UInt32) : Prop where
  accepted : (dice.accepted (dice.firstDice dice.count.value.toNat given).1).Perm
    (dice.accepted (dice.firstDice dice.count.value.toNat other).1)
  behind : (dice.firstDice dice.count.value.toNat given).2 = (dice.firstDice dice.count.value.toNat other).2

theorem reordered_dice (dice : Dice) (initial : List Die) (behind other : List UInt32)
    (count : initial.length = dice.count.value.toNat) (obeys : ∀ die ∈ initial, die.Obeys dice)
    (reordered : Reordered dice (diceValues initial ++ behind) other) :
    ∃ dies, dies.length = dice.count.value.toNat ∧ (∀ die ∈ dies, die.Obeys dice) ∧
      other = diceValues dies ++ behind ∧ (dies.map Die.accepted).Perm (initial.map Die.accepted) := by
  obtain ⟨accepted, same⟩ := reordered
  rw [← count, dice.first_dice_accepted initial behind obeys] at accepted
  rw [← count, dice.first_dice_all initial behind obeys] at same
  rcases dice.values_fall initial.length other with ⟨dies, left, number, others, used⟩ | ⟨dies, rerolled, fewer, spent, used⟩
  · rw [used, ← number, dice.first_dice_accepted dies left others] at accepted
    rw [used, ← number, dice.first_dice_all dies left others] at same
    exact ⟨dies, number.trans count, others, used.trans (congrArg (diceValues dies ++ ·) same.symm), accepted.symm⟩
  · rw [used, dice.first_dice_spent_accepted _ dies rerolled spent fewer] at accepted
    have lengths : initial.length = dies.length := by simpa only [List.length_map] using accepted.length_eq
    omega

theorem reordered_spent (dice : Dice) (initial : List Die) (values other : List UInt32)
    (fewer : initial.length < dice.count.value.toNat) (spent : Spent dice initial values)
    (reordered : Reordered dice (diceValues initial ++ values) other) :
    ∃ dies rerolled, dies.length < dice.count.value.toNat ∧ Spent dice dies rerolled ∧
      other = diceValues dies ++ rerolled := by
  rcases dice.values_fall dice.count.value.toNat other with ⟨dies, left, number, others, used⟩ | short
  · have accepted := reordered.accepted
    rw [dice.first_dice_spent_accepted _ initial values spent fewer, used, ← number,
      dice.first_dice_accepted dies left others] at accepted
    have lengths : initial.length = dies.length := by simpa only [List.length_map] using accepted.length_eq
    omega
  · exact short

def laterEvents (events : List Event) : List Event :=
  events.filter fun event => event.kind.isDropped || event.kind.isExplosion

theorem later_events_append (events more : List Event) :
    laterEvents (events ++ more) = laterEvents events ++ laterEvents more :=
  List.filter_append events more

theorem later_rerolls (dice : Dice) (values : List UInt32) : laterEvents (rerollEvents dice .initial values) = [] := by
  induction values with
  | nil => rfl
  | cons value values ih => exact ih

theorem later_initial (dice : Dice) (dies : List Die) : laterEvents (diceEvents dice .initial dies) = [] := by
  induction dies with
  | nil => rfl
  | cons die dies ih =>
      change laterEvents (die.events dice .initial ++ diceEvents dice .initial dies) = []
      rw [later_events_append, Die.events, later_events_append, later_rerolls, ih]
      rfl

namespace Course

-- The first dice of a course are others, in which the same is kept.
structure Exchanged (dice : Dice) (first second : Course) : Prop where
  count : second.initial.length = dice.count.value.toNat
  obeys : ∀ die ∈ second.initial, die.Obeys dice
  chains : second.chains = first.chains
  kept : second.kept dice = first.kept dice
  later : laterEvents (first.events dice) = laterEvents (second.events dice)

theorem accepted_exchanged (dice : Dice) (course : Course) (dies : List Die)
    (count : dies.length = dice.count.value.toNat) (obeys : ∀ die ∈ dies, die.Obeys dice)
    (same : (dies.map Die.accepted).Perm (course.initial.map Die.accepted)) :
    Exchanged dice course ⟨dies, course.chains⟩ := by
  have sorts : sorted ⟨dies, course.chains⟩ = course.sorted := sort_permutation _ _ same
  have drops : dropEvents dice ⟨dies, course.chains⟩ = course.dropEvents dice := by
    rw [dropEvents, dropEvents, dropped, dropped, sorts]
  refine ⟨count, obeys, rfl, by rw [kept, kept, sorts], ?_⟩
  simp only [events, later_events_append, later_initial, drops]

theorem exchanged_follows (dice : Dice) (first second : Course) (exchanged : Exchanged dice first second)
    (follows : first.Follows dice) : second.Follows dice where
  count := exchanged.count
  obeys := exchanged.obeys
  chainCount := by
    rw [exchanged.chains, exchanged.kept]
    exact follows.chainCount
  chains := by
    rw [exchanged.chains]
    exact follows.chains

theorem exchanged_total (dice : Dice) (first second : Course) (exchanged : Exchanged dice first second) :
    dice.total? (second.kept dice) second.explosions = dice.total? (first.kept dice) first.explosions := by
  rw [exchanged.kept, explosions, exchanged.chains, explosions]

theorem reordered_exchanged (dice : Dice) (course : Course) (behind given other : List UInt32)
    (count : course.initial.length = dice.count.value.toNat) (obeys : ∀ die ∈ course.initial, die.Obeys dice)
    (used : given = course.values ++ behind) (reordered : Reordered dice given other) :
    ∃ second, Exchanged dice course second ∧ other = second.values ++ behind := by
  rw [used, values, List.append_assoc] at reordered
  obtain ⟨dies, number, others, split, same⟩ := reordered_dice dice course.initial _ other count obeys reordered
  exact ⟨_, accepted_exchanged dice course dies number others same, split.trans (List.append_assoc _ _ _).symm⟩

end Course

variable {σ : Type} [Sink σ]

structure SameLater (sink : σ) (first second : EStateM.Result (Stop RollError) (Table σ) Total) : Prop where
  outcome : outcome first = outcome second
  told : ∃ left events others, reached first = ⟨.values left, tellAll sink events⟩ ∧
    reached second = ⟨.values left, tellAll sink others⟩ ∧ laterEvents events = laterEvents others

theorem given_run_reordered (dice : Dice) (given other : List UInt32) (sink : σ) (reordered : Reordered dice given other)
    (result : EStateM.Result (Stop RollError) (Table σ) Total) (run : GivenRun dice given sink result) :
    ∃ second, GivenRun dice other sink second ∧ SameLater sink result second := by
  cases run with
  | total course left total follows used fits =>
      obtain ⟨second, exchanged, values⟩ :=
        course.reordered_exchanged dice left given other follows.count follows.obeys used reordered
      exact ⟨_, .total second left total (course.exchanged_follows dice second exchanged follows) values
        ((course.exchanged_total dice second exchanged).trans fits), rfl, left, _, _, rfl, rfl, exchanged.later⟩
  | overflow course left follows used large =>
      obtain ⟨second, exchanged, values⟩ :=
        course.reordered_exchanged dice left given other follows.count follows.obeys used reordered
      exact ⟨_, .overflow second left (course.exchanged_follows dice second exchanged follows) values
        ((course.exchanged_total dice second exchanged).trans large), rfl, left, _, _, rfl, rfl, exchanged.later⟩
  | initialSpent dies rerolled fewer spent used =>
      rw [used] at reordered
      obtain ⟨others, again, short, open_, values⟩ := reordered_spent dice dies rerolled other fewer spent reordered
      refine ⟨_, .initialSpent others again short open_ values, rfl, [], _, _, rfl, rfl, ?_⟩
      rw [later_events_append, later_events_append, later_initial, later_initial, later_rerolls, later_rerolls]
  | explosionSpent course dies rerolled count obeys fewer closed explode spent used =>
      obtain ⟨second, exchanged, values⟩ :=
        course.reordered_exchanged dice (diceValues dies ++ rerolled) given other count obeys used reordered
      rw [← exchanged.chains] at fewer closed spent
      rw [← exchanged.kept] at fewer
      refine ⟨_, .explosionSpent second dies rerolled exchanged.count exchanged.obeys fewer closed explode spent values,
        rfl, [], _, _, rfl, rfl, ?_⟩
      rw [later_events_append, exchanged.later, ← later_events_append]

theorem initial_order_irrelevant (dice : Dice) (given other : List UInt32) (sink : σ) (checked : dice.check = .ok ())
    (reordered : Reordered dice given other) :
    SameLater sink (dice.roll ⟨.values given, sink⟩) (dice.roll ⟨.values other, sink⟩) := by
  have run := roll_given dice given sink checked
  obtain ⟨second, again, same⟩ := given_run_reordered dice given other sink reordered _ run
  rw [given_run_checked dice other sink second checked again]
  exact same

theorem narrow_dice_reordered : narrowDice.check = .ok () ∧
    Reordered narrowDice [5, 1, 3, 4, 4, 0, 3, 2] [2, 3, 0, 4, 5, 4, 0, 3, 2] ∧
    SameLater Trace.empty (narrowDice.roll ⟨.values [5, 1, 3, 4, 4, 0, 3, 2], Trace.empty⟩)
      (narrowDice.roll ⟨.values [2, 3, 0, 4, 5, 4, 0, 3, 2], Trace.empty⟩) := by
  have reordered : Reordered narrowDice [5, 1, 3, 4, 4, 0, 3, 2] [2, 3, 0, 4, 5, 4, 0, 3, 2] :=
    ⟨by decide, by decide⟩
  exact ⟨rfl, reordered, initial_order_irrelevant narrowDice _ _ Trace.empty rfl reordered⟩

end DiceRoll
