import DiceRoll.Proofs.Rolling.Given
import DiceRoll.Proofs.Trace.Course

set_option autoImplicit false

namespace DiceRoll

theorem rerolled_below (dice : Dice) (low high : UInt32) (rerolls : dice.rerolls low = true)
    (accepts : dice.rerolls high = false) : low.toNat < high.toNat := by
  unfold Clauses.rerolls at rerolls accepts
  cases threshold : dice.rerollUpTo with
  | none => simp [threshold] at rerolls
  | some bound =>
      simp only [threshold, decide_eq_true_eq, decide_eq_false_iff_not, UInt32.le_iff_toNat_le] at rerolls accepts
      omega

namespace Trace

theorem tally_accepted (dice : Dice) (phase : Phase) (value : UInt32) (sum : Total) (nonneg : 0 ≤ sum.toInt)
    (notices : List Notice) :
    tally? .plus sum (.rolled ⟨phase.accepted, dice, value⟩ :: notices) =
      (Total.ofInt? (sum.toInt + (value.toNat * dice.multiply.toNat : Nat))).bind
        fun sum => tally? .plus sum notices := by
  rw [tally?, add_event_exact, Sign.exact, accepted_change, Event.weight]
  by_cases fits : ((value.toNat * dice.multiply.toNat : Nat) : Int) ≤ Total.greatest
  · rw [if_pos fits]
  · rw [if_neg fits, Total.of_int_large _ (by omega)]

theorem tally_rerolled (dice : Dice) (phase : Phase) (value : UInt32) (sum : Total) (notices : List Notice) :
    tally? .plus sum (.rolled ⟨phase.rerolled, dice, value⟩ :: notices) =
      if ((value.toNat * dice.multiply.toNat : Nat) : Int) ≤ Total.greatest then tally? .plus sum notices else none := by
  rw [tally?, add_event_exact, Sign.exact, rerolled_change, Event.weight, Int.add_zero, Total.of_int_self]
  split <;> rfl

theorem tally_drop (dice : Dice) (value : UInt32) (sum : Total)
    (room : ((value.toNat * dice.multiply.toNat : Nat) : Int) ≤ sum.toInt) (notices : List Notice) :
    tally? .plus sum (.rolled ⟨.dropped, dice, value⟩ :: notices) =
      (Total.ofInt? (sum.toInt - (value.toNat * dice.multiply.toNat : Nat))).bind
        fun sum => tally? .plus sum notices := by
  have fits : ((value.toNat * dice.multiply.toNat : Nat) : Int) ≤ Total.greatest :=
    Int.le_trans room (Total.le_greatest sum)
  rw [tally?, add_event_exact, Sign.exact, Event.weight, if_pos fits, Int.sub_eq_add_neg]
  rfl

-- A reroll shows less than the die that ends it, so it never needs more room.
theorem tally_die (dice : Dice) (phase : Phase) (die : Die) (obeys : die.Obeys dice) (sum : Total)
    (nonneg : 0 ≤ sum.toInt) (notices : List Notice) :
    tally? .plus sum ((die.events dice phase).map .rolled ++ notices) =
      (Total.ofInt? (sum.toInt + (die.accepted.toNat * dice.multiply.toNat : Nat))).bind
        fun sum => tally? .plus sum notices := by
  obtain ⟨rerolled, accepted⟩ := die
  induction rerolled with
  | nil => exact tally_accepted dice phase accepted sum nonneg notices
  | cons value rerolled ih =>
      obtain ⟨again, others⟩ := List.forall_mem_cons.1 obeys.rerolls
      have lighter : value.toNat * dice.multiply.toNat ≤ accepted.toNat * dice.multiply.toNat :=
        Nat.mul_le_mul_right _ (Nat.le_of_lt (rerolled_below dice value accepted again obeys.accepts))
      have first := tally_rerolled dice phase value sum
        ((Die.events dice phase ⟨rerolled, accepted⟩).map .rolled ++ notices)
      -- Where the reroll is too much alone, the accepted roll is too much as well.
      by_cases fits : ((value.toNat * dice.multiply.toNat : Nat) : Int) ≤ Total.greatest
      · rw [if_pos fits] at first
        exact first.trans (ih ⟨others, obeys.accepts⟩)
      · have large := Total.of_int_large (sum.toInt + (accepted.toNat * dice.multiply.toNat : Nat)) (by omega)
        rw [if_neg fits] at first
        exact first.trans (congrArg (Option.bind · _) large.symm)

theorem tally_dice (dice : Dice) (phase : Phase) (dies : List Die) (obeys : ∀ die ∈ dies, die.Obeys dice)
    (sum : Total) (nonneg : 0 ≤ sum.toInt) (notices : List Notice) :
    tally? .plus sum ((diceEvents dice phase dies).map .rolled ++ notices) =
      (Total.ofInt? (sum.toInt + (exactSum (dies.map Die.accepted) * dice.multiply.toNat : Nat))).bind
        fun sum => tally? .plus sum notices := by
  induction dies generalizing sum with
  | nil => simp [diceEvents, exactSum, Total.of_int_self]
  | cons die dies ih =>
      obtain ⟨first, others⟩ := List.forall_mem_cons.1 obeys
      have events : diceEvents dice phase (die :: dies) = die.events dice phase ++ diceEvents dice phase dies := rfl
      have split : exactSum ((die :: dies).map Die.accepted) * dice.multiply.toNat =
          die.accepted.toNat * dice.multiply.toNat + exactSum (dies.map Die.accepted) * dice.multiply.toNat :=
        Nat.add_mul _ _ _
      rw [events, List.map_append, List.append_assoc, tally_die dice phase die first sum nonneg, split]
      cases added : Total.ofInt? (sum.toInt + (die.accepted.toNat * dice.multiply.toNat : Nat)) with
      | none =>
          have large := Total.large_of_none _ (by omega) added
          rw [Total.of_int_large _ (by omega)]
          rfl
      | some next =>
          have value := (Total.of_int_some_iff _ next).1 added
          rw [Option.bind_some, ih others next (by omega), value, Int.add_assoc, ← Int.natCast_add]

theorem tally_drops (dice : Dice) (values : List UInt32) (sum : Total)
    (room : ((exactSum values * dice.multiply.toNat : Nat) : Int) ≤ sum.toInt) (notices : List Notice) :
    tally? .plus sum ((values.map fun value => Event.mk .dropped dice value).map .rolled ++ notices) =
      (Total.ofInt? (sum.toInt - (exactSum values * dice.multiply.toNat : Nat))).bind
        fun sum => tally? .plus sum notices := by
  induction values generalizing sum with
  | nil => simp [exactSum, Total.of_int_self]
  | cons value values ih =>
      have split : exactSum (value :: values) * dice.multiply.toNat =
          value.toNat * dice.multiply.toNat + exactSum values * dice.multiply.toNat := Nat.add_mul _ _ _
      have most := Total.le_greatest sum
      rw [split] at room
      obtain ⟨next, subtracted, nextExact⟩ :=
        Total.of_int_fits (sum.toInt - (value.toNat * dice.multiply.toNat : Nat))
          (Total.least_le_nonneg _ (by omega)) (by omega)
      have first := tally_drop dice value sum (by omega)
        ((values.map fun value => Event.mk .dropped dice value).map .rolled ++ notices)
      rw [subtracted, Option.bind_some, ih next (by omega), nextExact, Int.sub_sub, ← Int.natCast_add, ← split] at first
      exact first

-- The first dice need room together. What is kept of them and the explosions fit as the roll has a total.
theorem tally_course (dice : Dice) (course : Course) (total : Total) (follows : course.Follows dice)
    (fits : dice.total? (course.kept dice) course.explosions = some total) :
    tally? .plus 0 ((course.events dice).map .rolled) =
      if ((exactSum (course.initial.map Die.accepted) * dice.multiply.toNat : Nat) : Int) ≤ Total.greatest then some total
      else none := by
  have halves : exactSum (course.initial.map Die.accepted) * dice.multiply.toNat =
      exactSum (course.kept dice) * dice.multiply.toNat + exactSum (course.dropped dice) * dice.multiply.toNat := by
    rw [course.kept_and_dropped dice, Nat.add_mul]
  have value : total.toInt = (exactSum (course.kept dice) * dice.multiply.toNat +
      exactSum course.explosions * dice.multiply.toNat : Nat) := by
    rw [dice.total_value _ _ total fits, ← Nat.add_mul, Int.natCast_mul, Int.natCast_add]
  have most := Total.le_greatest total
  have zero := Total.to_int_zero
  rw [Course.events, List.map_append, List.map_append, List.append_assoc,
    tally_dice dice .initial course.initial follows.obeys 0 (Int.le_of_eq zero.symm), zero, Int.zero_add]
  by_cases room : ((exactSum (course.initial.map Die.accepted) * dice.multiply.toNat : Nat) : Int) ≤ Total.greatest
  · obtain ⟨all, allFits, allExact⟩ := Total.of_int_fits _ (Total.least_le_nonneg _ (by omega)) room
    obtain ⟨kept, keptFits, keptExact⟩ := Total.of_int_fits
      (all.toInt - (exactSum (course.dropped dice) * dice.multiply.toNat : Nat)) (Total.least_le_nonneg _ (by omega))
      (by omega)
    have last := tally_dice dice .explosion course.chains.flatten (chains_obey dice _ follows.chains) kept (by omega) []
    have final : Total.ofInt? (kept.toInt + (exactSum course.explosions * dice.multiply.toNat : Nat)) = some total :=
      (Total.of_int_some_iff _ total).2 (by omega)
    rw [List.append_nil] at last
    rw [if_pos room, allFits, Option.bind_some, Course.dropEvents, tally_drops dice _ all (by omega), keptFits,
      Option.bind_some, last]
    exact congrArg (Option.bind · _) final
  · rw [if_neg room, Total.of_int_large _ (by omega)]
    rfl

end Trace

def initialValues (events : List Event) : List UInt32 :=
  (events.filter fun event => event.kind == .initial).map Event.value

theorem initial_values_append (events more : List Event) :
    initialValues (events ++ more) = initialValues events ++ initialValues more := by
  simp only [initialValues, List.filter_append, List.map_append]

theorem initial_values_other (events : List Event) (other : ∀ event ∈ events, event.kind ≠ .initial) :
    initialValues events = [] := by
  have none : events.filter (fun event => event.kind == .initial) = [] :=
    List.filter_eq_nil_iff.2 fun event member => by simpa using other event member
  rw [initialValues, none]
  rfl

theorem initial_values_rerolls (dice : Dice) (phase : Phase) (values : List UInt32) :
    initialValues (rerollEvents dice phase values) = [] := by
  apply initial_values_other
  intro event member
  obtain ⟨value, _, rfl⟩ := List.mem_map.1 member
  cases phase <;> nofun

theorem initial_values_die (dice : Dice) (phase : Phase) (die : Die) :
    initialValues (die.events dice phase) = initialValues [⟨phase.accepted, dice, die.accepted⟩] := by
  rw [Die.events, initial_values_append, initial_values_rerolls, List.nil_append]

theorem initial_values_dice (dice : Dice) (dies : List Die) :
    initialValues (diceEvents dice .initial dies) = dies.map Die.accepted := by
  induction dies with
  | nil => rfl
  | cons die dies ih =>
      change initialValues (die.events dice .initial ++ diceEvents dice .initial dies) = _
      rw [initial_values_append, ih, initial_values_die]
      rfl

theorem initial_values_explosions (dice : Dice) (dies : List Die) :
    initialValues (diceEvents dice .explosion dies) = [] := by
  induction dies with
  | nil => rfl
  | cons die dies ih =>
      change initialValues (die.events dice .explosion ++ diceEvents dice .explosion dies) = _
      rw [initial_values_append, ih, initial_values_die]
      rfl

theorem initial_values_drops (dice : Dice) (course : Course) : initialValues (course.dropEvents dice) = [] := by
  apply initial_values_other
  intro event member
  obtain ⟨value, _, rfl⟩ := List.mem_map.1 member
  nofun

theorem initial_values_course (dice : Dice) (course : Course) :
    initialValues (course.events dice) = course.initial.map Die.accepted := by
  rw [Course.events, initial_values_append, initial_values_append, initial_values_dice, initial_values_drops,
    initial_values_explosions, List.append_nil, List.append_nil]

-- The dropped dice take up room as well, so that a roll may have a total that its trace has not.
theorem single_roll_total (dice : Dice) (roller : Roller) (total : Total) (after : Table Trace)
    (ran : dice.roll ⟨roller, Trace.empty⟩ = .ok total after) :
    after.sink.total? =
      if ((exactSum (initialValues after.sink.events.toList) * dice.multiply.toNat : Nat) : Int) ≤ Total.greatest then
        some total
      else none := by
  obtain ⟨course, follows, passes, fits⟩ := roll_total_course dice _ after total ran
  rw [passes.told, tell_all_notices, Trace.told_events, events_told_rolled, initial_values_course, Trace.total_told]
  exact Trace.tally_course dice course total follows fits

def highestTwo : Dice :=
  ⟨⟨.one, 6, 3, none, ⟨.high, 2⟩, none, 1⟩, "3d6h2"⟩

theorem highest_two_total : ∃ after, highestTwo.roll ⟨.values [5, 2, 6], Trace.empty⟩ = .ok 11 after ∧
    after.sink.total? =
      if ((exactSum (initialValues after.sink.events.toList) * highestTwo.multiply.toNat : Nat) : Int) ≤ Total.greatest then
        some 11
      else none := by
  have ran : ∃ after, highestTwo.roll ⟨.values [5, 2, 6], Trace.empty⟩ = .ok 11 after :=
    ⟨_, by simp only [Dice.roll, Dice.rollUnchecked, sort_insertion]; rfl⟩
  obtain ⟨after, ran⟩ := ran
  exact ⟨after, ran, single_roll_total highestTwo (.values [5, 2, 6]) 11 after ran⟩

def wideLower : Dice :=
  ⟨⟨.one, 4294967295, 2, none, ⟨.low, 1⟩, none, 4294967295⟩, "2d4294967295l1x4294967295"⟩

theorem large_drop_total : ∃ after, wideLower.roll ⟨.values [4294967295, 1], Trace.empty⟩ = .ok 4294967295 after ∧
    after.sink.total? = none :=
  ⟨_, by simp only [Dice.roll, Dice.rollUnchecked, sort_insertion]; rfl, rfl⟩

end DiceRoll
