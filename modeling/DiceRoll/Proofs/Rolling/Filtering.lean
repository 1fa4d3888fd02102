import DiceRoll.Proofs.Rolling.Guard
import DiceRoll.Proofs.Rolling.Spent

set_option autoImplicit false

namespace DiceRoll

def Die.atOnce (die : Die) : Die :=
  ⟨[], die.accepted⟩

theorem at_once_accepted (dies : List Die) : (dies.map Die.atOnce).map Die.accepted = dies.map Die.accepted := by
  rw [List.map_map]
  rfl

theorem at_once_values (dies : List Die) : diceValues (dies.map Die.atOnce) = dies.map Die.accepted := by
  induction dies with
  | nil => rfl
  | cons die dies ih => exact congrArg (List.cons die.accepted) ih

theorem at_once_events (dice : Dice) (phase : Phase) (dies : List Die) :
    diceEvents dice phase (dies.map Die.atOnce) = dies.map fun die => ⟨phase.accepted, dice, die.accepted⟩ := by
  induction dies with
  | nil => rfl
  | cons die dies ih => exact congrArg (List.cons _) ih

namespace Event

def shown (event : Event) : EventKind × UInt32 :=
  (event.kind, event.value)

end Event

def settledShown (events : List Event) : List (EventKind × UInt32) :=
  (events.filter fun event => !event.kind.isReroll).map Event.shown

theorem settled_shown_append (events more : List Event) :
    settledShown (events ++ more) = settledShown events ++ settledShown more := by
  simp only [settledShown, List.filter_append, List.map_append]

theorem settled_shown_rerolls (dice : Dice) (phase : Phase) (values : List UInt32) :
    settledShown (rerollEvents dice phase values) = [] := by
  induction values with
  | nil => rfl
  | cons value values ih => cases phase <;> exact ih

theorem settled_shown_dice (dice : Dice) (phase : Phase) (dies : List Die) :
    settledShown (diceEvents dice phase dies) = dies.map fun die => (phase.accepted, die.accepted) := by
  induction dies with
  | nil => rfl
  | cons die dies ih =>
      have last : settledShown [⟨phase.accepted, dice, die.accepted⟩] = [(phase.accepted, die.accepted)] := by
        cases phase <;> rfl
      change settledShown (die.events dice phase ++ diceEvents dice phase dies) = _
      rw [settled_shown_append, Die.events, settled_shown_append, settled_shown_rerolls, last, ih]
      rfl

theorem settled_shown_drops (dice : Dice) (values : List UInt32) :
    settledShown (values.map fun value => ⟨.dropped, dice, value⟩) = values.map fun value => (.dropped, value) := by
  induction values with
  | nil => rfl
  | cons value values ih => exact congrArg (List.cons _) ih

namespace Dice

-- The same term without its reroll clause, whatever its text.
def unrerolled (dice : Dice) (source : String) : Dice :=
  { dice with rerollUpTo := none, source := source }

theorem unrerolled_checked (dice : Dice) (source : String) (checked : dice.check = .ok ()) :
    (dice.unrerolled source).check = .ok () := by
  obtain ⟨value, settles⟩ := dice.check_ok_iff_settles.1 checked
  exact (dice.unrerolled source).check_ok_iff_settles.2 ⟨value, settles.face, rfl, settles.final⟩

theorem accepted_above (dice : Dice) (low : UInt32) (threshold : dice.rerollUpTo = some low) (given : List UInt32) :
    dice.accepted given = given.filter (low < ·) := by
  refine List.filter_congr fun value _ => ?_
  rw [Clauses.rerolls, threshold, ← decide_not]
  exact decide_eq_decide.2 UInt32.not_le

theorem unrerolled_obeys (dice : Dice) (source : String) (die : Die) : die.atOnce.Obeys (dice.unrerolled source) :=
  ⟨nofun, rfl⟩

theorem unrerolled_total (dice : Dice) (source : String) (kept explosions : List UInt32) :
    (dice.unrerolled source).total? kept explosions = dice.total? kept explosions :=
  rfl

theorem unrerolled_chain (dice : Dice) (source : String) (chain : List Die) (obeys : Chain dice chain) :
    Chain (dice.unrerolled source) (chain.map Die.atOnce) := by
  obtain ⟨before, last, rfl, explode, final⟩ := obeys.ends
  refine ⟨List.forall_mem_map.2 fun die _ => dice.unrerolled_obeys source die, before.map Die.atOnce, last.atOnce,
    by simp, List.forall_mem_map.2 explode, final⟩

end Dice

namespace Course

def atOnce (course : Course) : Course :=
  ⟨course.initial.map Die.atOnce, course.chains.map (List.map Die.atOnce)⟩

theorem at_once_flatten (chains : List (List Die)) :
    (chains.map (List.map Die.atOnce)).flatten = chains.flatten.map Die.atOnce :=
  List.map_flatten.symm

theorem at_once_sorted (course : Course) : course.atOnce.sorted = course.sorted := by
  rw [sorted, atOnce, at_once_accepted, sorted]

theorem at_once_split (dice : Dice) (source : String) (course : Course) :
    course.atOnce.kept (dice.unrerolled source) = course.kept dice ∧
      course.atOnce.dropped (dice.unrerolled source) = course.dropped dice := by
  rw [kept, kept, dropped, dropped, at_once_sorted]
  exact ⟨rfl, rfl⟩

theorem at_once_explosions (course : Course) : course.atOnce.explosions = course.explosions := by
  rw [explosions, atOnce, at_once_flatten, at_once_accepted]
  rfl

theorem at_once_total (dice : Dice) (source : String) (course : Course) :
    (dice.unrerolled source).total? (course.atOnce.kept (dice.unrerolled source)) course.atOnce.explosions =
      dice.total? (course.kept dice) course.explosions := by
  rw [(course.at_once_split dice source).1, at_once_explosions, dice.unrerolled_total]

theorem at_once_values (dice : Dice) (course : Course) (obeys : ∀ die ∈ course.initial, die.Obeys dice)
    (closed : ∀ chain ∈ course.chains, Chain dice chain) : course.atOnce.values = dice.accepted course.values := by
  rw [values, values, dice.accepted_append, dice.accepted_dice _ obeys,
    dice.accepted_dice _ (chains_obey dice _ closed), atOnce, at_once_flatten, DiceRoll.at_once_values,
    DiceRoll.at_once_values]

theorem at_once_given (dice : Dice) (course : Course) (left : List UInt32) (follows : course.Follows dice) :
    dice.accepted (course.values ++ left) = course.atOnce.values ++ dice.accepted left := by
  rw [dice.accepted_append, course.at_once_values dice follows.obeys follows.chains]

theorem at_once_events (dice : Dice) (source : String) (course : Course) :
    (course.atOnce.events (dice.unrerolled source)).map Event.shown = settledShown (course.events dice) := by
  rw [events, events, settled_shown_append, settled_shown_append, settled_shown_dice, settled_shown_dice, dropEvents,
    dropEvents, settled_shown_drops, (course.at_once_split dice source).2, atOnce, at_once_flatten,
    DiceRoll.at_once_events, DiceRoll.at_once_events]
  simp only [List.map_append, List.map_map]
  rfl

theorem at_once_obeys (dice : Dice) (source : String) (course : Course) :
    ∀ die ∈ course.atOnce.initial, die.Obeys (dice.unrerolled source) :=
  List.forall_mem_map.2 fun die _ => dice.unrerolled_obeys source die

theorem at_once_chains (dice : Dice) (source : String) (course : Course)
    (closed : ∀ chain ∈ course.chains, Chain dice chain) :
    ∀ chain ∈ course.atOnce.chains, Chain (dice.unrerolled source) chain :=
  List.forall_mem_map.2 fun chain member => dice.unrerolled_chain source chain (closed chain member)

theorem at_once_follows (dice : Dice) (source : String) (course : Course) (follows : course.Follows dice) :
    course.atOnce.Follows (dice.unrerolled source) where
  count := (List.length_map _).trans follows.count
  obeys := course.at_once_obeys dice source
  chainCount := by
    rw [(course.at_once_split dice source).1]
    exact (List.length_map _).trans follows.chainCount
  chains := course.at_once_chains dice source follows.chains

end Course

theorem open_values (dice : Dice) (dies : List Die) (rerolled : List UInt32) (spent : Spent dice dies rerolled) :
    dice.accepted (diceValues dies ++ rerolled) = diceValues (dies.map Die.atOnce) ++ [] := by
  rw [dice.accepted_append, dice.accepted_dice dies spent.obeys, dice.accepted_rerolled rerolled spent.rerolls,
    at_once_values]

theorem open_events (dice other : Dice) (phase : Phase) (dies : List Die) (rerolled : List UInt32) :
    (diceEvents other phase (dies.map Die.atOnce) ++ rerollEvents other phase []).map Event.shown =
      settledShown (diceEvents dice phase dies ++ rerollEvents dice phase rerolled) := by
  rw [settled_shown_append, settled_shown_dice, settled_shown_rerolls, at_once_events, List.append_nil,
    rerollEvents, List.map_nil, List.append_nil, List.map_map]
  rfl

theorem open_spent (dice : Dice) (source : String) (dies : List Die) :
    Spent (dice.unrerolled source) (dies.map Die.atOnce) [] :=
  ⟨List.forall_mem_map.2 fun die _ => dice.unrerolled_obeys source die, nofun⟩

variable {σ : Type} [Sink σ]

-- What a roll has in common with that of another term which is only given the values above a threshold. They come to the
-- same total, or both overflow, or both run out of values.
inductive Filtered (dice other : Dice) (low : UInt32) (sink : σ) :
    EStateM.Result (Stop RollError) (Table σ) Total → EStateM.Result (Stop RollError) (Table σ) Total → Prop where
  | total (total : Total) (left : List UInt32) (events plain : List Event)
      (same : plain.map Event.shown = settledShown events) :
      Filtered dice other low sink (.ok total ⟨.values left, tellAll sink events⟩)
        (.ok total ⟨.values (left.filter (low < ·)), tellAll sink plain⟩)
  | overflow (left : List UInt32) (events plain : List Event) (same : plain.map Event.shown = settledShown events) :
      Filtered dice other low sink
        (.error (.failed (.overflow dice.source)) ⟨.values left, tellAll sink events⟩)
        (.error (.failed (.overflow other.source)) ⟨.values (left.filter (low < ·)), tellAll sink plain⟩)
  | exhausted (events plain : List Event) (same : plain.map Event.shown = settledShown events) :
      Filtered dice other low sink (.error .exhausted ⟨.values [], tellAll sink events⟩)
        (.error .exhausted ⟨.values [], tellAll sink plain⟩)

theorem filtered_ends (dice other : Dice) (low : UInt32) (sink : σ)
    (first second : EStateM.Result (Stop RollError) (Table σ) Total)
    (filtered : Filtered dice other low sink first second) : Ends first ↔ Ends second := by
  cases filtered with
  | total total => exact iff_of_true (.total total _) (.total total _)
  | overflow => exact iff_of_true (.failed _ _) (.failed _ _)
  | exhausted => exact iff_of_false nofun nofun

theorem given_run_filtered (dice : Dice) (low : UInt32) (source : String) (given : List UInt32) (sink : σ)
    (threshold : dice.rerollUpTo = some low) (result : EStateM.Result (Stop RollError) (Table σ) Total)
    (run : GivenRun dice given sink result) :
    ∃ other, GivenRun (dice.unrerolled source) (given.filter (low < ·)) sink other ∧
      Filtered dice (dice.unrerolled source) low sink result other := by
  have above := dice.accepted_above low threshold
  cases run with
  | total course left total follows used fits =>
      have values : given.filter (low < ·) = course.atOnce.values ++ left.filter (low < ·) := by
        rw [← above, ← above, used, course.at_once_given dice left follows]
      exact ⟨_, .total course.atOnce _ total (course.at_once_follows dice source follows) values
        ((course.at_once_total dice source).trans fits), .total total left _ _ (course.at_once_events dice source)⟩
  | overflow course left follows used large =>
      have values : given.filter (low < ·) = course.atOnce.values ++ left.filter (low < ·) := by
        rw [← above, ← above, used, course.at_once_given dice left follows]
      exact ⟨_, .overflow course.atOnce _ (course.at_once_follows dice source follows) values
        ((course.at_once_total dice source).trans large), .overflow left _ _ (course.at_once_events dice source)⟩
  | initialSpent dies rerolled fewer spent used =>
      exact ⟨_, .initialSpent (dies.map Die.atOnce) [] (by rw [List.length_map]; exact fewer)
        (open_spent dice source dies) (by rw [← above, used, open_values dice dies rerolled spent]),
        .exhausted _ _ (open_events dice _ .initial dies rerolled)⟩
  | explosionSpent course dies rerolled count obeys fewer closed explode spent used =>
      have last : Spent dice dies rerolled := ⟨(List.forall_mem_append.1 spent.obeys).2, spent.rerolls⟩
      have values : given.filter (low < ·) = course.atOnce.values ++ (diceValues (dies.map Die.atOnce) ++ []) := by
        rw [← above, used, dice.accepted_append, course.at_once_values dice obeys closed, open_values dice dies rerolled last]
      have whole : Spent (dice.unrerolled source) (course.atOnce.chains.flatten ++ dies.map Die.atOnce) [] := by
        rw [Course.atOnce, Course.at_once_flatten, ← List.map_append]
        exact open_spent dice source _
      refine ⟨_, .explosionSpent course.atOnce (dies.map Die.atOnce) [] ((List.length_map _).trans count)
        (course.at_once_obeys dice source) ?_ (course.at_once_chains dice source closed)
        (List.forall_mem_map.2 explode) whole values, .exhausted _ _ ?_⟩
      · rw [(course.at_once_split dice source).1]
        exact Nat.lt_of_le_of_lt (Nat.le_of_eq (List.length_map _)) fewer
      · rw [List.map_append, settled_shown_append, course.at_once_events dice source,
          open_events dice _ .explosion dies rerolled]

theorem rerolling_filters (dice : Dice) (low : UInt32) (source : String) (given : List UInt32) (sink : σ)
    (threshold : dice.rerollUpTo = some low) (checked : dice.check = .ok ()) :
    (Ends (dice.roll ⟨.values given, sink⟩) ↔
        Ends ((dice.unrerolled source).roll ⟨.values (given.filter (low < ·)), sink⟩)) ∧
      Filtered dice (dice.unrerolled source) low sink (dice.roll ⟨.values given, sink⟩)
        ((dice.unrerolled source).roll ⟨.values (given.filter (low < ·)), sink⟩) := by
  have run := roll_given dice given sink checked
  obtain ⟨other, plain, filtered⟩ := given_run_filtered dice low source given sink threshold _ run
  rw [given_run_checked _ _ sink other (dice.unrerolled_checked source checked) plain]
  exact ⟨filtered_ends _ _ low sink _ _ filtered, filtered⟩

def filteredPair : Dice :=
  ⟨⟨.one, 6, 3, some 1, ⟨.high, 2⟩, some 5, 2⟩, "3d6r1h2!5x2"⟩

theorem filtered_pair_filters : filteredPair.rerollUpTo = some 1 ∧ filteredPair.check = .ok () ∧
    (Ends (filteredPair.roll ⟨.values [4, 1, 2, 6, 1, 5, 1, 3, 1], Trace.empty⟩) ↔
        Ends ((filteredPair.unrerolled "3d6h2!5x2").roll ⟨.values [4, 2, 6, 5, 3], Trace.empty⟩)) ∧
      Filtered filteredPair (filteredPair.unrerolled "3d6h2!5x2") 1 Trace.empty
        (filteredPair.roll ⟨.values [4, 1, 2, 6, 1, 5, 1, 3, 1], Trace.empty⟩)
        ((filteredPair.unrerolled "3d6h2!5x2").roll ⟨.values [4, 2, 6, 5, 3], Trace.empty⟩) :=
  ⟨rfl, rfl, rerolling_filters filteredPair 1 "3d6h2!5x2" [4, 1, 2, 6, 1, 5, 1, 3, 1] Trace.empty rfl rfl⟩

end DiceRoll
