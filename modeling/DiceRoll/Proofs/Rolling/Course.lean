import DiceRoll.Proofs.Keep
import DiceRoll.Proofs.Rolling.Chain
import DiceRoll.Proofs.Total

set_option autoImplicit false

namespace DiceRoll

def Dice.keptCount (dice : Dice) : Nat :=
  min dice.keep.count.toNat dice.count.value.toNat

structure Course where
  initial : List Die
  chains : List (List Die)
deriving DecidableEq, Repr

namespace Course

def sorted (course : Course) : List UInt32 :=
  (course.initial.map Die.accepted).mergeSort (· ≤ ·)

def kept (dice : Dice) (course : Course) : List UInt32 :=
  (dice.keep.split course.sorted).1

def dropped (dice : Dice) (course : Course) : List UInt32 :=
  (dice.keep.split course.sorted).2

def explosions (course : Course) : List UInt32 :=
  course.chains.flatten.map Die.accepted

def values (course : Course) : List UInt32 :=
  diceValues course.initial ++ diceValues course.chains.flatten

def dropEvents (dice : Dice) (course : Course) : List Event :=
  (course.dropped dice).map fun value => ⟨.dropped, dice, value⟩

def events (dice : Dice) (course : Course) : List Event :=
  diceEvents dice .initial course.initial ++ course.dropEvents dice ++
    diceEvents dice .explosion course.chains.flatten

theorem split_fallen (dice : Dice) (course : Course) :
    (course.kept dice ++ course.dropped dice).Perm (course.initial.map Die.accepted) :=
  (dice.keep.split_permutation course.sorted).trans (List.mergeSort_perm _ _)

theorem kept_fallen (dice : Dice) (course : Course) (value : UInt32) (kept : value ∈ course.kept dice) :
    ∃ die ∈ course.initial, die.accepted = value :=
  List.mem_map.1 ((course.split_fallen dice).mem_iff.1 (List.mem_append_left _ kept))

theorem dropped_fallen (dice : Dice) (course : Course) (value : UInt32) (dropped : value ∈ course.dropped dice) :
    ∃ die ∈ course.initial, die.accepted = value :=
  List.mem_map.1 ((course.split_fallen dice).mem_iff.1 (List.mem_append_right _ dropped))

structure Follows (dice : Dice) (course : Course) : Prop where
  count : course.initial.length = dice.count.value.toNat
  obeys : ∀ die ∈ course.initial, die.Obeys dice
  chainCount : course.chains.length = (course.kept dice).countP dice.explodes
  chains : ∀ chain ∈ course.chains, Chain dice chain

theorem kept_length (dice : Dice) (course : Course) (follows : course.Follows dice) :
    (course.kept dice).length = dice.keptCount := by
  rw [kept, Keep.split_length, sorted, List.length_mergeSort, List.length_map, follows.count, Dice.keptCount]

end Course

variable {σ : Type} [Sink σ]

structure InitialStop (dice : Dice) (limit : Nat) (table : Table σ) (dies : List Die) (rerolled : List UInt32)
    (after : Table σ) (stop : Stop RollError) : Prop where
  fewer : dies.length < dice.count.value.toNat
  unfinished : Unfinished dice .initial limit table dies rerolled after stop

structure ExplosionStop (dice : Dice) (limit : Nat) (table middle : Table σ) (course : Course) (dies : List Die)
    (rerolled : List UInt32) (after : Table σ) (stop : Stop RollError) : Prop where
  count : course.initial.length = dice.count.value.toNat
  obeys : ∀ die ∈ course.initial, die.Obeys dice
  passes : Passes dice table (diceValues course.initial)
    (diceEvents dice .initial course.initial ++ course.dropEvents dice) middle
  fewer : course.chains.length < (course.kept dice).countP dice.explodes
  openChain : OpenChain dice limit middle course.chains dies rerolled after stop

inductive RollRun (dice : Dice) (limit : Nat) (table : Table σ) :
    EStateM.Result (Stop RollError) (Table σ) Total → Prop where
  | total (course : Course) (after : Table σ) (total : Total) (follows : course.Follows dice)
      (passes : Passes dice table course.values (course.events dice) after)
      (fits : dice.total? (course.kept dice) course.explosions = some total) :
      RollRun dice limit table (.ok total after)
  | overflow (course : Course) (after : Table σ) (follows : course.Follows dice)
      (passes : Passes dice table course.values (course.events dice) after)
      (large : dice.total? (course.kept dice) course.explosions = none) :
      RollRun dice limit table (.error (.failed (.overflow dice.source)) after)
  | initialStop (dies : List Die) (rerolled : List UInt32) (after : Table σ) (stop : Stop RollError)
      (stopped : InitialStop dice limit table dies rerolled after stop) :
      RollRun dice limit table (.error stop after)
  | explosionStop (middle : Table σ) (course : Course) (dies : List Die) (rerolled : List UInt32) (after : Table σ)
      (stop : Stop RollError) (stopped : ExplosionStop dice limit table middle course dies rerolled after stop) :
      RollRun dice limit table (.error stop after)

theorem total_permutation (dice : Dice) (kept explosions same : List UInt32) (permuted : explosions.Perm same) :
    dice.total? kept explosions = dice.total? kept same := by
  rw [Dice.total_exact, Dice.total_exact, exact_sum_permutation explosions same permuted]

-- The kept values of the latest dice first are those of the dice in the order they fell.
theorem reversed_split (dice : Dice) (course : Course) :
    dice.keep.split (((course.initial.map Die.accepted).reverse ++ []).mergeSort (· ≤ ·)) =
      (course.kept dice, course.dropped dice) := by
  rw [List.append_nil, sort_permutation _ _ (List.reverse_perm _)]
  rfl

theorem roll_unchecked_run (dice : Dice) (table : Table σ) :
    RollRun dice table.roller.states table (dice.rollUnchecked table) := by
  have states : Rolling.states (ε := RollError) table = .ok table.roller.states table := rfl
  rw [Dice.rollUnchecked, Rolling.bind_ok _ _ _ _ _ states]
  have first := roll_dice_run (ε := RollError) dice table.roller.states dice.count.value.toNat table []
  cases run : dice.rollDice table.roller.states dice.count.value.toNat [] table with
  | error stop after =>
      rw [run] at first
      rw [Rolling.bind_error _ _ _ _ _ run]
      cases first with
      | stopped dies rerolled _ _ fewer unfinished => exact .initialStop dies rerolled after stop ⟨fewer, unfinished⟩
  | ok rolls fallen =>
      rw [run] at first
      rw [Rolling.bind_ok _ _ _ _ _ run]
      cases first with
      | rolled dies _ count obeys passes =>
          -- What is kept is settled before any die explodes, so a course without chains has the same split.
          simp only [reversed_split dice ⟨dies, []⟩]
          obtain ⟨middle, told, drops⟩ := tell_dropped_run (ε := RollError) dice (Course.dropped dice ⟨dies, []⟩) fallen
          rw [Rolling.bind_ok _ _ _ _ _ told]
          have reached := passes_append _ _ _ _ _ _ _ _ passes drops
          rw [List.append_nil] at reached
          have rest := roll_chains_run (ε := RollError) dice table.roller.states middle (Course.kept dice ⟨dies, []⟩) []
          cases exploded : dice.rollChains table.roller.states (Course.kept dice ⟨dies, []⟩) [] middle with
          | error stop after =>
              rw [exploded] at rest
              rw [Rolling.bind_error _ _ _ _ _ exploded]
              cases rest with
              | stopped chains open_ rerolled _ _ fewer openChain =>
                  exact .explosionStop middle ⟨dies, chains⟩ open_ rerolled after stop
                    ⟨count, obeys, reached, fewer, openChain⟩
          | ok explosions after =>
              rw [exploded] at rest
              rw [Rolling.bind_ok _ _ _ _ _ exploded]
              cases rest with
              | rolled chains _ length closed more =>
                  have follows : Course.Follows dice ⟨dies, chains⟩ := ⟨count, obeys, length, closed⟩
                  have whole := passes_append _ _ _ _ _ _ _ _ reached more
                  have same := total_permutation dice (Course.kept dice ⟨dies, []⟩)
                    ((chains.flatten.map Die.accepted).reverse ++ []) (Course.explosions ⟨dies, chains⟩)
                    (by rw [List.append_nil]; exact List.reverse_perm _)
                  rw [same]
                  cases fits : dice.total? (Course.kept dice ⟨dies, []⟩) (Course.explosions ⟨dies, chains⟩) with
                  | none => exact .overflow ⟨dies, chains⟩ after follows whole fits
                  | some total => exact .total ⟨dies, chains⟩ after total follows whole fits

end DiceRoll
