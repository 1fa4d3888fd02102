import DiceRoll.Proofs.Rolling.EventOrder
import Mathlib.Data.List.Infix

set_option autoImplicit false

namespace DiceRoll

namespace Dice

def accepted (dice : Dice) (given : List UInt32) : List UInt32 :=
  given.filter fun value => !dice.rerolls value

-- The shortest run at the front of values that holds as many values that do not explode.
def shortestRun (dice : Dice) (ends : Nat) (values : List UInt32) : Option (List UInt32) :=
  values.inits.find? fun run => run.countP (fun value => !dice.explodes value) == ends

def counted? (dice : Dice) (given : List UInt32) : Option (List UInt32 × List UInt32) :=
  let count := dice.count.value.toNat
  let accepted := dice.accepted given
  if accepted.length < count then none
  else
    let kept := (dice.keep.split ((accepted.take count).mergeSort (· ≤ ·))).1
    (dice.shortestRun (kept.countP dice.explodes) (accepted.drop count)).map fun explosions => (kept, explosions)

-- The total in exact numbers. It is refused if it or its half before the multiplier does not fit into 64 bits.
def exactTotal (dice : Dice) (kept explosions : List UInt32) : Except (Stop RollError) Int :=
  let sum : Int := exactSum kept + exactSum explosions
  if sum ≤ Total.greatest ∧ sum * dice.multiply.toNat ≤ Total.greatest then .ok (sum * dice.multiply.toNat)
  else .error (.failed (.overflow dice.source))

def reference (dice : Dice) (given : List UInt32) : Except (Stop RollError) Int :=
  match dice.counted? given with
  | none => .error .exhausted
  | some (kept, explosions) => dice.exactTotal kept explosions

theorem accepted_append (dice : Dice) (given more : List UInt32) :
    dice.accepted (given ++ more) = dice.accepted given ++ dice.accepted more :=
  List.filter_append given more

theorem accepted_rerolled (dice : Dice) (values : List UInt32) (rerolls : ∀ value ∈ values, dice.rerolls value = true) :
    dice.accepted values = [] := by
  apply List.filter_eq_nil_iff.2
  intro value member
  simp [rerolls value member]

theorem accepted_dice (dice : Dice) (dies : List Die) (obeys : ∀ die ∈ dies, die.Obeys dice) :
    dice.accepted (diceValues dies) = dies.map Die.accepted := by
  induction dies with
  | nil => rfl
  | cons die dies ih =>
      obtain ⟨first, rest⟩ := List.forall_mem_cons.1 obeys
      have last : dice.accepted [die.accepted] = [die.accepted] := by simp [accepted, first.accepts]
      change dice.accepted (die.values ++ diceValues dies) = die.accepted :: dies.map Die.accepted
      rw [accepted_append, Die.values, accepted_append, accepted_rerolled dice _ first.rerolls, last, ih rest]
      rfl

theorem shortest_run_zero (dice : Dice) (values : List UInt32) : dice.shortestRun 0 values = some [] := by
  cases values <;> simp [shortestRun]

theorem shortest_run_nil (dice : Dice) (ends : Nat) : dice.shortestRun (ends + 1) [] = none := by
  simp [shortestRun]

theorem shortest_run_cons (dice : Dice) (ends : Nat) (value : UInt32) (values : List UInt32) :
    dice.shortestRun (ends + 1) (value :: values) =
      (dice.shortestRun (if dice.explodes value then ends + 1 else ends) values).map (List.cons value) := by
  unfold shortestRun
  rw [List.inits_cons, List.find?_cons_of_neg (by simp), List.find?_map]
  congr 2
  funext run
  cases explodes : dice.explodes value <;> simp [explodes]

theorem shortest_run_exploding (dice : Dice) (ends : Nat) (dies : List Die) (rest : List UInt32)
    (explode : ∀ die ∈ dies, dice.explodes die.accepted = true) :
    dice.shortestRun (ends + 1) (dies.map Die.accepted ++ rest) =
      (dice.shortestRun (ends + 1) rest).map (dies.map Die.accepted ++ ·) := by
  induction dies with
  | nil => simp
  | cons die dies ih =>
      obtain ⟨first, others⟩ := List.forall_mem_cons.1 explode
      rw [List.map_cons, List.cons_append, shortest_run_cons, if_pos first, ih others, Option.map_map]
      rfl

theorem shortest_run_chain (dice : Dice) (ends : Nat) (chain : List Die) (rest : List UInt32)
    (obeys : Chain dice chain) :
    dice.shortestRun (ends + 1) (chain.map Die.accepted ++ rest) =
      (dice.shortestRun ends rest).map (chain.map Die.accepted ++ ·) := by
  obtain ⟨before, last, rfl, explode, final⟩ := obeys.ends
  rw [List.map_append, List.append_assoc, shortest_run_exploding dice ends before _ explode, List.map_singleton,
    List.singleton_append, shortest_run_cons, if_neg (by simp [final]), Option.map_map]
  simp only [Function.comp_def, List.append_assoc, List.singleton_append]

theorem shortest_run_chains (dice : Dice) (ends : Nat) (chains : List (List Die)) (rest : List UInt32)
    (closed : ∀ chain ∈ chains, Chain dice chain) :
    dice.shortestRun (chains.length + ends) (chains.flatten.map Die.accepted ++ rest) =
      (dice.shortestRun ends rest).map (chains.flatten.map Die.accepted ++ ·) := by
  induction chains with
  | nil => simp
  | cons chain chains ih =>
      obtain ⟨first, others⟩ := List.forall_mem_cons.1 closed
      have more : (chain :: chains).length + ends = chains.length + ends + 1 := Nat.succ_add _ _
      rw [more, List.flatten_cons, List.map_append, List.append_assoc, shortest_run_chain dice _ chain _ first,
        ih others, Option.map_map]
      simp only [Function.comp_def, List.append_assoc]

theorem counted_given (dice : Dice) (initial : List Die) (given rest : List UInt32)
    (count : initial.length = dice.count.value.toNat)
    (split : dice.accepted given = initial.map Die.accepted ++ rest) :
    dice.counted? given =
      (dice.shortestRun ((Course.kept dice ⟨initial, []⟩).countP dice.explodes) rest).map
        fun explosions => (Course.kept dice ⟨initial, []⟩, explosions) := by
  have length : (initial.map Die.accepted).length = dice.count.value.toNat := by rw [List.length_map, count]
  unfold counted?
  simp only [split, ← length, List.take_left, List.drop_left]
  rw [if_neg (by simp)]
  rfl

theorem counted_course (dice : Dice) (course : Course) (left : List UInt32) (follows : course.Follows dice) :
    dice.counted? (course.values ++ left) = some (course.kept dice, course.explosions) := by
  have obeys := chains_obey dice course.chains follows.chains
  have split : dice.accepted (course.values ++ left) =
      course.initial.map Die.accepted ++ (course.explosions ++ dice.accepted left) := by
    rw [accepted_append, Course.values, accepted_append, accepted_dice dice _ follows.obeys,
      accepted_dice dice _ obeys, List.append_assoc]
    rfl
  have ends : dice.shortestRun (course.chains.length + 0) (course.explosions ++ dice.accepted left) =
      some course.explosions := by
    rw [Course.explosions, shortest_run_chains dice 0 _ _ follows.chains, shortest_run_zero, Option.map_some,
      List.append_nil]
  rw [counted_given dice course.initial _ _ follows.count split]
  change Option.map _ (dice.shortestRun ((course.kept dice).countP dice.explodes) _) = _
  rw [← follows.chainCount, ← Nat.add_zero course.chains.length, ends]
  rfl

theorem counted_initial_spent (dice : Dice) (dies : List Die) (rerolled : List UInt32)
    (fewer : dies.length < dice.count.value.toNat) (spent : Spent dice dies rerolled) :
    dice.counted? (diceValues dies ++ rerolled) = none := by
  unfold counted?
  simp only [accepted_append, accepted_dice dice dies spent.obeys, accepted_rerolled dice _ spent.rerolls,
    List.append_nil, List.length_map, if_pos fewer]

theorem counted_explosion_spent (dice : Dice) (course : Course) (dies : List Die) (rerolled : List UInt32)
    (count : course.initial.length = dice.count.value.toNat) (obeys : ∀ die ∈ course.initial, die.Obeys dice)
    (fewer : course.chains.length < (course.kept dice).countP dice.explodes)
    (closed : ∀ chain ∈ course.chains, Chain dice chain) (explode : ∀ die ∈ dies, dice.explodes die.accepted = true)
    (spent : Spent dice (course.chains.flatten ++ dies) rerolled) :
    dice.counted? (course.values ++ (diceValues dies ++ rerolled)) = none := by
  obtain ⟨open_, others⟩ := List.forall_mem_append.1 spent.obeys
  have split : dice.accepted (course.values ++ (diceValues dies ++ rerolled)) =
      course.initial.map Die.accepted ++ (course.chains.flatten.map Die.accepted ++ (dies.map Die.accepted ++ [])) := by
    simp only [Course.values, accepted_append, accepted_dice dice _ obeys, accepted_dice dice _ open_,
      accepted_dice dice _ others, accepted_rerolled dice _ spent.rerolls, List.append_assoc]
  obtain ⟨missing, ends⟩ : ∃ missing, (course.kept dice).countP dice.explodes = course.chains.length + (missing + 1) :=
    ⟨(course.kept dice).countP dice.explodes - course.chains.length - 1, by omega⟩
  rw [counted_given dice course.initial _ _ count split]
  change Option.map _ (dice.shortestRun ((course.kept dice).countP dice.explodes) _) = _
  rw [ends, shortest_run_chains dice _ _ _ closed, shortest_run_exploding dice _ _ _ explode, shortest_run_nil]
  rfl

theorem exact_total_fits (dice : Dice) (kept explosions : List UInt32) (total : Total)
    (fits : dice.total? kept explosions = some total) : dice.exactTotal kept explosions = .ok total.toInt := by
  rw [total_exact] at fits
  split at fits
  · rename_i sumFits
    have value := (Total.of_int_some_iff _ total).1 fits
    rw [exactTotal, if_pos ⟨sumFits, value ▸ Total.le_greatest total⟩, value]
  · cases fits

theorem exact_total_large (dice : Dice) (kept explosions : List UInt32)
    (large : dice.total? kept explosions = none) :
    dice.exactTotal kept explosions = .error (.failed (.overflow dice.source)) := by
  rw [total_exact] at large
  apply if_neg
  rintro ⟨sumFits, fits⟩
  rw [if_pos sumFits, Total.of_int_none_iff] at large
  have nonneg : 0 ≤ (exactSum kept + exactSum explosions : Int) * dice.multiply.toNat :=
    Int.mul_nonneg (by omega) (by omega)
  unfold Total.least at large
  omega

end Dice

def outcome {ε σ α : Type} : EStateM.Result ε σ α → Except ε α
  | .ok a _ => .ok a
  | .error error _ => .error error

variable {σ : Type} [Sink σ]

theorem roll_agrees_with_reference (dice : Dice) (given : List UInt32) (sink : σ) (checked : dice.check = .ok ()) :
    (outcome (dice.roll (⟨.values given, sink⟩ : Table σ))).map Int64.toInt = dice.reference given := by
  have run := roll_given dice given sink checked
  generalize dice.roll (⟨.values given, sink⟩ : Table σ) = result at run ⊢
  unfold Dice.reference
  cases run with
  | total course left total follows used fits =>
      rw [used, dice.counted_course course left follows]
      exact (dice.exact_total_fits _ _ total fits).symm
  | overflow course left follows used large =>
      rw [used, dice.counted_course course left follows]
      exact (dice.exact_total_large _ _ large).symm
  | initialSpent dies rerolled fewer spent used =>
      rw [used, dice.counted_initial_spent dies rerolled fewer spent]
      rfl
  | explosionSpent course dies rerolled count obeys fewer closed explode spent used =>
      rw [used, dice.counted_explosion_spent course dies rerolled count obeys fewer closed explode spent]
      rfl

theorem exploding_pair_total : explodingPair.check = .ok () ∧
    (outcome (explodingPair.roll (⟨.values [6, 1, 5, 2, 6, 6, 3, 4], ()⟩ : Table Unit))).map Int64.toInt =
      explodingPair.reference [6, 1, 5, 2, 6, 6, 3, 4] :=
  ⟨rfl, roll_agrees_with_reference explodingPair [6, 1, 5, 2, 6, 6, 3, 4] () rfl⟩

example : explodingPair.reference [6, 1, 5, 2, 6, 6, 3, 4] = .ok 26 := by cbv

end DiceRoll
