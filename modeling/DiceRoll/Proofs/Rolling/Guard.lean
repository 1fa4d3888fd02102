import DiceRoll.Proofs.Rolling.Reference

set_option autoImplicit false

namespace DiceRoll

namespace Dice

def HasFace (dice : Dice) (value : UInt32) : Prop :=
  dice.lowestFace ≤ value ∧ value ≤ dice.highestFace

structure Settles (dice : Dice) (value : UInt32) : Prop where
  face : dice.HasFace value
  accepted : dice.rerolls value = false
  final : dice.explodes value = false

theorem faces_ordered (dice : Dice) : dice.lowestFace.toNat ≤ dice.highestFace.toNat := by
  have top := dice.base.highest_to_nat dice.sides.value
  change dice.base.value.toNat ≤ (dice.base.highest dice.sides.value).toNat
  omega

theorem check_rerolls_ok_iff (dice : Dice) :
    dice.checkRerolls = .ok () ↔ dice.lowestAccepted ≤ dice.highestFace.toNat := by
  have ordered := dice.faces_ordered
  rw [checkRerolls, Clauses.lowestAccepted]
  cases dice.rerollUpTo with
  | none => simpa using ordered
  | some low =>
      by_cases all : dice.highestFace ≤ low
      · have bound := UInt32.le_iff_toNat_le.1 all
        simp only [if_pos all, reduceCtorEq, false_iff]
        omega
      · have bound := mt UInt32.le_iff_toNat_le.2 all
        simp only [if_neg all, true_iff]
        omega

theorem check_explosions_ok_iff (dice : Dice) :
    dice.checkExplosions = .ok () ↔ ∀ high, dice.explodeFrom = some high → dice.lowestAccepted < high.toNat := by
  rw [checkExplosions]
  cases dice.explodeFrom with
  | none => simp
  | some high =>
      by_cases all : high.toNat ≤ dice.lowestAccepted
      · simp [all]
      · simpa [all] using Nat.lt_of_not_le all

theorem check_ok_iff (dice : Dice) :
    dice.check = .ok () ↔ dice.checkRerolls = .ok () ∧ dice.checkExplosions = .ok () := by
  rw [check]
  cases dice.checkRerolls with
  | error error => simp
  | ok _ => simp

theorem accepted_iff (dice : Dice) (value : UInt32) (above : dice.lowestFace ≤ value) :
    dice.rerolls value = false ↔ dice.lowestAccepted ≤ value.toNat := by
  have bound := UInt32.le_iff_toNat_le.1 above
  rw [Clauses.rerolls, Clauses.lowestAccepted]
  cases dice.rerollUpTo with
  | none => simpa using bound
  | some low =>
      simp only [decide_eq_false_iff_not, UInt32.le_iff_toNat_le]
      omega

theorem final_iff (dice : Dice) (value : UInt32) :
    dice.explodes value = false ↔ ∀ high, dice.explodeFrom = some high → value.toNat < high.toNat := by
  rw [Clauses.explodes]
  cases dice.explodeFrom with
  | none => simp
  | some high => simp [UInt32.le_iff_toNat_le]

theorem check_ok_iff_settles (dice : Dice) : dice.check = .ok () ↔ ∃ value, dice.Settles value := by
  rw [check_ok_iff, check_rerolls_ok_iff, check_explosions_ok_iff]
  constructor
  · rintro ⟨reaches, unexploded⟩
    have exact_ : (clamp dice.lowestAccepted).toNat = dice.lowestAccepted := by
      rw [clamp_to_nat, Nat.min_eq_left (Nat.le_trans reaches (word_le_max _))]
    have above : dice.lowestFace ≤ clamp dice.lowestAccepted := by
      rw [UInt32.le_iff_toNat_le, exact_, Clauses.lowestAccepted]
      cases dice.rerollUpTo with
      | none => exact Nat.le_refl _
      | some low => exact Nat.le_max_left _ _
    refine ⟨clamp dice.lowestAccepted, ⟨above, ?_⟩, ?_, ?_⟩
    · rw [UInt32.le_iff_toNat_le, exact_]
      exact reaches
    · exact (dice.accepted_iff _ above).2 (Nat.le_of_eq exact_.symm)
    · rw [final_iff, exact_]
      exact unexploded
  · rintro ⟨value, ⟨above, below⟩, accepted, final⟩
    have lowest := (dice.accepted_iff value above).1 accepted
    exact ⟨Nat.le_trans lowest (UInt32.le_iff_toNat_le.1 below),
      fun high threshold => Nat.lt_of_le_of_lt lowest ((dice.final_iff value).1 final high threshold)⟩

theorem check_rerolls_forever (dice : Dice) :
    (∃ source low, dice.check = .error (.endlessRerolls source low)) ↔ dice.checkRerolls ≠ .ok () := by
  rw [check]
  cases rerolls : dice.checkRerolls with
  | error error =>
      obtain ⟨low, _, rfl⟩ := dice.check_rerolls_error error rerolls
      simp
  | ok _ =>
      simp only [ne_eq, not_true_eq_false, iff_false]
      rintro ⟨source, low, refused⟩
      obtain ⟨high, _, same⟩ := dice.check_explosions_error _ refused
      cases same

theorem rerolls_forever_iff (dice : Dice) :
    (∃ source low, dice.check = .error (.endlessRerolls source low)) ↔
      ∀ value, dice.HasFace value → dice.rerolls value = true := by
  rw [check_rerolls_forever, ne_eq, check_rerolls_ok_iff]
  constructor
  · rintro unreached value ⟨above, below⟩
    by_contra accepted
    have lowest := (dice.accepted_iff value above).1 (Bool.not_eq_true _ ▸ accepted)
    exact unreached (Nat.le_trans lowest (UInt32.le_iff_toNat_le.1 below))
  · intro all reached
    have above : dice.lowestFace ≤ dice.highestFace := UInt32.le_iff_toNat_le.2 dice.faces_ordered
    have accepted := (dice.accepted_iff dice.highestFace above).2 reached
    rw [all dice.highestFace ⟨above, UInt32.le_refl _⟩] at accepted
    cases accepted

theorem kept_nonempty (dice : Dice) (course : Course) (keeps : 0 < dice.keep.count) (follows : course.Follows dice) :
    ∃ value, value ∈ course.kept dice := by
  have some_kept : 0 < dice.keep.count.toNat := UInt32.lt_iff_toNat_lt.1 keeps
  have some_dice : 0 < dice.count.value.toNat := UInt32.lt_iff_toNat_lt.1 dice.count.pos
  have length := course.kept_length dice follows
  rw [keptCount] at length
  exact List.exists_mem_of_length_pos (by omega)

theorem accepted_mem (dies : List Die) (die : Die) (member : die ∈ dies) : die.accepted ∈ diceValues dies :=
  List.mem_flatMap.2 ⟨die, member, by simp [Die.values]⟩

-- Either a kept die does not explode, or the chain it starts ends with one that does not.
theorem course_final (dice : Dice) (course : Course) (keeps : 0 < dice.keep.count) (follows : course.Follows dice) :
    ∃ value ∈ course.values, dice.rerolls value = false ∧ dice.explodes value = false := by
  obtain ⟨value, kept⟩ := dice.kept_nonempty course keeps follows
  cases explodes : dice.explodes value with
  | false =>
      obtain ⟨die, member, rfl⟩ := course.kept_fallen dice value kept
      exact ⟨die.accepted, List.mem_append_left _ (accepted_mem _ die member), (follows.obeys die member).accepts,
        explodes⟩
  | true =>
      have started : 0 < course.chains.length := by
        rw [follows.chainCount]
        exact List.countP_pos_iff.2 ⟨value, kept, explodes⟩
      obtain ⟨chain, member⟩ := List.exists_mem_of_length_pos started
      have obeys := follows.chains chain member
      obtain ⟨before, last, split, _, final⟩ := obeys.ends
      have inside : last ∈ chain := split ▸ List.mem_append_right _ (List.mem_singleton_self last)
      have fallen := accepted_mem _ last (List.mem_flatten_of_mem member inside)
      exact ⟨last.accepted, List.mem_append_right _ fallen, (obeys.obeys last inside).accepts, final⟩

theorem shortest_run_enough (dice : Dice) (ends : Nat) (values : List UInt32)
    (enough : ends ≤ values.countP fun value => !dice.explodes value) :
    ∃ run, dice.shortestRun ends values = some run := by
  induction values generalizing ends with
  | nil =>
      obtain rfl : ends = 0 := Nat.le_zero.1 enough
      exact ⟨[], dice.shortest_run_zero []⟩
  | cons value values ih =>
      cases ends with
      | zero => exact ⟨[], dice.shortest_run_zero _⟩
      | succ ends =>
          rw [List.countP_cons] at enough
          obtain ⟨run, found⟩ := ih (if dice.explodes value then ends + 1 else ends)
            (by cases explodes : dice.explodes value <;> simp [explodes] at enough ⊢ <;> omega)
          exact ⟨value :: run, by rw [shortest_run_cons, found]; rfl⟩

theorem split_explosions_le (dice : Dice) (rolls : List UInt32) :
    (dice.keep.split rolls).1.countP dice.explodes ≤ rolls.length := by
  refine Nat.le_trans List.countP_le_length ?_
  rw [Keep.split_length]
  exact Nat.min_le_right _ _

theorem final_rest (dice : Dice) (accepted : List UInt32) (used : Nat) :
    accepted.countP (fun value => !dice.explodes value) ≤
      used + (accepted.drop used).countP fun value => !dice.explodes value := by
  have halves := congrArg (List.countP fun value => !dice.explodes value) (List.take_append_drop used accepted)
  have first : (accepted.take used).countP (fun value => !dice.explodes value) ≤ used :=
    Nat.le_trans List.countP_le_length (List.length_take_le _ _)
  rw [List.countP_append] at halves
  omega

-- Twice as many final values as dice end any roll: one for each die of the term, and one for each chain.
theorem counted_final (dice : Dice) (given : List UInt32)
    (final : 2 * dice.count.value.toNat ≤ (dice.accepted given).countP fun value => !dice.explodes value) :
    ∃ result, dice.counted? given = some result := by
  have length := Nat.le_trans final List.countP_le_length
  have rest := dice.final_rest (dice.accepted given) dice.count.value.toNat
  have fewest := dice.split_explosions_le (((dice.accepted given).take dice.count.value.toNat).mergeSort (· ≤ ·))
  rw [List.length_mergeSort, List.length_take] at fewest
  obtain ⟨run, found⟩ := dice.shortest_run_enough _ ((dice.accepted given).drop dice.count.value.toNat)
    (Nat.le_trans fewest (by omega))
  rw [counted?]
  simp only
  rw [if_neg (by omega), found]
  exact ⟨_, rfl⟩

theorem counted_settled (dice : Dice) (given : List UInt32) (value : UInt32) (settles : dice.Settles value) :
    ∃ result, dice.counted? (given ++ List.replicate (2 * dice.count.value.toNat) value) = some result := by
  apply counted_final
  have unrolled : dice.accepted (List.replicate (2 * dice.count.value.toNat) value) =
      List.replicate (2 * dice.count.value.toNat) value :=
    List.filter_replicate_of_pos (by simp [settles.accepted])
  rw [accepted_append, unrolled, List.countP_append, List.countP_replicate, if_pos (by simp [settles.final])]
  exact Nat.le_add_left _ _

end Dice

variable {σ : Type} [Sink σ]

-- A run ends with a total or with a failure of its own. It does not end if the values run out.
inductive Ends {ε α : Type} : EStateM.Result (Stop ε) (Table σ) α → Prop where
  | total (a : α) (after : Table σ) : Ends (.ok a after)
  | failed (error : ε) (after : Table σ) : Ends (.error (.failed error) after)

theorem counted_ends (dice : Dice) (given : List UInt32) (sink : σ) (result : List UInt32 × List UInt32)
    (counted : dice.counted? given = some result) : Ends (dice.rollUnchecked ⟨.values given, sink⟩) := by
  have run := roll_unchecked_given dice given sink
  generalize dice.rollUnchecked (⟨.values given, sink⟩ : Table σ) = outcome at run ⊢
  cases run with
  | total course left total follows used fits => exact .total total _
  | overflow course left follows used large => exact .failed _ _
  | initialSpent dies rerolled fewer spent used =>
      rw [used, dice.counted_initial_spent dies rerolled fewer spent] at counted
      cases counted
  | explosionSpent course dies rerolled count obeys fewer closed explode spent used =>
      rw [used, dice.counted_explosion_spent course dies rerolled count obeys fewer closed explode spent] at counted
      cases counted

theorem unfinal_runs_out (dice : Dice) (given : List UInt32) (sink : σ) (keeps : 0 < dice.keep.count)
    (unfinal : ∀ value ∈ given, dice.rerolls value = true ∨ dice.explodes value = true) :
    ∃ after, dice.rollUnchecked ⟨.values given, sink⟩ = .error .exhausted after := by
  -- A finished course would have used a value that settles it, and there is none.
  have unfollowed (course : Course) (left : List UInt32) (follows : course.Follows dice)
      (used : given = course.values ++ left) : False := by
    obtain ⟨value, member, accepted, final⟩ := dice.course_final course keeps follows
    have more := unfinal value (used ▸ List.mem_append_left left member)
    simp [accepted, final] at more
  have run := roll_unchecked_given dice given sink
  generalize dice.rollUnchecked (⟨.values given, sink⟩ : Table σ) = outcome at run ⊢
  cases run with
  | total course left total follows used fits => exact (unfollowed course left follows used).elim
  | overflow course left follows used large => exact (unfollowed course left follows used).elim
  | initialSpent => exact ⟨_, rfl⟩
  | explosionSpent => exact ⟨_, rfl⟩

theorem refused_runs_out (dice : Dice) (given : List UInt32) (sink : σ) (keeps : 0 < dice.keep.count)
    (refused : dice.check ≠ .ok ()) (faces : ∀ value ∈ given, dice.HasFace value) :
    ∃ after, dice.rollUnchecked ⟨.values given, sink⟩ = .error .exhausted after := by
  refine unfinal_runs_out dice given sink keeps fun value member => ?_
  by_contra settled
  obtain ⟨accepted, final⟩ := not_or.1 settled
  exact refused (dice.check_ok_iff_settles.2
    ⟨value, faces value member, Bool.eq_false_iff.2 accepted, Bool.eq_false_iff.2 final⟩)

-- Where no faces end a roll, the check refuses the term, and names rerolls if all faces are rolled again.
theorem guard_exact (dice : Dice) (keeps : 0 < dice.keep.count) (sink : σ) :
    ((∃ error, dice.check = .error error) → ∀ given, (∀ value ∈ given, dice.HasFace value) →
        ∃ after, dice.rollUnchecked ⟨.values given, sink⟩ = .error .exhausted after) ∧
      (dice.check = .ok () → ∀ given, ∃ more, (∀ value ∈ more, dice.HasFace value) ∧
        Ends (dice.rollUnchecked ⟨.values (given ++ more), sink⟩)) ∧
      ((∃ source low, dice.check = .error (.endlessRerolls source low)) ↔
        ∀ value, dice.HasFace value → dice.rerolls value = true) := by
  refine ⟨?_, ?_, dice.rerolls_forever_iff⟩
  · rintro ⟨error, refused⟩ given faces
    exact refused_runs_out dice given sink keeps (by simp [refused]) faces
  · intro checked given
    obtain ⟨value, settles⟩ := dice.check_ok_iff_settles.1 checked
    obtain ⟨result, counted⟩ := dice.counted_settled given value settles
    refine ⟨List.replicate (2 * dice.count.value.toNat) value, ?_, counted_ends dice _ sink result counted⟩
    intro more member
    rw [List.eq_of_mem_replicate member]
    exact settles.face

def narrowDice : Dice :=
  ⟨⟨.zero, 6, 3, some 2, ⟨.middleHigh, 1⟩, some 4, 1⟩, "3z6r2mh1!4"⟩

theorem narrow_dice_end : 0 < narrowDice.keep.count ∧ narrowDice.check = .ok () ∧
    ∃ more, (∀ value ∈ more, narrowDice.HasFace value) ∧
      Ends (narrowDice.rollUnchecked (⟨.values ([5, 1, 4, 4, 5] ++ more), ()⟩ : Table Unit)) :=
  ⟨by decide, rfl, (guard_exact narrowDice (by decide) ()).2.1 rfl [5, 1, 4, 4, 5]⟩

end DiceRoll
