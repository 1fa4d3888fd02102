import DiceRoll.Proofs.Rolling.Rerun

set_option autoImplicit false

namespace DiceRoll

inductive RollerKind where
  | given
  | seeded
  | fixed
deriving DecidableEq, Repr

namespace Roller

def kind : Roller → RollerKind
  | values _ => .given
  | seeded _ => .seeded
  | constant _ => .fixed
  | lowest => .fixed
  | highest => .fixed

theorem draw_kind (roller next : Roller) (base : Base) (sides value : UInt32)
    (drawn : roller.draw base sides = some (value, next)) : next.kind = roller.kind := by
  cases roller with
  | values left =>
      cases left with
      | nil => cases drawn
      | cons first left =>
          cases drawn
          rfl
  | seeded generator =>
      obtain ⟨after, rfl⟩ := draw_seeded generator next base sides value drawn
      simp only [kind]
  | constant value =>
      cases drawn
      rfl
  | lowest =>
      cases drawn
      rfl
  | highest =>
      cases drawn
      rfl

theorem draws_kind (base : Base) (sides : UInt32) (roller last : Roller) (values : List UInt32)
    (draws : Draws base sides roller values last) : last.kind = roller.kind := by
  induction draws with
  | nothing => rfl
  | value roller next last value values drawn rest ih => rw [ih, draw_kind roller next base sides value drawn]

theorem draw_none_given (roller : Roller) (base : Base) (sides : UInt32) (spent : roller.draw base sides = none) :
    roller.kind = .given := by
  cases roller with
  | values left => rfl
  | seeded generator => by_cases pos : 0 < sides <;> simp [draw, pos] at spent
  | constant value => cases spent
  | lowest => cases spent
  | highest => cases spent

theorem fixed_draw (roller : Roller) (base : Base) (sides value : UInt32)
    (fixed : roller.fixedValue base sides = some value) : roller.draw base sides = some (value, roller) := by
  cases roller with
  | values left => cases fixed
  | seeded generator => cases fixed
  | constant same =>
      cases fixed
      rfl
  | lowest =>
      cases fixed
      rfl
  | highest =>
      cases fixed
      rfl

theorem kind_fixed (roller : Roller) (base : Base) (sides : UInt32) (fixed : roller.kind = .fixed) :
    ∃ value, roller.fixedValue base sides = some value ∧ roller.draw base sides = some (value, roller) := by
  cases roller with
  | values left => cases fixed
  | seeded generator => cases fixed
  | constant value => exact ⟨value, rfl, rfl⟩
  | lowest => exact ⟨base.value, rfl, rfl⟩
  | highest => exact ⟨base.highest sides, rfl, rfl⟩

theorem kind_given (roller : Roller) (given : roller.kind = .given) : ∃ left, roller = .values left := by
  cases roller with
  | values left => exact ⟨left, rfl⟩
  | seeded generator => cases given
  | constant value => cases given
  | lowest => cases given
  | highest => cases given

theorem states_pos (roller : Roller) : 0 < roller.states := by
  cases roller with
  | values left => exact Nat.succ_pos _
  | seeded generator => exact (by decide : 0 < Generator.stateCount)
  | constant value => exact Nat.one_pos
  | lowest => exact Nat.one_pos
  | highest => exact Nat.one_pos

end Roller

namespace Dice

theorem check_fixed_ok (dice : Dice) (value : UInt32) (checked : dice.checkFixed value = .ok ()) :
    dice.rerolls value = false ∧ dice.explodes value = false := by
  rw [checkFixed] at checked
  cases rerolls : dice.rerolls value with
  | true =>
      rw [rerolls, if_pos rfl] at checked
      cases checked
  | false =>
      cases explodes : dice.explodes value with
      | true =>
          rw [rerolls, explodes] at checked
          cases checked
      | false => exact ⟨rfl, rfl⟩

end Dice

-- Every die shows the value at once, and none explodes.
def Course.fixed (dice : Dice) (value : UInt32) : Course :=
  ⟨List.replicate dice.count.value.toNat ⟨[], value⟩, []⟩

theorem fixed_course_follows (dice : Dice) (value : UInt32) (accepts : dice.rerolls value = false)
    (final : dice.explodes value = false) : (Course.fixed dice value).Follows dice where
  count := List.length_replicate
  obeys die member := by
    rw [List.eq_of_mem_replicate member]
    exact ⟨nofun, accepts⟩
  chainCount := by
    refine (List.countP_eq_zero.2 fun kept member => ?_).symm
    obtain ⟨die, inside, rfl⟩ := (Course.fixed dice value).kept_fallen dice kept member
    rw [List.eq_of_mem_replicate inside, final]
    exact Bool.false_ne_true
  chains := nofun

theorem fixed_course_within (dice : Dice) (value : UInt32) (limit : Nat) (pos : 0 < limit) :
    (Course.fixed dice value).Within limit where
  initial die member := by
    rw [List.eq_of_mem_replicate member]
    exact pos
  explosions := nofun
  chains := nofun

theorem fixed_draws (base : Base) (sides : UInt32) (roller : Roller) (value : UInt32) (count : Nat)
    (drawn : roller.draw base sides = some (value, roller)) :
    Draws base sides roller (diceValues (List.replicate count ⟨[], value⟩)) roller := by
  induction count with
  | zero => exact .nothing roller
  | succ count ih => exact .value roller roller roller value _ drawn ih

variable {σ : Type} [Sink σ]

theorem fixed_rolled (dice : Dice) (table : Table σ) (value : UInt32)
    (fixed : table.roller.fixedValue dice.base dice.sides.value = some value)
    (drawn : table.roller.draw dice.base dice.sides.value = some (value, table.roller))
    (checked : table.roller.check dice = .ok ()) :
    dice.roll table = (Course.fixed dice value).result dice
      ⟨table.roller, tellAll table.sink ((Course.fixed dice value).events dice)⟩ := by
  have unchecked := roll_checked dice table checked
  rw [Roller.check] at checked
  cases passed : dice.check with
  | error error =>
      rw [passed] at checked
      cases checked
  | ok _ =>
      rw [passed, fixed] at checked
      obtain ⟨accepts, final⟩ := dice.check_fixed_ok value checked
      have draws := fixed_draws _ _ table.roller value dice.count.value.toNat drawn
      rw [unchecked]
      refine course_rolled dice (Course.fixed dice value) table table.roller
        (fixed_course_follows dice value accepts final) (fixed_course_within dice value _ table.roller.states_pos) ?_
      simpa only [Course.values, Course.fixed, diceValues, List.flatten_nil, List.flatMap_nil,
        List.append_nil] using draws

theorem unchecked_stop_drawn (dice : Dice) (table after : Table σ) (stop : Stop RollError)
    (ran : dice.rollUnchecked table = .error stop after) :
    stop = .failed (.overflow dice.source) ∨
      (∃ values, Draws dice.base dice.sides.value table.roller values after.roller) ∧
        (stop = .exhausted → after.roller.draw dice.base dice.sides.value = none) ∧ ∀ error, stop ≠ .failed error := by
  have run := roll_unchecked_run dice table
  rw [ran] at run
  cases run with
  | overflow => exact .inl rfl
  | initialStop dies rerolled _ _ stopped =>
      have halts := stopped.unfinished.halts
      refine .inr ⟨⟨_, stopped.unfinished.passes.drawn⟩, ?_, ?_⟩
      · rintro rfl
        exact halts
      · rintro error rfl
        exact halts
  | explosionStop middle course dies rerolled _ _ stopped =>
      have halts := stopped.openChain.unfinished.halts
      have drawn := draws_append _ _ _ _ _ _ _ stopped.passes.drawn stopped.openChain.unfinished.passes.drawn
      refine .inr ⟨⟨_, drawn⟩, ?_, ?_⟩
      · rintro rfl
        exact halts
      · rintro error rfl
        exact halts

theorem roll_endless_seeded (dice : Dice) (table after : Table σ) (checked : table.roller.check dice = .ok ())
    (ran : dice.roll table = .error .endless after) : table.roller.kind = .seeded := by
  obtain ⟨roller, sink⟩ := table
  cases kind : roller.kind with
  | seeded => rfl
  | fixed =>
      obtain ⟨value, fixed, drawn⟩ := roller.kind_fixed dice.base dice.sides.value kind
      rw [fixed_rolled dice ⟨roller, sink⟩ value fixed drawn checked, Course.result] at ran
      split at ran <;> cases ran
  | given =>
      obtain ⟨left, rfl⟩ := roller.kind_given kind
      have run := roll_unchecked_given dice left sink
      rw [← roll_checked dice ⟨.values left, sink⟩ checked, ran] at run
      cases run

theorem roll_stop_cause (dice : Dice) (table after : Table σ) (stop : Stop RollError)
    (checked : table.roller.check dice = .ok ()) (ran : dice.roll table = .error stop after) :
    stop = .failed (.overflow dice.source) ∨ stop = .exhausted ∧ table.roller.kind = .given ∨
      stop = .endless ∧ table.roller.kind = .seeded := by
  have unchecked := ran
  rw [roll_checked dice table checked] at unchecked
  rcases unchecked_stop_drawn dice table after stop unchecked with overflow | ⟨⟨values, draws⟩, spent, sound⟩
  · exact .inl overflow
  · cases stop with
    | failed error => exact absurd rfl (sound error)
    | exhausted =>
        have same := Roller.draws_kind _ _ _ _ _ draws
        rw [Roller.draw_none_given after.roller _ _ (spent rfl)] at same
        exact .inr (.inl ⟨rfl, same.symm⟩)
    | endless => exact .inr (.inr ⟨rfl, roll_endless_seeded dice table after checked ran⟩)

end DiceRoll
