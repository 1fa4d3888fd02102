import DiceRoll.Proofs.Rolling.Table

set_option autoImplicit false

namespace DiceRoll

-- A die as it fell: the values that were rolled again, and the one that was accepted.
structure Die where
  rerolled : List UInt32
  accepted : UInt32
deriving DecidableEq, Repr

def rerollEvents (dice : Dice) (phase : Phase) (values : List UInt32) : List Event :=
  values.map fun value => ⟨phase.rerolled, dice, value⟩

namespace Die

def values (die : Die) : List UInt32 :=
  die.rerolled ++ [die.accepted]

def events (dice : Dice) (phase : Phase) (die : Die) : List Event :=
  rerollEvents dice phase die.rerolled ++ [⟨phase.accepted, dice, die.accepted⟩]

structure Obeys (dice : Dice) (die : Die) : Prop where
  rerolls : ∀ value ∈ die.rerolled, dice.rerolls value = true
  accepts : dice.rerolls die.accepted = false

end Die

def diceValues (dies : List Die) : List UInt32 :=
  dies.flatMap Die.values

def diceEvents (dice : Dice) (phase : Phase) (dies : List Die) : List Event :=
  dies.flatMap (Die.events dice phase)

-- What stopped a loop. Nothing fails while dice fall, and a loop is only called endless after as many draws as its
-- limit.
def Halts {σ ε : Type} (dice : Dice) (limit : Nat) (values : List UInt32) (after : Table σ) : Stop ε → Prop
  | .exhausted => after.roller.draw dice.base dice.sides.value = none
  | .endless => limit ≤ values.length
  | .failed _ => False

theorem halts_longer {σ ε : Type} (dice : Dice) (limit more : Nat) (values longer : List UInt32) (after : Table σ)
    (stop : Stop ε) (enough : limit ≤ values.length → more ≤ longer.length)
    (halts : Halts dice limit values after stop) : Halts dice more longer after stop := by
  cases stop with
  | failed error => exact halts
  | exhausted => exact halts
  | endless => exact enough halts

variable {σ ε : Type} [Sink σ]

structure Unfinished (dice : Dice) (phase : Phase) (limit : Nat) (table : Table σ) (dies : List Die)
    (rerolled : List UInt32) (after : Table σ) (stop : Stop ε) : Prop where
  obeys : ∀ die ∈ dies, die.Obeys dice
  rerolls : ∀ value ∈ rerolled, dice.rerolls value = true
  passes : Passes dice table (diceValues dies ++ rerolled)
    (diceEvents dice phase dies ++ rerollEvents dice phase rerolled) after
  halts : Halts dice limit (diceValues dies ++ rerolled) after stop

inductive DieRun (dice : Dice) (phase : Phase) (limit : Nat) (table : Table σ) :
    EStateM.Result (Stop ε) (Table σ) UInt32 → Prop where
  | accepted (die : Die) (after : Table σ) (obeys : die.Obeys dice)
      (passes : Passes dice table die.values (die.events dice phase) after) :
      DieRun dice phase limit table (.ok die.accepted after)
  | stopped (rerolled : List UInt32) (after : Table σ) (stop : Stop ε)
      (unfinished : Unfinished dice phase limit table [] rerolled after stop) :
      DieRun dice phase limit table (.error stop after)

theorem roll_die_run (dice : Dice) (phase : Phase) (times : Nat) (table : Table σ) :
    DieRun (ε := ε) dice phase times table (dice.rollDie phase times table) := by
  induction times generalizing table with
  | zero => exact .stopped [] table .endless ⟨nofun, nofun, passes_nothing dice table, Nat.le_refl 0⟩
  | succ times ih =>
      cases drawn : table.roller.draw dice.base dice.sides.value with
      | none =>
          have run : dice.rollDie phase (times + 1) table = .error (ε := Stop ε) .exhausted table :=
            Rolling.bind_error _ _ _ _ _ (by rw [Rolling.draw, drawn])
          rw [run]
          exact .stopped [] table .exhausted ⟨nofun, nofun, passes_nothing dice table, drawn⟩
      | some next =>
          obtain ⟨value, roller⟩ := next
          have draw : Rolling.draw (ε := ε) dice.base dice.sides.value table = .ok value ⟨roller, table.sink⟩ := by
            rw [Rolling.draw, drawn]
          rw [Dice.rollDie, Rolling.bind_ok _ _ _ _ _ draw]
          cases again : dice.rerolls value with
          | false =>
              exact .accepted ⟨[], value⟩ _ ⟨nofun, again⟩ (passes_attempt dice table roller value _ drawn)
          | true =>
              -- The rest of the loop rolls the same die, without this first reroll.
              have attempt := passes_attempt dice table roller value ⟨phase.rerolled, dice, value⟩ drawn
              have rest := ih (table.tell roller ⟨phase.rerolled, dice, value⟩)
              change DieRun dice phase (times + 1) table
                (dice.rollDie phase times (table.tell roller ⟨phase.rerolled, dice, value⟩))
              generalize dice.rollDie phase times (table.tell roller ⟨phase.rerolled, dice, value⟩) = result at rest ⊢
              cases rest with
              | accepted die after obeys passes =>
                  have whole := passes_append _ _ _ _ _ _ _ _ attempt passes
                  exact .accepted ⟨value :: die.rerolled, die.accepted⟩ after
                    ⟨List.forall_mem_cons.2 ⟨again, obeys.rerolls⟩, obeys.accepts⟩ whole
              | stopped rerolled after stop unfinished =>
                  have whole := passes_append _ _ _ _ _ _ _ _ attempt unfinished.passes
                  exact .stopped (value :: rerolled) after stop
                    ⟨nofun, List.forall_mem_cons.2 ⟨again, unfinished.rerolls⟩, whole,
                      halts_longer dice times (times + 1) _ _ after stop Nat.succ_le_succ unfinished.halts⟩

theorem passes_die (dice : Dice) (phase : Phase) (table after : Table σ) (die : Die)
    (passes : Passes dice table die.values (die.events dice phase) after) :
    Passes dice table (diceValues [die]) (diceEvents dice phase [die]) after := by
  simpa only [diceValues, diceEvents, List.flatMap_singleton] using passes

theorem passes_dice (dice : Dice) (phase : Phase) (table middle after : Table σ) (dies more : List Die)
    (first : Passes dice table (diceValues dies) (diceEvents dice phase dies) middle)
    (second : Passes dice middle (diceValues more) (diceEvents dice phase more) after) :
    Passes dice table (diceValues (dies ++ more)) (diceEvents dice phase (dies ++ more)) after := by
  simpa only [diceValues, diceEvents, List.flatMap_append] using passes_append _ _ _ _ _ _ _ _ first second

theorem unfinished_after (dice : Dice) (phase : Phase) (limit most : Nat) (table middle after : Table σ)
    (dies more : List Die) (rerolled : List UInt32) (stop : Stop ε) (obeys : ∀ die ∈ dies, die.Obeys dice)
    (first : Passes dice table (diceValues dies) (diceEvents dice phase dies) middle)
    (bound : most ≤ limit + (diceValues dies).length)
    (rest : Unfinished dice phase limit middle more rerolled after stop) :
    Unfinished dice phase most table (dies ++ more) rerolled after stop where
  obeys := List.forall_mem_append.2 ⟨obeys, rest.obeys⟩
  rerolls := rest.rerolls
  passes := by
    simpa only [diceValues, diceEvents, List.flatMap_append, List.append_assoc] using
      passes_append _ _ _ _ _ _ _ _ first rest.passes
  halts := by
    refine halts_longer dice limit most _ _ after stop (fun enough => ?_) rest.halts
    simp only [diceValues, List.flatMap_append, List.append_assoc, List.length_append] at bound enough ⊢
    omega

inductive DiceRun (dice : Dice) (limit number : Nat) (table : Table σ) (rolls : List UInt32) :
    EStateM.Result (Stop ε) (Table σ) (List UInt32) → Prop where
  | rolled (dies : List Die) (after : Table σ) (count : dies.length = number) (obeys : ∀ die ∈ dies, die.Obeys dice)
      (passes : Passes dice table (diceValues dies) (diceEvents dice .initial dies) after) :
      DiceRun dice limit number table rolls (.ok ((dies.map Die.accepted).reverse ++ rolls) after)
  | stopped (dies : List Die) (rerolled : List UInt32) (after : Table σ) (stop : Stop ε) (fewer : dies.length < number)
      (unfinished : Unfinished dice .initial limit table dies rerolled after stop) :
      DiceRun dice limit number table rolls (.error stop after)

theorem roll_dice_run (dice : Dice) (limit number : Nat) (table : Table σ) (rolls : List UInt32) :
    DiceRun (ε := ε) dice limit number table rolls (dice.rollDice limit number rolls table) := by
  induction number generalizing table rolls with
  | zero => exact .rolled [] table rfl nofun (passes_nothing dice table)
  | succ number ih =>
      rw [Dice.rollDice]
      have first := roll_die_run (ε := ε) dice .initial limit table
      cases run : dice.rollDie .initial limit table with
      | error stop after =>
          rw [run] at first
          rw [Rolling.bind_error _ _ _ _ _ run]
          cases first with
          | stopped rerolled _ _ unfinished => exact .stopped [] rerolled after stop (Nat.succ_pos number) unfinished
      | ok value middle =>
          rw [run] at first
          rw [Rolling.bind_ok _ _ _ _ _ run]
          cases first with
          | accepted die _ obeys passes =>
              have fell := passes_die dice .initial table middle die passes
              have rest := ih middle (die.accepted :: rolls)
              generalize dice.rollDice limit number (die.accepted :: rolls) middle = result at rest ⊢
              cases rest with
              | rolled dies after count all passes =>
                  have whole : DiceRun (ε := ε) dice limit (number + 1) table rolls
                      (.ok (((die :: dies).map Die.accepted).reverse ++ rolls) after) :=
                    .rolled (die :: dies) after (congrArg Nat.succ count) (List.forall_mem_cons.2 ⟨obeys, all⟩)
                      (passes_dice dice .initial table middle after [die] dies fell passes)
                  simpa only [List.map_cons, List.reverse_cons, List.append_assoc, List.singleton_append] using whole
              | stopped dies rerolled after stop fewer unfinished =>
                  exact .stopped (die :: dies) rerolled after stop (Nat.succ_lt_succ fewer)
                    (unfinished_after dice .initial limit limit table middle after [die] dies rerolled stop
                      (List.forall_mem_singleton.2 obeys) fell (Nat.le_add_right _ _) unfinished)

theorem tell_dropped_run (dice : Dice) (values : List UInt32) (table : Table σ) :
    ∃ after, dice.tellDropped (ε := ε) values table = .ok () after ∧
      Passes dice table [] (values.map fun value => ⟨.dropped, dice, value⟩) after := by
  induction values generalizing table with
  | nil => exact ⟨table, rfl, passes_nothing dice table⟩
  | cons value values ih =>
      obtain ⟨after, run, passes⟩ := ih (table.tell table.roller ⟨.dropped, dice, value⟩)
      have told := passes_event dice table ⟨.dropped, dice, value⟩
      exact ⟨after, run, passes_append _ _ _ _ _ _ _ _ told passes⟩

end DiceRoll
