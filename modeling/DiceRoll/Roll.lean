import DiceRoll.Event
import DiceRoll.Roller
import DiceRoll.Total

set_option autoImplicit false

namespace DiceRoll

structure Table (σ : Type) where
  roller : Roller
  sink : σ

inductive Stop (ε : Type) where
  | failed (error : ε)
  | exhausted
  | endless
deriving DecidableEq, Repr

namespace Stop

def map {ε ε' : Type} (f : ε → ε') : Stop ε → Stop ε'
  | failed error => .failed (f error)
  | exhausted => .exhausted
  | endless => .endless

end Stop

-- Rolling changes the table. What was drawn and told before an early stop stays so.
abbrev Rolling (σ ε : Type) := EStateM (Stop ε) (Table σ)

namespace Rolling

variable {σ ε : Type}

def fail {α : Type} (error : ε) : Rolling σ ε α :=
  throw (.failed error)

def mapError {ε' α : Type} (f : ε → ε') (rolling : Rolling σ ε α) : Rolling σ ε' α := fun table =>
  match rolling table with
  | .ok a after => .ok a after
  | .error stop after => .error (stop.map f) after

def tell [Sink σ] (notice : Notice) : Rolling σ ε Unit := fun table =>
  .ok () ⟨table.roller, Sink.notify table.sink notice⟩

def draw (base : Base) (sides : UInt32) : Rolling σ ε UInt32 := fun table =>
  match table.roller.draw base sides with
  | none => .error .exhausted table
  | some (value, roller) => .ok value ⟨roller, table.sink⟩

def states : Rolling σ ε Nat := fun table =>
  .ok table.roller.states table

end Rolling

inductive Phase where
  | initial
  | explosion
deriving DecidableEq, Repr

namespace Phase

def accepted : Phase → EventKind
  | initial => .initial
  | explosion => .explosion

def rerolled : Phase → EventKind
  | initial => .initialReroll
  | explosion => .explosionReroll

end Phase

namespace Dice

variable {σ ε : Type} [Sink σ]

def rollDie (dice : Dice) (phase : Phase) : Nat → Rolling σ ε UInt32
  | 0 => throw .endless
  | times + 1 => do
      let value ← Rolling.draw dice.base dice.sides.value
      if dice.rerolls value then
        Rolling.tell (.rolled ⟨phase.rerolled, dice, value⟩)
        rollDie dice phase times
      else
        Rolling.tell (.rolled ⟨phase.accepted, dice, value⟩)
        return value

-- Rolls a number of dice, each at most `limit` times, the latest in front.
def rollDice (dice : Dice) (limit : Nat) : Nat → List UInt32 → Rolling σ ε (List UInt32)
  | 0, rolls => return rolls
  | number + 1, rolls => do
      let value ← dice.rollDie .initial limit
      rollDice dice limit number (value :: rolls)

def tellDropped (dice : Dice) : List UInt32 → Rolling σ ε Unit
  | [] => return ()
  | value :: dropped => do
      Rolling.tell (.rolled ⟨.dropped, dice, value⟩)
      tellDropped dice dropped

def rollChain (dice : Dice) (limit : Nat) : Nat → List UInt32 → Rolling σ ε (List UInt32)
  | 0, _ => throw .endless
  | times + 1, explosions => do
      let value ← dice.rollDie .explosion limit
      if dice.explodes value then rollChain dice limit times (value :: explosions)
      else return value :: explosions

def rollChains (dice : Dice) (limit : Nat) : List UInt32 → List UInt32 → Rolling σ ε (List UInt32)
  | [], explosions => return explosions
  | value :: kept, explosions => do
      if dice.explodes value then
        let explosions ← dice.rollChain limit limit explosions
        rollChains dice limit kept explosions
      else rollChains dice limit kept explosions

def total? (dice : Dice) (kept explosions : List UInt32) : Option Total := do
  let kept ← Total.sum? kept
  let explosions ← Total.sum? explosions
  let sum ← kept.add? explosions
  sum.mul? (Total.ofWord dice.multiply)

-- Rolls a term that may be rolled. No loop runs longer than the roller has states.
def rollUnchecked (dice : Dice) : Rolling σ RollError Total := do
  let limit ← Rolling.states
  let rolls ← dice.rollDice limit dice.count.value.toNat []
  let split := dice.keep.split (rolls.mergeSort (· ≤ ·))
  dice.tellDropped split.2
  let explosions ← dice.rollChains limit split.1 []
  match dice.total? split.1 explosions with
  | none => Rolling.fail (.overflow dice.source)
  | some total => return total

def roll (dice : Dice) : Rolling σ RollError Total := do
  match (← get).roller.check dice with
  | .error error => Rolling.fail error
  | .ok () => dice.rollUnchecked

end Dice

end DiceRoll
