set_option autoImplicit false

namespace DiceRoll

inductive KeepRule where
  | high
  | low
  | middleHigh
  | middleLow
deriving DecidableEq, Repr

namespace KeepRule

def text : KeepRule → String
  | high => "h"
  | low => "l"
  | middleHigh => "mh"
  | middleLow => "ml"

end KeepRule

structure Keep where
  rule : KeepRule
  count : UInt32
deriving DecidableEq, Repr

namespace Keep

def text (keep : Keep) : String :=
  keep.rule.text ++ toString keep.count

def takeHigh {α : Type} (count : Nat) (rolls : List α) : List α × List α :=
  (rolls.drop (rolls.length - count), rolls.take (rolls.length - count))

def takeLow {α : Type} (count : Nat) (rolls : List α) : List α × List α :=
  (rolls.take count, rolls.drop count)

-- How many of the kept rolls come from the lower half when a count is kept of a length: half of them, and the odd
-- one if there is one and the rule puts it there. The lower half is the longer one of an odd length.
def fromLower (rule : KeepRule) (length count : Nat) : Nat :=
  match rule with
  | .middleLow => if length % 2 = 0 ∧ count % 2 = 0 then count / 2 else count / 2 + 1
  | _ => if length % 2 = 1 ∧ count % 2 = 1 then count / 2 + 1 else count / 2

def takeMiddle {α : Type} (rule : KeepRule) (count : Nat) (rolls : List α) : List α × List α :=
  if count = 0 then ([], rolls)
  else
    let half := (rolls.length + 1) / 2
    let share := fromLower rule rolls.length count
    let lower := takeHigh share (rolls.take half)
    let upper := takeLow (count - share) (rolls.drop half)
    (lower.1 ++ upper.1, lower.2 ++ upper.2)

def split {α : Type} (keep : Keep) (rolls : List α) : List α × List α :=
  let count := min keep.count.toNat rolls.length
  match keep.rule with
  | .high => takeHigh count rolls
  | .low => takeLow count rolls
  | .middleHigh => takeMiddle .middleHigh count rolls
  | .middleLow => takeMiddle .middleLow count rolls

end Keep

end DiceRoll
