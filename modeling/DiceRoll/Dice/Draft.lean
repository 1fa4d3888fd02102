import DiceRoll.Dice

set_option autoImplicit false

namespace DiceRoll

inductive Explosion where
  | atSides
  | at (high : UInt32)
deriving DecidableEq, Repr

namespace Explosion

def threshold (sides : UInt32) : Explosion → UInt32
  | atSides => sides
  | .at high => high

end Explosion

-- The settings made so far. At first there is one die with the faces 1 to 20.
structure Draft where
  source : Option String := none
  base : Base := .one
  sides : UInt32 := 20
  count : UInt32 := 1
  rerollUpTo : Option UInt32 := none
  keep : Option Keep := none
  explosion : Option Explosion := none
  multiply : UInt32 := 1
deriving DecidableEq, Repr

inductive Setting where
  | source (text : String)
  | base (base : Base)
  | sides (sides : UInt32)
  | count (count : UInt32)
  | rerollUpTo (low : UInt32)
  | keep (keep : Keep)
  | explode (explosion : Explosion)
  | multiply (multiply : UInt32)
deriving DecidableEq, Repr

inductive BuildError where
  | noSides
  | noDice
deriving DecidableEq, Repr

namespace BuildError

def message : BuildError → String
  | noSides => "invalid dice: dice must have at least one side"
  | noDice => "invalid dice: at least one die must be rolled"

theorem message_injective (a b : BuildError) (same : a.message = b.message) : a = b := by
  cases a <;> cases b <;> first | rfl | exact absurd same (by decide)

end BuildError

namespace Draft

def set (draft : Draft) : Setting → Draft
  | .source text => { draft with source := some text }
  | .base base => { draft with base := base }
  | .sides sides => { draft with sides := sides }
  | .count count => { draft with count := count }
  | .rerollUpTo low => { draft with rerollUpTo := some low }
  | .keep keep => { draft with keep := some keep }
  | .explode explosion => { draft with explosion := some explosion }
  | .multiply multiply => { draft with multiply := multiply }

def ofSettings (settings : List Setting) : Draft :=
  settings.foldl set {}

-- The clauses of a draft that has sides and dice. All dice are kept if nothing else was said.
def clauses (draft : Draft) (sides_pos : 0 < draft.sides) (count_pos : 0 < draft.count) : Clauses where
  base := draft.base
  sides := ⟨draft.sides, sides_pos⟩
  count := ⟨draft.count, count_pos⟩
  rerollUpTo := draft.rerollUpTo
  keep := draft.keep.getD ⟨.high, draft.count⟩
  explodeFrom := draft.explosion.map (Explosion.threshold draft.sides)
  multiply := draft.multiply

def build (draft : Draft) : Except BuildError Dice :=
  if sides_pos : 0 < draft.sides then
    if count_pos : 0 < draft.count then
      let clauses := draft.clauses sides_pos count_pos
      .ok ⟨clauses, draft.source.getD clauses.text⟩
    else .error .noDice
  else .error .noSides

end Draft

namespace Dice

def ofSettings (settings : List Setting) : Except BuildError Dice :=
  (Draft.ofSettings settings).build

end Dice

end DiceRoll
