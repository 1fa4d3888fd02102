import DiceRoll.Dice
import DiceRoll.Sign

set_option autoImplicit false

namespace DiceRoll

inductive EventKind where
  | initial
  | initialReroll
  | explosion
  | explosionReroll
  | dropped
deriving DecidableEq, Repr

namespace EventKind

def isReroll : EventKind → Bool
  | initialReroll => true
  | explosionReroll => true
  | _ => false

def isExplosion : EventKind → Bool
  | explosion => true
  | explosionReroll => true
  | _ => false

def isDropped : EventKind → Bool
  | dropped => true
  | _ => false

def mark : EventKind → String
  | initial => ""
  | initialReroll => " (r)"
  | explosion => " (x)"
  | explosionReroll => " (x) (r)"
  | dropped => " (d)"

end EventKind

structure Event where
  kind : EventKind
  dice : Dice
  value : UInt32
deriving DecidableEq, Repr

namespace Event

def text (event : Event) : String :=
  toString event.value ++ event.kind.mark

end Event

inductive Notice where
  | rolled (event : Event)
  | started (sign : Sign)
deriving DecidableEq, Repr

class Sink (σ : Type) where
  notify : σ → Notice → σ

instance : Sink Unit where
  notify _ _ := ()

end DiceRoll
