import DiceRoll.Event
import DiceRoll.Total

set_option autoImplicit false

namespace DiceRoll

structure TermStart where
  sign : Sign
  index : Nat
deriving DecidableEq, Repr

structure Trace where
  events : Array Event := #[]
  starts : Array TermStart := #[]
deriving DecidableEq, Repr

namespace Trace

def empty : Trace := {}

def record (trace : Trace) (event : Event) : Trace :=
  { trace with events := trace.events.push event }

def start (trace : Trace) (sign : Sign) : Trace :=
  { trace with starts := trace.starts.push ⟨sign, trace.events.size⟩ }

def clear (_trace : Trace) : Trace :=
  empty

instance : Sink Trace where
  notify trace
    | .rolled event => trace.record event
    | .started sign => trace.start sign

-- What becomes of a sum at an event: accepted rolls count, dropped ones are taken out again. The value of a reroll
-- has to fit as well, though it does not count.
def addEvent? (sign : Sign) (sum : Total) (event : Event) : Option Total := do
  let value ← (Total.ofWord event.value).mul? (Total.ofWord event.dice.multiply)
  let value ← sign.signed? value
  match event.kind with
  | .initial => sum.add? value
  | .explosion => sum.add? value
  | .dropped => sum.sub? value
  | .initialReroll => some sum
  | .explosionReroll => some sum

def passStarts (index : Nat) (sign : Sign) : List TermStart → Sign × List TermStart
  | [] => (sign, [])
  | next :: starts => if next.index ≤ index then passStarts index next.sign starts else (sign, next :: starts)

def totalFrom? (index : Nat) (sign : Sign) (starts : List TermStart) (sum : Total) : List Event → Option Total
  | [] => some sum
  | event :: events => do
      let passed := passStarts index sign starts
      let sum ← addEvent? passed.1 sum event
      totalFrom? (index + 1) passed.1 passed.2 sum events

-- The total of the recorded rolls. Rolls before the first term are added.
def total? (trace : Trace) : Option Total :=
  totalFrom? 0 .plus trace.starts.toList 0 trace.events.toList

end Trace

end DiceRoll
