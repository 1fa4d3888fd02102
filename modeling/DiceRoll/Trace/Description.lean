import DiceRoll.Trace

set_option autoImplicit false

namespace DiceRoll

namespace Trace

def startsAt (trace : Trace) (index : Nat) : Bool :=
  trace.starts.any fun start => start.index == index

def together (trace : Trace) (a b : Event × Nat) : Bool :=
  !trace.startsAt b.2 && a.1.dice == b.1.dice

-- A term that starts begins a group even if its dice are those of the term before.
def groups (trace : Trace) : List (List Event) :=
  (trace.events.toList.zipIdx.splitBy trace.together).map fun group => group.map Prod.fst

def listText (limit : Option Nat) (events : List Event) : String :=
  let shown := events.take (limit.getD events.length)
  let list := ", ".intercalate (shown.map Event.text)
  if shown.length < events.length then list ++ ", " ++ toString (events.length - shown.length) ++ " more..."
  else list

def groupText (limit : Option Nat) : List Event → String
  | [] => ""
  | event :: events => event.dice.source ++ "[" ++ listText limit (event :: events) ++ "]"

def description (trace : Trace) (limit : Option Nat) : String :=
  " ".intercalate (trace.groups.map (groupText limit))

def text (trace : Trace) : String :=
  trace.description none

end Trace

end DiceRoll
