import DiceRoll.Dice.Draft

set_option autoImplicit false

namespace DiceRoll

inductive Fault where
  | unexpected
  | oversized
  | unbuilt (error : BuildError)
deriving DecidableEq, Repr

structure Problem where
  fault : Fault
  -- The text from the place on.
  rest : List Char
deriving DecidableEq, Repr

-- A scanner leaves the rest of the text. What is wrong does not stop it, but is noted with its place.
structure Scanned (α : Type) where
  value : α
  problems : List Problem
  rest : List Char

namespace Scanned

variable {α β : Type}

def map (f : α → β) (scanned : Scanned α) : Scanned β :=
  ⟨f scanned.value, scanned.problems, scanned.rest⟩

def optional (scan : List Char → Option (Scanned α)) (text : List Char) : Scanned (Option α) :=
  match scan text with
  | none => ⟨none, [], text⟩
  | some scanned => scanned.map some

-- Something that has to be there. Scanning goes on without it if it is missing.
def required (scan : List Char → Option (Scanned α)) (text : List Char) : Scanned (Option α) :=
  match scan text with
  | none => ⟨none, [⟨.unexpected, text⟩], text⟩
  | some scanned => scanned.map some

theorem optional_suffix (scan : List Char → Option (Scanned α)) (text : List Char)
    (suffix : ∀ scanned, scan text = some scanned → scanned.rest <:+ text) :
    (optional scan text).rest <:+ text := by
  unfold optional
  split
  · exact List.suffix_refl text
  · rename_i scanned found
    exact suffix scanned found

theorem required_suffix (scan : List Char → Option (Scanned α)) (text : List Char)
    (suffix : ∀ scanned, scan text = some scanned → scanned.rest <:+ text) :
    (required scan text).rest <:+ text := by
  unfold required
  split
  · exact List.suffix_refl text
  · rename_i scanned found
    exact suffix scanned found

end Scanned

end DiceRoll
