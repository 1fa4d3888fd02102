set_option autoImplicit false

namespace DiceRoll

def byteLength : List Char → Nat
  | [] => 0
  | c :: text => c.utf8Size + byteLength text

-- A place in a text is named by what is left of the text there.
def byteOffset (text rest : List Char) : Nat :=
  byteLength text - byteLength rest

-- The text behind a number of bytes, if that is where a character starts or the text ends.
def dropBytes : Nat → List Char → Option (List Char)
  | 0, text => some text
  | _ + 1, [] => none
  | bytes + 1, c :: text =>
      if c.utf8Size ≤ bytes + 1 then dropBytes (bytes + 1 - c.utf8Size) text else none

def takeBytes : Nat → List Char → Option (List Char)
  | 0, _ => some []
  | _ + 1, [] => none
  | bytes + 1, c :: text =>
      if c.utf8Size ≤ bytes + 1 then (takeBytes (bytes + 1 - c.utf8Size) text).map (c :: ·) else none

def sliceBytes (start stop : Nat) (text : List Char) : Option (List Char) :=
  (dropBytes start text).bind (takeBytes (stop - start))

end DiceRoll
