import DiceRoll.Text.ParseError
import DiceRoll.Text.Reading

set_option autoImplicit false

namespace DiceRoll

def lowercase (text : List Char) : List Char :=
  text.map Char.toLower

namespace Reading

def result {α : Type} (input : List Char) (reading : Reading α) : Except (List ParseError) α :=
  match reading.value, reading.problems with
  | some value, [] => .ok value
  | _, problems => .error (ParseError.ofProblems input problems)

end Reading

def parse (input : String) : Except (List ParseError) Expression :=
  (readExpression (lowercase input.toList) input.toList).result input.toList

def parseDice (input : String) : Except (List ParseError) Dice :=
  (readTerm (lowercase input.toList) input.toList).result input.toList

end DiceRoll
