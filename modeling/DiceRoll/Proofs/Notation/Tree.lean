import DiceRoll.Text.Expression
import Mathlib.Data.List.Forall2

set_option autoImplicit false

namespace DiceRoll.Notation

-- A tree keeps all that its text says, up to the blanks:
--
--   expression := blanks term (blanks sign blanks term)* (blanks sign blanks number)? blanks
--   term := number? (d | z) (number | %) (r number)? ((h | l | mh | ml) number)? (! number?)? ((* | x) number)?
--
-- It may hold any runs of digits as its numbers, and constants among its terms.
structure Numeral where
  digits : List Char
  present : digits ≠ []
  only : ∀ c ∈ digits, c.isDigit = true
deriving DecidableEq, Repr

namespace Numeral

def value (number : Numeral) : Nat :=
  decimal number.digits

def Started (number : Numeral) : Prop :=
  number.digits.head? ≠ some '0'

structure Proper (number : Numeral) : Prop where
  started : number.Started
  fits : number.value ≤ maxWord

end Numeral

inductive Sides where
  | number (number : Numeral)
  | percent
deriving DecidableEq, Repr

namespace Sides

def chars : Sides → List Char
  | .number n => n.digits
  | .percent => ['%']

def value : Sides → Nat
  | .number n => n.value
  | .percent => 100

def numbers : Sides → List Numeral
  | .number n => [n]
  | .percent => []

end Sides

inductive Times where
  | star
  | cross
deriving DecidableEq, Repr

def Times.symbol : Times → Char
  | star => '*'
  | cross => 'x'

structure Term where
  count : Option Numeral
  base : Base
  sides : Sides
  reroll : Option Numeral
  keep : Option (KeepRule × Numeral)
  explosion : Option (Option Numeral)
  multiply : Option (Times × Numeral)
deriving DecidableEq, Repr

def optionalChars {α : Type} (chars : α → List Char) : Option α → List Char
  | none => []
  | some a => chars a

namespace Term

def rerollChars (low : Numeral) : List Char :=
  'r' :: low.digits

def ruleChars : KeepRule → List Char
  | .high => ['h']
  | .low => ['l']
  | .middleHigh => ['m', 'h']
  | .middleLow => ['m', 'l']

def keepChars (keep : KeepRule × Numeral) : List Char :=
  ruleChars keep.1 ++ keep.2.digits

def explosionChars (high : Option Numeral) : List Char :=
  '!' :: optionalChars Numeral.digits high

def multiplyChars (multiply : Times × Numeral) : List Char :=
  multiply.1.symbol :: multiply.2.digits

def chars (term : Term) : List Char :=
  optionalChars Numeral.digits term.count ++ term.base.symbol :: (term.sides.chars ++
    (optionalChars rerollChars term.reroll ++ (optionalChars keepChars term.keep ++
      (optionalChars explosionChars term.explosion ++ optionalChars multiplyChars term.multiply))))

def numbers (term : Term) : List Numeral :=
  term.count.toList ++ term.sides.numbers ++ term.reroll.toList ++ (term.keep.map Prod.snd).toList ++
    term.explosion.join.toList ++ (term.multiply.map Prod.snd).toList

def countValue (term : Term) : Nat :=
  term.count.elim 1 Numeral.value

structure Denotes (term : Term) (clauses : Clauses) : Prop where
  base : clauses.base = term.base
  sides : clauses.sides.value.toNat = term.sides.value
  count : clauses.count.value.toNat = term.countValue
  reroll : clauses.rerollUpTo.map UInt32.toNat = term.reroll.map Numeral.value
  keep : (clauses.keep.rule, clauses.keep.count.toNat) =
    term.keep.elim (.high, term.countValue) fun keep => (keep.1, keep.2.value)
  explosion : clauses.explodeFrom.map UInt32.toNat =
    term.explosion.map fun high => high.elim term.sides.value Numeral.value
  multiply : clauses.multiply.toNat = term.multiply.elim 1 fun multiply => multiply.2.value

end Term

structure Blanks where
  chars : List Char
  only : ∀ c ∈ chars, isBlank c = true
deriving DecidableEq, Repr

inductive Operand where
  | term (term : Term)
  | constant (number : Numeral)
deriving DecidableEq, Repr

namespace Operand

def chars : Operand → List Char
  | .term written => written.chars
  | .constant number => number.digits

def numbers : Operand → List Numeral
  | .term written => written.numbers
  | .constant number => [number]

def isTerm : Operand → Bool
  | .term _ => true
  | .constant _ => false

end Operand

structure Part where
  before : Blanks
  sign : Sign
  between : Blanks
  operand : Operand
deriving DecidableEq, Repr

namespace Part

def chars (part : Part) : List Char :=
  part.before.chars ++ part.sign.symbol :: (part.between.chars ++ part.operand.chars)

def term? (part : Part) : Option (Sign × Term) :=
  match part.operand with
  | .term term => some (part.sign, term)
  | .constant _ => none

end Part

structure Expression where
  before : Blanks
  first : Term
  parts : List Part
  after : Blanks
deriving DecidableEq, Repr

namespace Expression

def chars (tree : Expression) : List Char :=
  tree.before.chars ++ (tree.first.chars ++ (tree.parts.flatMap Part.chars ++ tree.after.chars))

def numbers (tree : Expression) : List Numeral :=
  tree.first.numbers ++ tree.parts.flatMap fun part => part.operand.numbers

structure Grammatical (tree : Expression) : Prop where
  proper : ∀ number ∈ tree.numbers, number.Proper
  constantLast : ∀ part ∈ tree.parts.dropLast, part.operand.isTerm = true

-- The terms with their signs. The first one has none, and is added.
def terms (tree : Expression) : List (Sign × Term) :=
  (.plus, tree.first) :: tree.parts.filterMap Part.term?

def constant (parts : List Part) : Int :=
  match parts.getLast? with
  | some ⟨_, .plus, _, .constant number⟩ => number.value
  | some ⟨_, .minus, _, .constant number⟩ => -number.value
  | _ => 0

structure DenotesTerm (written : Sign × Term) (term : DiceRoll.Term) : Prop where
  sign : written.1 = term.sign
  clauses : written.2.Denotes term.dice.toClauses

-- The expression has the terms and the constant of the tree. The sources of its dice are not looked at.
structure Denotes (tree : Expression) (expr : DiceRoll.Expression) : Prop where
  terms : List.Forall₂ DenotesTerm tree.terms expr.terms
  adjustment : expr.adjustment.toInt = constant tree.parts

end Expression

end DiceRoll.Notation
