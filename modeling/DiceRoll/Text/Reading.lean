import DiceRoll.Text.Expression

set_option autoImplicit false

namespace DiceRoll

structure Reading (α : Type) where
  value : Option α
  problems : List Problem
deriving DecidableEq, Repr

def Reading.stuck {α : Type} (problems : List Problem) (rest : List Char) : Reading α :=
  ⟨none, problems ++ [⟨.unexpected, rest⟩]⟩

-- Dice that cannot be built end the reading.
def Reading.afterBuild {α β : Type} (problems : List Problem) (built : Except Problem α) (next : α → Reading β) :
    Reading β :=
  match built with
  | .ok value => next value
  | .error problem => ⟨none, problems ++ [problem]⟩

def readNumber (text : List Char) : Reading Positive :=
  match scanNumber text with
  | none => .stuck [] text
  | some number =>
      if number.rest = [] then ⟨some number.value, number.problems⟩
      else .stuck number.problems number.rest

def readNumberAndRest (text : List Char) : Reading (Positive × List Char) :=
  match scanNumber text with
  | none => .stuck [] text
  | some number => ⟨some (number.value, number.rest), number.problems⟩

-- Reads one term, with no blanks around it. What is behind it is reported where reading got furthest.
def readTerm (text typed : List Char) : Reading Dice :=
  match scanTerm text with
  | .noBase problems rest => .stuck problems rest
  | .found term problems tried =>
      .afterBuild problems (term.build text typed) fun dice =>
        if term.stop = [] then ⟨some dice, problems⟩ else .stuck problems tried

theorem read_term_eq (text typed : List Char) :
    readTerm text typed =
      match scanTerm text with
      | .noBase problems rest => .stuck problems rest
      | .found term problems tried =>
          if term.stop = [] then ⟨some (term.dice text typed), problems⟩ else .stuck problems tried := by
  simp only [readTerm, WrittenTerm.build_dice, Reading.afterBuild]

def readTermAndRest (text typed : List Char) : Reading (Dice × List Char) :=
  match scanTerm text with
  | .noBase problems rest => .stuck problems rest
  | .found term problems _ =>
      .afterBuild problems (term.build text typed) fun dice => ⟨some (dice, term.stop), problems⟩

theorem read_term_and_rest_eq (text typed : List Char) :
    readTermAndRest text typed =
      match scanTerm text with
      | .noBase problems rest => .stuck problems rest
      | .found term problems _ => ⟨some (term.dice text typed, term.stop), problems⟩ := by
  simp only [readTermAndRest, WrittenTerm.build_dice, Reading.afterBuild]

-- Reads an expression. There is one as soon as there is a first term.
def readExpression (text typed : List Char) : Reading Expression :=
  match scanExpression text with
  | .noTerm problems rest => .stuck problems rest
  | .found expr =>
      .afterBuild expr.problems (expr.value.build text typed) fun read =>
        if expr.rest = [] then ⟨some read, expr.problems⟩ else .stuck expr.problems expr.rest

theorem read_expression_eq (text typed : List Char) :
    readExpression text typed =
      match scanExpression text with
      | .noTerm problems rest => .stuck problems rest
      | .found expr =>
          if expr.rest = [] then ⟨some (expr.value.expression text typed), expr.problems⟩
          else .stuck expr.problems expr.rest := by
  simp only [readExpression, WrittenExpression.build_expression, Reading.afterBuild]

def readExpressionAndRest (text typed : List Char) : Reading (Expression × List Char) :=
  match scanExpression text with
  | .noTerm problems rest => .stuck problems rest
  | .found expr =>
      .afterBuild expr.problems (expr.value.build text typed) fun read => ⟨some (read, expr.rest), expr.problems⟩

theorem read_expression_and_rest_eq (text typed : List Char) :
    readExpressionAndRest text typed =
      match scanExpression text with
      | .noTerm problems rest => .stuck problems rest
      | .found expr => ⟨some (expr.value.expression text typed, expr.rest), expr.problems⟩ := by
  simp only [readExpressionAndRest, WrittenExpression.build_expression, Reading.afterBuild]

end DiceRoll
