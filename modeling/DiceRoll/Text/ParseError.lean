import DiceRoll.Text.Scanned

set_option autoImplicit false

namespace DiceRoll

inductive ParseErrorKind where
  | unexpected (found : Char)
  | incomplete
  | invalid (reason : String)
deriving DecidableEq, Repr

structure ParseError where
  kind : ParseErrorKind
  -- Lines and columns count from one.
  line : Nat
  column : Nat
  input : String
deriving DecidableEq, Repr

def lineOf (before : List Char) : Nat :=
  before.count '\n' + 1

def columnOf (before : List Char) : Nat :=
  (before.reverse.takeWhile (· != '\n')).length + 1

def linesOf : List Char → List (List Char)
  | [] => [[]]
  | c :: text =>
      if c = '\n' then [] :: linesOf text
      else
        match linesOf text with
        | [] => [[c]]
        | line :: lines => (c :: line) :: lines

def oversizedReason : String :=
  "Invalid number: number too large to fit in target type"

theorem oversized_not_built (error : BuildError) : oversizedReason ≠ error.message := by
  cases error <;> decide

namespace Fault

def reason? : Fault → Option String
  | unexpected => none
  | oversized => some oversizedReason
  | unbuilt error => some error.message

theorem reason_injective (a b : Fault) (same : a.reason? = b.reason?) : a = b := by
  cases a with
  | unexpected =>
      cases b with
      | unexpected => rfl
      | oversized => cases same
      | unbuilt error => cases same
  | oversized =>
      cases b with
      | unexpected => cases same
      | oversized => rfl
      | unbuilt error => exact absurd (Option.some.inj same) (oversized_not_built error)
  | unbuilt error =>
      cases b with
      | unexpected => cases same
      | oversized => exact absurd (Option.some.inj same).symm (oversized_not_built error)
      | unbuilt other => rw [error.message_injective other (Option.some.inj same)]

end Fault

-- Without a reason of its own, a problem is what stands there, or that nothing does.
def ParseErrorKind.ofReason : Option String → List Char → ParseErrorKind
  | some reason, _ => .invalid reason
  | none, c :: _ => .unexpected c
  | none, [] => .incomplete

theorem kind_reason (a b : Option String) (behind : List Char)
    (same : ParseErrorKind.ofReason a behind = .ofReason b behind) : a = b := by
  cases a with
  | none => cases b <;> cases behind <;> cases same <;> rfl
  | some reason => cases b <;> cases behind <;> cases same <;> rfl

namespace Problem

def reason? (problem : Problem) : Option String :=
  problem.fault.reason?

-- A problem of a text as one of the input, which has its characters in the same places.
def locate (input : List Char) (problem : Problem) : ParseError :=
  let start := input.length - problem.rest.length
  let before := input.take start
  { kind := .ofReason problem.reason? (input.drop start)
    line := lineOf before
    column := columnOf before
    input := String.ofList input }

end Problem

namespace ParseError

def lineText (error : ParseError) : String :=
  String.ofList ((linesOf error.input.toList)[error.line - 1]?.getD [])

def message (error : ParseError) : String :=
  match error.kind with
  | .unexpected found =>
      "Unexpected '" ++ found.toString ++ "' (at position " ++ toString error.column ++ ") in dice expression '" ++
        error.lineText ++ "'"
  | .incomplete => "Incomplete dice expression '" ++ error.lineText ++ "'"
  | .invalid reason =>
      reason ++ " (at position " ++ toString error.column ++ ") in dice expression '" ++ error.lineText ++ "'"

def ofProblems (input : List Char) (problems : List Problem) : List ParseError :=
  (problems.map (Problem.locate input)).eraseDups

def messages (errors : List ParseError) : String :=
  "\n".intercalate (errors.map message)

end ParseError

end DiceRoll
