import DiceRoll.Expression
import DiceRoll.Text.Term

set_option autoImplicit false

namespace DiceRoll

def isBlank (c : Char) : Bool :=
  c == ' ' || c == '\t' || c == '\x0c'

def skipBlanks (text : List Char) : List Char :=
  text.dropWhile isBlank

inductive Operand where
  | term (term : WrittenTerm)
  | constant (value : Positive)
  | missing
deriving DecidableEq, Repr

def Operand.isConstant : Operand → Bool
  | constant _ => true
  | _ => false

structure Part where
  sign : Sign
  start : List Char
  operand : Operand
deriving DecidableEq, Repr

structure WrittenExpression where
  first : WrittenTerm
  parts : List Part
deriving DecidableEq, Repr

def scanSign : List Char → Option (Sign × List Char)
  | '+' :: text => some (.plus, text)
  | '-' :: text => some (.minus, text)
  | _ => none

-- A term, else a number. What was wrong with the count of a term that is none is left to the number to report.
def scanOperand (text : List Char) : Scanned Operand :=
  match scanTerm text with
  | .found term problems _ => ⟨.term term, problems, term.stop⟩
  | .noBase _ _ =>
      (Scanned.required scanNumber text).map fun number =>
        match number with
        | none => .missing
        | some number => .constant number

theorem skip_blanks_suffix (text : List Char) : skipBlanks text <:+ text :=
  List.dropWhile_suffix isBlank

theorem scan_sign_shorter (text rest : List Char) (sign : Sign) (found : scanSign text = some (sign, rest)) :
    rest.length < text.length := by
  unfold scanSign at found
  split at found
  · cases found
    exact Nat.lt_succ_self _
  · cases found
    exact Nat.lt_succ_self _
  · contradiction

theorem scan_operand_suffix (text : List Char) : (scanOperand text).rest <:+ text := by
  unfold scanOperand
  split
  · rename_i term problems tried found
    exact scan_term_suffix text term problems tried found
  · exact Scanned.required_suffix scanNumber text (scan_number_suffix text)

theorem part_shorter (text rest : List Char) (sign : Sign)
    (found : scanSign (skipBlanks text) = some (sign, rest)) :
    (scanOperand (skipBlanks rest)).rest.length < text.length :=
  Nat.lt_of_le_of_lt
    (Nat.le_trans (scan_operand_suffix (skipBlanks rest)).length_le (skip_blanks_suffix rest).length_le)
    (Nat.lt_of_lt_of_le (scan_sign_shorter (skipBlanks text) rest sign found) (skip_blanks_suffix text).length_le)

-- Signs and what stands behind them, as far as they go. Blanks that no sign follows are not taken.
def scanParts (text : List Char) : Scanned (List Part) :=
  match _found : scanSign (skipBlanks text) with
  | none => ⟨[], [], text⟩
  | some (sign, rest) =>
      let operand := scanOperand (skipBlanks rest)
      let more := scanParts operand.rest
      ⟨⟨sign, skipBlanks text, operand.value⟩ :: more.value, operand.problems ++ more.problems, more.rest⟩
termination_by text.length
decreasing_by exact part_shorter text rest sign _found

def scanLeftover : List Char → Scanned Unit
  | [] => ⟨(), [], []⟩
  | c :: text => ⟨(), [⟨.unexpected, c :: text⟩], []⟩

-- For every constant with another sign behind it, that sign is reported.
def misplaced : List Part → List Problem
  | [] => []
  | [_] => []
  | ⟨_, _, .constant _⟩ :: next :: parts => ⟨.unexpected, next.start⟩ :: misplaced (next :: parts)
  | _ :: next :: parts => misplaced (next :: parts)

def signBehind : List Part → List Problem
  | [] => []
  | next :: _ => [⟨.unexpected, next.start⟩]

theorem misplaced_cons (part : Part) (parts : List Part) :
    misplaced (part :: parts) = (if part.operand.isConstant then signBehind parts else []) ++ misplaced parts := by
  obtain ⟨sign, start, operand⟩ := part
  cases parts with
  | nil => cases operand <;> rfl
  | cons next parts => cases operand <;> rfl

inductive ExpressionScan where
  | noTerm (problems : List Problem) (rest : List Char)
  | found (expr : Scanned WrittenExpression)

def scanExpression (text : List Char) : ExpressionScan :=
  match scanTerm (skipBlanks text) with
  | .noBase problems rest => .noTerm problems rest
  | .found first problems _ =>
      let parts := scanParts first.stop
      let leftover := scanLeftover (skipBlanks parts.rest)
      .found ⟨⟨first, parts.value⟩, problems ++ parts.problems ++ leftover.problems ++ misplaced parts.value,
        leftover.rest⟩

namespace Part

def term? (dice : WrittenTerm → Dice) : Part → Option Term
  | ⟨sign, _, .term term⟩ => some ⟨sign, dice term⟩
  | _ => none

def build (text typed : List Char) : Part → Except Problem (Option Term)
  | ⟨sign, _, .term term⟩ => (term.build text typed).map fun dice => some ⟨sign, dice⟩
  | _ => .ok none

theorem build_term (text typed : List Char) (part : Part) :
    part.build text typed = .ok (part.term? (WrittenTerm.dice text typed)) := by
  obtain ⟨sign, start, operand⟩ := part
  cases operand with
  | term term =>
      rw [build, WrittenTerm.build_dice]
      rfl
  | constant value => rfl
  | missing => rfl

end Part

namespace WrittenExpression

def adjustment (parts : List Part) : Total :=
  match parts.getLast? with
  | some ⟨sign, _, .constant value⟩ => sign.ofWord value.value
  | _ => 0

def expression (text typed : List Char) (expr : WrittenExpression) : Expression where
  first := expr.first.dice text typed
  more := expr.parts.filterMap (Part.term? (WrittenTerm.dice text typed))
  adjustment := adjustment expr.parts

def build (text typed : List Char) (expr : WrittenExpression) : Except Problem Expression := do
  let first ← expr.first.build text typed
  let more ← expr.parts.mapM (Part.build text typed)
  return { first := first, more := more.filterMap id, adjustment := adjustment expr.parts }

theorem build_expression (text typed : List Char) (expr : WrittenExpression) :
    expr.build text typed = .ok (expr.expression text typed) := by
  have parts : expr.parts.mapM (Part.build text typed) =
      .ok (expr.parts.map (Part.term? (WrittenTerm.dice text typed))) := by
    rw [funext (Part.build_term text typed)]
    exact List.mapM_pure
  rw [build, WrittenTerm.build_dice, parts]
  change Except.ok _ = Except.ok _
  rw [List.filterMap_map]
  rfl

end WrittenExpression

end DiceRoll
