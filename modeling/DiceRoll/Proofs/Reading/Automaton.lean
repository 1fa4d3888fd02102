import DiceRoll.Proofs.Reading.Symbols
import DiceRoll.Text.Expression

set_option autoImplicit false

namespace DiceRoll

inductive Clause where
  | sides
  | reroll
  | keep
  | explosion
  | multiply
deriving DecidableEq, Repr

def Clause.rank : Clause → Nat
  | sides => 0
  | reroll => 1
  | keep => 2
  | explosion => 3
  | multiply => 4

inductive MoreDigits where
  | none
  | first
  | more
deriving DecidableEq, Repr

def MoreDigits.allows : MoreDigits → Char → Bool
  | none, _ => false
  | first, c => startsNumber c
  | more, c => c.isDigit

inductive ReadState where
  -- Nothing but blanks of an operand, be it the first one.
  | operand (first : Bool)
  | number (first : Bool)
  | needs (clause : Clause)
  | after (clause : Clause) (digits : MoreDigits)
  -- Blanks behind a term, and behind a constant.
  | gap
  | tail
deriving DecidableEq, Repr

def marker : Symbol → Option Clause
  | .char 'r' => some .reroll
  | .char 'h' => some .keep
  | .char 'l' => some .keep
  | .middleHigh => some .keep
  | .middleLow => some .keep
  | .char '!' => some .explosion
  | .char '*' => some .multiply
  | .char 'x' => some .multiply
  | _ => none

-- Only an explosion may go without a number.
def Clause.entered : Clause → ReadState
  | explosion => .after .explosion .first
  | clause => .needs clause

def isBase (c : Char) : Bool :=
  c == 'd' || c == 'z'

def isSign (c : Char) : Bool :=
  c == '+' || c == '-'

namespace ReadState

def between (c : Char) : Option ReadState :=
  if isBlank c then some .gap else if isSign c then some (.operand false) else none

def step : ReadState → Symbol → Option ReadState
  | operand first, .char c =>
      if isBlank c then some (.operand first)
      else if startsNumber c then some (.number first)
      else if isBase c then some (.needs .sides)
      else none
  | number first, .char c =>
      if c.isDigit then some (.number first)
      else if isBase c then some (.needs .sides)
      else if isBlank c && !first then some .tail
      else none
  | needs clause, .char c =>
      if startsNumber c then some (.after clause .more)
      else if clause = .sides ∧ c = '%' then some (.after .sides .none)
      else none
  | after clause digits, symbol =>
      match marker symbol, symbol with
      | some next, _ => if clause.rank < next.rank then some next.entered else none
      | none, .char c => if digits.allows c then some (.after clause .more) else between c
      | none, _ => none
  | gap, .char c => between c
  | tail, .char c => if isBlank c then some .tail else none
  | _, _ => none

def complete : ReadState → Bool
  | operand _ => false
  | number first => !first
  | needs _ => false
  | after _ _ => true
  | gap => true
  | tail => true

def run (state : ReadState) : List Symbol → Option ReadState
  | [] => some state
  | symbol :: symbols =>
      match state.step symbol with
      | none => none
      | some next => next.run symbols

def completion : ReadState → List Char
  | operand _ => ['d', '%']
  | number _ => ['d', '%']
  | needs _ => ['1']
  | _ => []

end ReadState

-- A symbol in front of a text in lower case. An `m` is also taken alone, but it never fits so.
inductive Front : List Char → Symbol → List Char → Prop where
  | char (c : Char) (text : List Char) : Front (c :: text) (.char c) text
  | middleHigh (text : List Char) : Front ('m' :: 'h' :: text) .middleHigh text
  | middleLow (text : List Char) : Front ('m' :: 'l' :: text) .middleLow text

inductive Reach : ReadState → List Char → ReadState → List Char → Prop where
  | here (state : ReadState) (text : List Char) : Reach state text state text
  | next (state middle last : ReadState) (symbol : Symbol) (text more rest : List Char) (front : Front text symbol more)
      (steps : state.step symbol = some middle) (reach : Reach middle more last rest) : Reach state text last rest

structure Faulty (state : ReadState) (text : List Char) : Prop where
  early : text = [] → state.complete = false
  unfit : ∀ symbol more, Front text symbol more → state.step symbol = none

theorem reach_trans (first middle last : ReadState) (text between rest : List Char)
    (before : Reach first text middle between) (behind : Reach middle between last rest) :
    Reach first text last rest := by
  induction before with
  | here => exact behind
  | next state middle last symbol text more rest front steps reach ih =>
      exact .next state middle _ symbol text more _ front steps (ih behind)

theorem step_middle (state : ReadState) : state.step (.char 'm') = none := by
  cases state with
  | operand first => rfl
  | number first => cases first <;> rfl
  | needs clause => cases clause <;> rfl
  | after clause digits => cases digits <;> rfl
  | gap => rfl
  | tail => rfl

namespace ReadState

theorem run_append (state : ReadState) (symbols more : List Symbol) :
    state.run (symbols ++ more) = (state.run symbols).bind fun last => last.run more := by
  induction symbols generalizing state with
  | nil => rfl
  | cons symbol symbols ih =>
      rw [List.cons_append, run, run]
      cases state.step symbol with
      | none => rfl
      | some next => exact ih next

theorem completion_completes (state : ReadState) :
    ∃ last, state.run ((symbols state.completion).map Symbol.lower) = some last ∧ last.complete = true := by
  cases state with
  | operand first => exact ⟨.after .sides .none, rfl, rfl⟩
  | number first => exact ⟨.after .sides .none, rfl, rfl⟩
  | needs clause => exact ⟨.after clause .more, rfl, rfl⟩
  | after clause digits => exact ⟨_, rfl, rfl⟩
  | gap => exact ⟨_, rfl, rfl⟩
  | tail => exact ⟨_, rfl, rfl⟩

end ReadState

end DiceRoll
