import DiceRoll.Proofs.Notation.Slices
import DiceRoll.Proofs.Reading.Located

set_option autoImplicit false

namespace DiceRoll

namespace Dice

structure SameLetters (a b : Dice) : Prop where
  clauses : a.toClauses = b.toClauses
  source : lowercase a.source.toList = lowercase b.source.toList

end Dice

namespace Term

structure SameLetters (a b : Term) : Prop where
  sign : a.sign = b.sign
  dice : a.dice.SameLetters b.dice

end Term

namespace Expression

structure SameLetters (a b : Expression) : Prop where
  terms : List.Forall₂ Term.SameLetters a.terms b.terms
  adjustment : a.adjustment = b.adjustment

end Expression

inductive ParseErrorKind.SameLetters : ParseErrorKind → ParseErrorKind → Prop where
  | unexpected (a b : Char) (letters : a.toLower = b.toLower) : SameLetters (.unexpected a) (.unexpected b)
  | incomplete : SameLetters .incomplete .incomplete
  | invalid (reason : String) : SameLetters (.invalid reason) (.invalid reason)

namespace ParseError

structure SameLetters (a b : ParseError) : Prop where
  kind : a.kind.SameLetters b.kind
  line : a.line = b.line
  column : a.column = b.column

end ParseError

inductive SameOutcome {α : Type} (values : α → α → Prop) :
    Except (List ParseError) α → Except (List ParseError) α → Prop where
  | read (a b : α) (letters : values a b) : SameOutcome values (.ok a) (.ok b)
  | rejected (a b : List ParseError) (letters : List.Forall₂ ParseError.SameLetters a b) :
      SameOutcome values (.error a) (.error b)

structure Reading.SameLetters {α : Type} (values : α → α → Prop) (a b : Reading α) : Prop where
  value : Option.Rel values a.value b.value
  problems : a.problems = b.problems

theorem break_lower (c : Char) : c.toLower = '\n' ↔ c = '\n' := by
  constructor
  · intro lowered
    rw [← lowered, Notation.lowered_below c (by rw [lowered]; decide)]
  · rintro rfl
    rfl

theorem place_lower (before : List Char) :
    lineOf (lowercase before) = lineOf before ∧ columnOf (lowercase before) = columnOf before := by
  induction before using List.reverseRecOn with
  | nil => exact ⟨rfl, rfl⟩
  | append_singleton before c ih =>
      obtain ⟨line, column⟩ := ih
      have last : lowercase (before ++ [c]) = lowercase before ++ [c.toLower] := Notation.lowercase_append before [c]
      rw [last]
      by_cases other : c = '\n'
      · subst other
        have lowered : '\n'.toLower = '\n' := (break_lower '\n').2 rfl
        rw [lowered, line_of_break, line_of_break, column_of_break, column_of_break, line]
        exact ⟨rfl, rfl⟩
      · have lowered : c.toLower ≠ '\n' := fun lowered => other ((break_lower c).1 lowered)
        rw [line_of_snoc _ _ lowered, line_of_snoc _ _ other, column_of_snoc _ _ lowered, column_of_snoc _ _ other]
        exact ⟨line, congrArg (· + 1) column⟩

theorem same_letters_error (fault : Fault) (beforeA beforeB behindA behindB : List Char)
    (before : lowercase beforeA = lowercase beforeB) (behind : lowercase behindA = lowercase behindB) :
    (errorAt fault beforeA behindA).SameLetters (errorAt fault beforeB behindB) where
  kind := by
    change (ParseErrorKind.ofReason fault.reason? behindA).SameLetters (.ofReason fault.reason? behindB)
    cases fault.reason? with
    | some reason => exact .invalid reason
    | none =>
        cases behindA with
        | nil =>
            cases List.map_eq_nil_iff.1 behind.symm
            exact .incomplete
        | cons a behindA =>
            obtain ⟨b, behindB, rfl, letters, _⟩ := List.map_eq_cons_iff.1 behind.symm
            exact .unexpected a b letters.symm
  line := by
    change lineOf beforeA = lineOf beforeB
    rw [← (place_lower beforeA).1, before, (place_lower beforeB).1]
  column := by
    change columnOf beforeA = columnOf beforeB
    rw [← (place_lower beforeA).2, before, (place_lower beforeB).2]

section

variable (s t : List Char) (letters : lowercase s = lowercase t)
include letters

theorem same_letters_problem (problem : Problem) (inside : problem.rest <:+ lowercase s) :
    (problem.locate s).SameLetters (problem.locate t) := by
  obtain ⟨fault, rest⟩ := problem
  obtain ⟨beforeA, behindA, rfl, restA⟩ := lowercase_split s rest inside
  obtain ⟨beforeB, behindB, rfl, restB⟩ := lowercase_split t rest (letters ▸ inside)
  -- What is left at the problem has the same letters, and so has what stands in front of it.
  have behind : lowercase behindA = lowercase behindB := restA.symm.trans restB
  have first := problem_at fault beforeA behindA
  have second := problem_at fault beforeB behindB
  rw [← restA] at first
  rw [← restB] at second
  rw [Notation.lowercase_append, Notation.lowercase_append, behind] at letters
  rw [first, second]
  exact same_letters_error fault _ _ _ _ (List.append_cancel_right letters) behind

theorem same_letters_problems (problems : List Problem) (inside : Inside problems (lowercase s)) :
    List.Forall₂ ParseError.SameLetters (ParseError.ofProblems s problems) (ParseError.ofProblems t problems) := by
  rw [of_problems_map s problems inside, of_problems_map t problems (letters ▸ inside), List.forall₂_map_left_iff,
    List.forall₂_map_right_iff, List.forall₂_same]
  exact fun problem member => same_letters_problem s t letters problem (inside problem (List.mem_eraseDups.1 member))

theorem same_letters_outcome {α : Type} (values : α → α → Prop) (a b : Reading α)
    (alike : Reading.SameLetters values a b) (placed : AllPlaced (lowercase s) a.problems) :
    SameOutcome values (a.result s) (b.result t) := by
  obtain ⟨a, problems⟩ := a
  obtain ⟨b, others⟩ := b
  obtain ⟨value, same⟩ := alike
  simp only at value same
  subst same
  have inside := all_placed_inside (lowercase s) problems placed
  have rejected : SameOutcome values (.error (ParseError.ofProblems s problems))
      (.error (ParseError.ofProblems t problems)) :=
    .rejected _ _ (same_letters_problems s t letters problems inside)
  cases value with
  | none => exact rejected
  | some value =>
      cases problems with
      | nil => exact .read _ _ value
      | cons problem problems => exact rejected

theorem same_letters_dice (text : List Char) (written : WrittenTerm) :
    (written.dice text s).SameLetters (written.dice text t) where
  clauses := rfl
  source := by
    have sliced (start stop : Nat) :
        (sliceBytes start stop s).map lowercase = (sliceBytes start stop t).map lowercase := by
      rw [Notation.slice_lower, letters, Notation.slice_lower]
    have lowered (part : Option (List Char)) : lowercase (part.getD []) = (part.map lowercase).getD [] := by
      cases part <;> rfl
    simp only [WrittenTerm.dice, WrittenTerm.source, String.toList_ofList]
    rw [lowered, sliced, lowered]

theorem same_letters_terms (text : List Char) (parts : List Part) :
    List.Forall₂ Term.SameLetters (parts.filterMap (Part.term? (WrittenTerm.dice text s)))
      (parts.filterMap (Part.term? (WrittenTerm.dice text t))) := by
  induction parts with
  | nil => exact .nil
  | cons part parts ih =>
      obtain ⟨sign, start, operand⟩ := part
      cases operand with
      | term written => exact .cons ⟨rfl, same_letters_dice s t letters text written⟩ ih
      | constant value => exact ih
      | missing => exact ih

theorem same_letters_expression (text : List Char) (written : WrittenExpression) :
    (written.expression text s).SameLetters (written.expression text t) where
  terms := .cons ⟨rfl, same_letters_dice s t letters text written.first⟩
    (same_letters_terms s t letters text written.parts)
  adjustment := rfl

theorem same_letters_read (text : List Char) :
    Reading.SameLetters Expression.SameLetters (readExpression text s) (readExpression text t) := by
  rw [read_expression_eq, read_expression_eq]
  cases scanExpression text with
  | noTerm problems rest => exact ⟨.none, rfl⟩
  | found expr =>
      simp only
      split
      · exact ⟨.some (same_letters_expression s t letters text expr.value), rfl⟩
      · exact ⟨.none, rfl⟩

theorem same_letters_term_read (text : List Char) :
    Reading.SameLetters Dice.SameLetters (readTerm text s) (readTerm text t) := by
  rw [read_term_eq, read_term_eq]
  cases scanTerm text with
  | noBase problems rest => exact ⟨.none, rfl⟩
  | found term problems tried =>
      simp only
      split
      · exact ⟨.some (same_letters_dice s t letters text term), rfl⟩
      · exact ⟨.none, rfl⟩

end

theorem letter_case_ignored (s t : String) (letters : lowercase s.toList = lowercase t.toList) :
    SameOutcome Expression.SameLetters (parse s) (parse t) ∧
      SameOutcome Dice.SameLetters (parseDice s) (parseDice t) := by
  have expression := same_letters_read s.toList t.toList letters (lowercase s.toList)
  have dice := same_letters_term_read s.toList t.toList letters (lowercase s.toList)
  rw [parse, parse, parseDice, parseDice, ← letters]
  exact ⟨same_letters_outcome s.toList t.toList letters _ _ _ expression (expression_read_placed _ _),
    same_letters_outcome s.toList t.toList letters _ _ _ dice (term_read_placed _ _)⟩

def shouted : String :=
  "2D6R + Xé"

def whispered : String :=
  "2d6r + xé"

theorem shouted_whispered : lowercase shouted.toList = lowercase whispered.toList ∧
    parse shouted = .error [⟨.unexpected ' ', 1, 5, shouted⟩, ⟨.unexpected 'X', 1, 8, shouted⟩] ∧
    SameOutcome Expression.SameLetters (parse shouted) (parse whispered) ∧
    SameOutcome Dice.SameLetters (parseDice shouted) (parseDice whispered) := by
  have letters : lowercase shouted.toList = lowercase whispered.toList := by decide +kernel
  exact ⟨letters, by decide +kernel, letter_case_ignored shouted whispered letters⟩

end DiceRoll
