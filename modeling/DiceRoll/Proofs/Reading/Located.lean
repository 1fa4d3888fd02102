import DiceRoll.Proofs.Notation.Lower
import DiceRoll.Proofs.Reading.Lines
import DiceRoll.Proofs.Reading.Placed
import DiceRoll.Proofs.Reading.Repeats

set_option autoImplicit false

namespace DiceRoll

-- The character at a line and column. A line break is one past the end of its line.
def charAt? (text : List Char) (line column : Nat) : Option Char :=
  match (linesOf text)[line - 1]? with
  | none => none
  | some characters =>
      if column = characters.length + 1 ∧ line < (linesOf text).length then some '\n' else characters[column - 1]?

def LargeNumberAt (text : List Char) (line column : Nat) : Prop :=
  ∃ left right first digits after, At text line column left right ∧ (∀ c ∈ left.getLast?, c.isDigit = false) ∧
    LargeRun right first digits after

def ParseError.KindFits (error : ParseError) (text : List Char) : Prop :=
  match error.kind with
  | .unexpected found => charAt? text error.line error.column = some found
  | .incomplete => error.line = (linesOf text).length ∧ error.column = error.lineText.length + 1
  | .invalid reason => reason = oversizedReason ∧ LargeNumberAt text error.line error.column

structure Located (text : String) (error : ParseError) : Prop where
  input : error.input = text
  line : 1 ≤ error.line ∧ error.line ≤ (linesOf text.toList).length
  column : 1 ≤ error.column ∧ error.column ≤ error.lineText.length + 1
  kind : error.KindFits text.toList

def errorAt (fault : Fault) (before behind : List Char) : ParseError where
  kind := .ofReason fault.reason? behind
  line := lineOf before
  column := columnOf before
  input := String.ofList (before ++ behind)

theorem lowercase_split (input rest : List Char) (inside : rest <:+ lowercase input) :
    ∃ before behind, input = before ++ behind ∧ rest = lowercase behind := by
  obtain ⟨front, split⟩ := inside
  obtain ⟨before, behind, rfl, rfl, rfl⟩ := List.map_eq_append_iff.1 split.symm
  exact ⟨before, behind, rfl, rfl⟩

theorem problem_at (fault : Fault) (before behind : List Char) :
    Problem.locate (before ++ behind) ⟨fault, lowercase behind⟩ = errorAt fault before behind := by
  have start : (before ++ behind).length - (lowercase behind).length = before.length := by
    rw [lowercase, List.length_map, List.length_append, Nat.add_sub_cancel]
  simp only [Problem.locate, start, List.take_left, List.drop_left]
  rfl

theorem lowercase_digits (run digits : List Char) (lower : lowercase run = digits)
    (only : ∀ c ∈ digits, c.isDigit = true) : run = digits := by
  subst lower
  have same : ∀ c ∈ run, c.toLower = id c := fun c member =>
    Notation.lowered_digit c (only _ (List.mem_map_of_mem member))
  exact ((List.map_congr_left same).trans (List.map_id run)).symm

theorem last_not_digit (before : List Char) (ends : ∀ c ∈ (lowercase before).getLast?, c.isDigit = false) :
    ∀ c ∈ (lastLine before).getLast?, c.isDigit = false := by
  intro c member
  rw [lastLine, List.getLast?_reverse, List.head?_takeWhile, List.head?_reverse] at member
  have last : before.getLast? = some c := (Option.filter_eq_some_iff.1 member).1
  have lowered := ends c.toLower (by rw [lowercase, List.getLast?_map, last]; rfl)
  rw [Notation.is_digit_lower] at lowered
  exact lowered

theorem first_not_digit (behind : List Char) (begins : ∀ c ∈ (lowercase behind).head?, c.isDigit = false) :
    ∀ c ∈ (firstLine behind).head?, c.isDigit = false := by
  intro c member
  rw [firstLine, List.head?_takeWhile] at member
  have first : behind.head? = some c := (Option.filter_eq_some_iff.1 member).1
  have lowered := begins c.toLower (by rw [lowercase, List.head?_map, first]; rfl)
  rw [Notation.is_digit_lower] at lowered
  exact lowered

theorem digit_same_line (c : Char) (digit : c.isDigit = true) : (c != '\n') = true := by
  refine bne_iff_ne.2 ?_
  rintro rfl
  cases digit

theorem large_run_line (behind : List Char) (first : Char) (digits after : List Char)
    (run : LargeRun (lowercase behind) first digits after) :
    ∃ later, LargeRun (firstLine behind) first digits later := by
  have only : ∀ c ∈ first :: digits, c.isDigit = true := List.forall_mem_cons.2 ⟨start_digit first run.start, run.only⟩
  obtain ⟨same, later, rfl, lower, rest⟩ := List.map_eq_append_iff.1 run.split
  cases lowercase_digits same (first :: digits) lower only
  refine ⟨firstLine later, ?_, run.start, run.only, first_not_digit later ?_, run.large⟩
  · exact List.takeWhile_append_of_pos fun c member => digit_same_line c (only c member)
  · rw [lowercase, rest]
    exact run.stops

theorem large_number_at (before behind : List Char) (fresh : Fresh (lowercase (before ++ behind)) (lowercase behind))
    (large : ∃ first digits after, LargeRun (lowercase behind) first digits after) :
    LargeNumberAt (before ++ behind) (lineOf before) (columnOf before) := by
  obtain ⟨front, split, ends⟩ := fresh
  obtain ⟨first, digits, after, run⟩ := large
  obtain ⟨later, here⟩ := large_run_line behind first digits after run
  rw [lowercase, List.map_append] at split
  cases List.append_cancel_right split
  exact ⟨lastLine before, firstLine behind, first, digits, later, at_place before behind,
    last_not_digit before ends, here⟩

theorem char_at_place (before behind : List Char) (c : Char) :
    charAt? (before ++ c :: behind) (lineOf before) (columnOf before) = some c := by
  have place := at_place before (c :: behind)
  rw [charAt?, place.line, place.column]
  by_cases other : c = '\n'
  · subst other
    have lines := lines_length (before ++ '\n' :: behind)
    rw [List.count_append, List.count_cons_self] at lines
    have last : firstLine ('\n' :: behind) = [] := rfl
    have further : lineOf before < (linesOf (before ++ '\n' :: behind)).length := by
      rw [lineOf]
      omega
    simp only [last, List.append_nil]
    rw [if_pos ⟨trivial, further⟩]
  · have first : firstLine (c :: behind) = c :: firstLine behind := List.takeWhile_cons_of_pos (bne_iff_ne.2 other)
    rw [first]
    simp

theorem end_place (before : List Char) :
    lineOf before = (linesOf before).length ∧ columnOf before = (lastLine before).length + 1 :=
  ⟨(lines_length before).symm, by rw [columnOf, lastLine, List.length_reverse]⟩

theorem error_line_text (fault : Fault) (before behind : List Char) :
    (errorAt fault before behind).lineText = String.ofList (lastLine before ++ firstLine behind) := by
  have place := at_place before behind
  simp only [ParseError.lineText, errorAt, String.toList_ofList, place.line, Option.getD_some]

theorem error_located (fault : Fault) (before behind : List Char)
    (large : fault = .oversized → LargeNumberAt (before ++ behind) (lineOf before) (columnOf before))
    (built : ∀ error, fault ≠ .unbuilt error) :
    Located (String.ofList (before ++ behind)) (errorAt fault before behind) := by
  have place := at_place before behind
  have text := error_line_text fault before behind
  refine ⟨rfl, ?_, ?_, ?_⟩
  · rw [String.toList_ofList]
    have inside := (List.getElem?_eq_some_iff.1 place.line).1
    have pos := place.pos
    simp only [errorAt]
    omega
  · rw [text, String.length_ofList, List.length_append]
    have column := place.column
    simp only [errorAt]
    omega
  · rw [String.toList_ofList]
    cases fault with
    | unbuilt error => exact absurd rfl (built error)
    | oversized => exact ⟨rfl, large rfl⟩
    | unexpected =>
        cases behind with
        | nil =>
            obtain ⟨line, column⟩ := end_place before
            change _ ∧ _
            rw [text, String.length_ofList, List.append_nil]
            exact ⟨line, by rw [firstLine, List.takeWhile_nil, List.append_nil]; exact column⟩
        | cons c behind => exact char_at_place before behind c

theorem problem_error_located (input : String) (problem : Problem) (placed : Placed (lowercase input.toList) problem) :
    Located input (problem.locate input.toList) := by
  obtain ⟨fault, rest⟩ := problem
  obtain ⟨before, behind, split, rfl⟩ := lowercase_split input.toList rest placed.inside
  have text : input = String.ofList (before ++ behind) := by rw [← split, String.ofList_toList]
  rw [split, problem_at, text]
  refine error_located fault before behind (fun oversized => ?_) placed.built
  have large := placed.large oversized
  rw [split] at large
  exact large_number_at before behind large.1 large.2

theorem error_unique (a b : Fault) (beforeA beforeB behindA behindB : List Char)
    (text : beforeA ++ behindA = beforeB ++ behindB) (same : errorAt a beforeA behindA = errorAt b beforeB behindB) :
    a = b ∧ behindA = behindB := by
  have place := place_unique beforeA beforeB behindA behindB text (congrArg ParseError.line same)
    (congrArg ParseError.column same)
  subst place
  have behind := List.append_cancel_left text
  subst behind
  exact ⟨a.reason_injective b (kind_reason _ _ behindA (congrArg ParseError.kind same)), rfl⟩

theorem problem_unique (input : List Char) (a b : Problem) (insideA : a.rest <:+ lowercase input)
    (insideB : b.rest <:+ lowercase input) (same : a.locate input = b.locate input) : a = b := by
  obtain ⟨faultA, restA⟩ := a
  obtain ⟨faultB, restB⟩ := b
  obtain ⟨beforeA, behindA, rfl, rfl⟩ := lowercase_split input restA insideA
  obtain ⟨beforeB, behindB, text, rfl⟩ := lowercase_split _ restB insideB
  rw [problem_at] at same
  rw [text, problem_at] at same
  obtain ⟨rfl, rfl⟩ := error_unique faultA faultB beforeA beforeB behindA behindB text same
  rfl

-- Errors repeat each other exactly where problems do.
theorem of_problems_map (input : List Char) (problems : List Problem) (inside : Inside problems (lowercase input)) :
    ParseError.ofProblems input problems = problems.eraseDups.map (Problem.locate input) :=
  erase_dups_map _ problems fun a memberA b memberB same =>
    problem_unique input a b (inside a memberA) (inside b memberB) same

def Reading.Explained {α : Type} (reading : Reading α) : Prop :=
  reading.value = none → reading.problems ≠ []

theorem stuck_explained {α : Type} (problems : List Problem) (rest : List Char) :
    (Reading.stuck problems rest : Reading α).Explained :=
  fun _ => List.append_ne_nil_of_right_ne_nil problems (List.cons_ne_nil _ _)

theorem found_explained {α : Type} (value : α) (problems : List Problem) :
    (⟨some value, problems⟩ : Reading α).Explained :=
  nofun

theorem read_term_explained (text typed : List Char) : (readTerm text typed).Explained := by
  rw [read_term_eq]
  cases scanTerm text with
  | noBase problems rest => exact stuck_explained problems rest
  | found term problems tried =>
      simp only
      split
      · exact found_explained _ _
      · exact stuck_explained problems tried

theorem read_expression_explained (text typed : List Char) : (readExpression text typed).Explained := by
  rw [read_expression_eq]
  cases scanExpression text with
  | noTerm problems rest => exact stuck_explained problems rest
  | found expr =>
      simp only
      split
      · exact found_explained _ _
      · exact stuck_explained _ _

theorem result_rejected {α : Type} (input : List Char) (reading : Reading α) (errors : List ParseError)
    (explained : reading.Explained) (rejected : reading.result input = .error errors) :
    reading.problems ≠ [] ∧ errors = ParseError.ofProblems input reading.problems := by
  obtain ⟨value, problems⟩ := reading
  cases problems with
  | cons problem problems =>
      cases value <;> cases rejected <;> exact ⟨List.cons_ne_nil _ _, rfl⟩
  | nil =>
      cases value with
      | none => exact absurd rfl (explained rfl)
      | some value => cases rejected

theorem of_problems_located (input : String) (problems : List Problem) (some : problems ≠ [])
    (placed : AllPlaced (lowercase input.toList) problems) :
    ParseError.ofProblems input.toList problems ≠ [] ∧ (ParseError.ofProblems input.toList problems).Nodup ∧
      ∀ error ∈ ParseError.ofProblems input.toList problems, Located input error := by
  refine ⟨?_, erase_dups_nodup _, fun error member => ?_⟩
  · obtain ⟨problem, member⟩ := List.exists_mem_of_ne_nil problems some
    have located := List.mem_eraseDups.2 (List.mem_map_of_mem (f := Problem.locate input.toList) member)
    exact List.ne_nil_of_mem located
  · obtain ⟨problem, noted, rfl⟩ := List.mem_map.1 (List.mem_eraseDups.1 member)
    exact problem_error_located input problem (placed problem noted)

theorem errors_located (input : String) (errors : List ParseError)
    (rejected : parse input = .error errors ∨ parseDice input = .error errors) :
    errors ≠ [] ∧ errors.Nodup ∧ ∀ error ∈ errors, Located input error := by
  rcases rejected with rejected | rejected
  · obtain ⟨some, rfl⟩ := result_rejected input.toList _ errors (read_expression_explained _ _) rejected
    exact of_problems_located input _ some (expression_read_placed _ _)
  · obtain ⟨some, rfl⟩ := result_rejected input.toList _ errors (read_term_explained _ _) rejected
    exact of_problems_located input _ some (term_read_placed _ _)

def brokenLine : String :=
  "2D4294967296 + d6R\n"

def brokenLineErrors : List ParseError :=
  [⟨.invalid oversizedReason, 1, 3, brokenLine⟩, ⟨.unexpected '\n', 1, 19, brokenLine⟩]

theorem broken_line_located : parse brokenLine = .error brokenLineErrors ∧ brokenLineErrors ≠ [] ∧
    brokenLineErrors.Nodup ∧ ∀ error ∈ brokenLineErrors, Located brokenLine error := by
  have rejected : parse brokenLine = .error brokenLineErrors := by decide +kernel
  exact ⟨rejected, errors_located brokenLine brokenLineErrors (.inl rejected)⟩

end DiceRoll
