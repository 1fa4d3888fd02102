import DiceRoll.Proofs.Notation.Sources
import DiceRoll.Proofs.Reading.Located

set_option autoImplicit false

namespace DiceRoll

-- The error of a text that has others in front, on its first line.
def ParseError.behind (front : String) (error : ParseError) : ParseError where
  kind := error.kind
  line := error.line
  column := error.column + if error.line = 1 then front.length else 0
  input := front ++ error.input

structure WrittenTerm.Inside (whole : List Char) (written : WrittenTerm) : Prop where
  start : written.start <:+ whole
  stop : written.stop <:+ whole

theorem term_inside (whole text tried : List Char) (written : WrittenTerm) (problems : List Problem)
    (inside : text <:+ whole) (found : scanTerm text = .found written problems tried) : written.Inside whole where
  start := by rwa [Notation.scan_term_start text written problems tried found]
  stop := (scan_term_suffix text written problems tried found).trans inside

theorem operand_inside (whole text : List Char) (written : WrittenTerm) (inside : text <:+ whole)
    (found : (scanOperand text).value = .term written) : written.Inside whole := by
  unfold scanOperand at found
  cases scanned : scanTerm text with
  | found term problems tried =>
      simp only [scanned] at found
      cases found
      exact term_inside whole text tried written problems inside scanned
  | noBase problems rest =>
      simp only [scanned, Scanned.map] at found
      split at found <;> cases found

theorem parts_inside (whole text : List Char) (inside : text <:+ whole) :
    ∀ part ∈ (scanParts text).value, ∀ written, part.operand = .term written → written.Inside whole := by
  induction text using scanParts.induct with
  | case1 text none =>
      rw [Notation.scan_parts_none text none]
      exact List.forall_mem_nil _
  | case2 text sign rest found operand ih =>
      have behind : rest <:+ text := by
        have signed := skip_blanks_suffix text
        rw [Notation.sign_found _ rest sign found] at signed
        exact (List.suffix_cons _ _).trans signed
      have atOperand := ((skip_blanks_suffix rest).trans behind).trans inside
      rw [Notation.scan_parts_some text rest sign found]
      exact List.forall_mem_cons.2 ⟨fun written term => operand_inside whole _ written atOperand term,
        ih ((scan_operand_suffix _).trans atOperand)⟩

theorem expression_inside (text : List Char) (expr : Scanned WrittenExpression)
    (found : scanExpression text = .found expr) :
    expr.value.first.Inside text ∧
      ∀ part ∈ expr.value.parts, ∀ written, part.operand = .term written → written.Inside text := by
  unfold scanExpression at found
  cases scanned : scanTerm (skipBlanks text) with
  | noBase problems rest =>
      rw [scanned] at found
      cases found
  | found first problems tried =>
      rw [scanned] at found
      cases found
      have inside := term_inside text _ tried first problems (skip_blanks_suffix text) scanned
      exact ⟨inside, parts_inside text first.stop inside.stop⟩

section

variable (front text typed : List Char)

theorem dice_behind (written : WrittenTerm) (inside : written.Inside text) :
    written.dice (front ++ text) (front ++ typed) = written.dice text typed := by
  unfold WrittenTerm.dice WrittenTerm.source
  rw [Notation.byte_offset_behind front text _ inside.start, Notation.byte_offset_behind front text _ inside.stop,
    Notation.slice_behind]

theorem terms_behind (parts : List Part)
    (inside : ∀ part ∈ parts, ∀ written, part.operand = .term written → written.Inside text) :
    parts.filterMap (Part.term? (WrittenTerm.dice (front ++ text) (front ++ typed))) =
      parts.filterMap (Part.term? (WrittenTerm.dice text typed)) := by
  refine List.filterMap_congr fun part member => ?_
  obtain ⟨sign, start, operand⟩ := part
  cases operand with
  | term written =>
      have same := dice_behind front text typed written (inside _ member written rfl)
      simp only [Part.term?, same]
  | constant value => rfl
  | missing => rfl

theorem scan_expression_behind (blank : ∀ c ∈ front, isBlank c = true) :
    scanExpression (front ++ text) = scanExpression text := by
  have skipped : skipBlanks (front ++ text) = skipBlanks text := List.dropWhile_append_of_pos blank
  rw [scanExpression, scanExpression, skipped]

theorem read_expression_behind (blank : ∀ c ∈ front, isBlank c = true) :
    readExpression (front ++ text) (front ++ typed) = readExpression text typed := by
  rw [read_expression_eq, read_expression_eq, scan_expression_behind front text blank]
  cases scanned : scanExpression text with
  | noTerm problems rest => rfl
  | found expr =>
      obtain ⟨first, parts⟩ := expression_inside text expr scanned
      have same : expr.value.expression (front ++ text) (front ++ typed) = expr.value.expression text typed := by
        unfold WrittenExpression.expression
        rw [dice_behind front text typed _ first, terms_behind front text typed _ parts]
      simp only [same]

end

theorem error_behind (front : String) (unbroken : '\n' ∉ front.toList) (fault : Fault) (before behind : List Char) :
    errorAt fault (front.toList ++ before) behind = (errorAt fault before behind).behind front := by
  obtain ⟨line, column⟩ := place_behind front.toList before unbroken
  have input : String.ofList (front.toList ++ before ++ behind) = front ++ String.ofList (before ++ behind) := by
    rw [List.append_assoc, String.ofList_append, String.ofList_toList]
  rw [String.length_toList] at column
  simp only [errorAt, line, column, input]
  rfl

theorem problem_behind (front s : String) (unbroken : '\n' ∉ front.toList) (problem : Problem)
    (inside : problem.rest <:+ lowercase s.toList) :
    problem.locate (front ++ s).toList = (problem.locate s.toList).behind front := by
  obtain ⟨fault, rest⟩ := problem
  obtain ⟨before, behind, split, rfl⟩ := lowercase_split s.toList rest inside
  rw [String.toList_append, split, problem_at, ← List.append_assoc, problem_at, error_behind front unbroken]

theorem problems_behind (front s : String) (unbroken : '\n' ∉ front.toList) (problems : List Problem)
    (placed : AllPlaced (lowercase s.toList) problems) :
    ParseError.ofProblems (front ++ s).toList problems =
      (ParseError.ofProblems s.toList problems).map (ParseError.behind front) := by
  have inside := all_placed_inside (lowercase s.toList) problems placed
  have within : lowercase s.toList <:+ lowercase (front ++ s).toList := by
    rw [String.toList_append, Notation.lowercase_append]
    exact List.suffix_append _ _
  rw [of_problems_map _ problems (inside_weaken problems _ _ inside within), of_problems_map _ problems inside,
    List.map_map]
  exact List.map_congr_left fun problem member =>
    problem_behind front s unbroken problem (inside problem (List.mem_eraseDups.1 member))

theorem result_behind {α : Type} (front s : String) (unbroken : '\n' ∉ front.toList) (reading : Reading α)
    (placed : AllPlaced (lowercase s.toList) reading.problems) :
    reading.result (front ++ s).toList = (reading.result s.toList).mapError (List.map (ParseError.behind front)) := by
  have errors := congrArg (@Except.error (List ParseError) α) (problems_behind front s unbroken reading.problems placed)
  obtain ⟨value, problems⟩ := reading
  cases value with
  | none => exact errors
  | some value =>
      cases problems with
      | nil => rfl
      | cons problem problems => exact errors

theorem leading_blanks_move (blanks s : String) (blank : ∀ c ∈ blanks.toList, isBlank c = true) :
    parse (blanks ++ s) = (parse s).mapError (List.map (ParseError.behind blanks)) := by
  have spelled : Notation.Spelled blanks.toList := fun c member => .inr (.inl (blank c member))
  have lowered : lowercase (blanks ++ s).toList = blanks.toList ++ lowercase s.toList := by
    rw [String.toList_append, Notation.lowercase_append, Notation.spelled_lower _ spelled]
  rw [parse, parse, lowered, String.toList_append, read_expression_behind _ _ _ blank, ← String.toList_append]
  exact result_behind blanks s (Notation.spelled_line _ spelled) _ (expression_read_placed _ _)

def indent : String :=
  "\t \x0c"

def indentedText : String :=
  "4294967296D6 - 5 + z9"

theorem indented_text_moved : (∀ c ∈ indent.toList, isBlank c = true) ∧
    parse indentedText =
      .error [⟨.invalid oversizedReason, 1, 1, indentedText⟩, ⟨.unexpected '+', 1, 18, indentedText⟩] ∧
    parse (indent ++ indentedText) =
      .error [⟨.invalid oversizedReason, 1, 4, indent ++ indentedText⟩,
        ⟨.unexpected '+', 1, 21, indent ++ indentedText⟩] := by
  have blank : ∀ c ∈ indent.toList, isBlank c = true := by simp [indent, isBlank]
  have rejected : parse indentedText =
      .error [⟨.invalid oversizedReason, 1, 1, indentedText⟩, ⟨.unexpected '+', 1, 18, indentedText⟩] := by decide +kernel
  refine ⟨blank, rejected, ?_⟩
  rw [leading_blanks_move indent indentedText blank, rejected]
  rfl

end DiceRoll
