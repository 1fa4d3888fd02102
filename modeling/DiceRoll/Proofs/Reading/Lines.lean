import DiceRoll.Text.Parse
import Mathlib.Data.List.Induction
import Mathlib.Data.List.TakeWhile

set_option autoImplicit false

namespace DiceRoll

def lastLine (before : List Char) : List Char :=
  (before.reverse.takeWhile (· != '\n')).reverse

def firstLine (behind : List Char) : List Char :=
  behind.takeWhile (· != '\n')

-- A place in a text: what its line has on the left and on the right of it.
structure At (text : List Char) (line column : Nat) (left right : List Char) : Prop where
  pos : 0 < line
  line : (linesOf text)[line - 1]? = some (left ++ right)
  column : column = left.length + 1

theorem lines_break (text : List Char) : linesOf ('\n' :: text) = [] :: linesOf text :=
  if_pos rfl

theorem lines_cons (c : Char) (text line : List Char) (lines : List (List Char)) (other : c ≠ '\n')
    (split : linesOf text = line :: lines) : linesOf (c :: text) = (c :: line) :: lines := by
  rw [linesOf, if_neg other, split]

theorem lines_first (text : List Char) : ∃ lines, linesOf text = firstLine text :: lines := by
  induction text with
  | nil => exact ⟨[], rfl⟩
  | cons c text ih =>
      by_cases other : c = '\n'
      · subst other
        exact ⟨linesOf text, lines_break text⟩
      · obtain ⟨lines, split⟩ := ih
        have first : firstLine (c :: text) = c :: firstLine text := List.takeWhile_cons_of_pos (bne_iff_ne.2 other)
        exact ⟨lines, first ▸ lines_cons c text _ lines other split⟩

theorem lines_append_break (before behind : List Char) :
    linesOf (before ++ '\n' :: behind) = linesOf before ++ linesOf behind := by
  induction before with
  | nil => exact lines_break behind
  | cons c before ih =>
      by_cases other : c = '\n'
      · subst other
        rw [List.cons_append, lines_break, ih, lines_break, List.cons_append]
      · obtain ⟨lines, split⟩ := lines_first before
        rw [split] at ih
        rw [List.cons_append, lines_cons c _ _ _ other ih, lines_cons c before _ _ other split]
        rfl

theorem lines_length (text : List Char) : (linesOf text).length = text.count '\n' + 1 := by
  induction text with
  | nil => rfl
  | cons c text ih =>
      by_cases other : c = '\n'
      · subst other
        rw [lines_break, List.length_cons, ih, List.count_cons_self]
      · obtain ⟨lines, split⟩ := lines_first text
        rw [split] at ih
        rw [lines_cons c text _ lines other split, List.count_cons_of_ne other, ← ih]
        rfl

theorem last_line_break (before : List Char) : lastLine (before ++ ['\n']) = [] := by
  simp [lastLine]

theorem last_line_snoc (before : List Char) (c : Char) (other : c ≠ '\n') :
    lastLine (before ++ [c]) = lastLine before ++ [c] := by
  simp [lastLine, other]

theorem line_of_break (before : List Char) : lineOf (before ++ ['\n']) = lineOf before + 1 := by
  simp [lineOf]

theorem line_of_snoc (before : List Char) (c : Char) (other : c ≠ '\n') : lineOf (before ++ [c]) = lineOf before := by
  simp [lineOf, other]

theorem column_of_break (before : List Char) : columnOf (before ++ ['\n']) = 1 := by
  simp [columnOf]

theorem column_of_snoc (before : List Char) (c : Char) (other : c ≠ '\n') :
    columnOf (before ++ [c]) = columnOf before + 1 := by
  simp [columnOf, other]

theorem first_line_place (before : List Char) (line : '\n' ∉ before) :
    lineOf before = 1 ∧ columnOf before = before.length + 1 := by
  have unbroken : ∀ c ∈ before.reverse, (c != '\n') = true := by
    intro c member
    refine bne_iff_ne.2 ?_
    rintro rfl
    exact line (List.mem_reverse.1 member)
  constructor
  · rw [lineOf, List.count_eq_zero.2 line]
  · rw [columnOf, List.takeWhile_eq_self_iff.2 unbroken, List.length_reverse]

theorem line_at (before behind : List Char) :
    (linesOf (before ++ behind))[lineOf before - 1]? = some (lastLine before ++ firstLine behind) := by
  induction before using List.reverseRecOn generalizing behind with
  | nil =>
      obtain ⟨lines, split⟩ := lines_first behind
      rw [List.nil_append, split]
      rfl
  | append_singleton before c ih =>
      rw [List.append_assoc, List.singleton_append]
      by_cases other : c = '\n'
      · subst other
        obtain ⟨lines, split⟩ := lines_first behind
        have index : lineOf (before ++ ['\n']) - 1 = (linesOf before).length := by
          rw [line_of_break, lines_length]
          rfl
        rw [lines_append_break, index, List.getElem?_append_right (Nat.le_refl _), Nat.sub_self, split, last_line_break]
        rfl
      · have line := ih (c :: behind)
        have first : firstLine (c :: behind) = c :: firstLine behind := List.takeWhile_cons_of_pos (bne_iff_ne.2 other)
        rw [line_of_snoc before c other, last_line_snoc before c other, line, first, List.append_assoc]
        rfl

theorem at_place (before behind : List Char) :
    At (before ++ behind) (lineOf before) (columnOf before) (lastLine before) (firstLine behind) where
  pos := Nat.succ_pos _
  line := line_at before behind
  column := by rw [columnOf, lastLine, List.length_reverse]

theorem place_next (before : List Char) (c : Char) :
    lineOf before < lineOf (before ++ [c]) ∨
      lineOf before = lineOf (before ++ [c]) ∧ columnOf before < columnOf (before ++ [c]) := by
  by_cases other : c = '\n'
  · subst other
    rw [line_of_break]
    exact .inl (Nat.lt_succ_self _)
  · rw [line_of_snoc before c other, column_of_snoc before c other]
    exact .inr ⟨rfl, Nat.lt_succ_self _⟩

theorem place_order (before more : List Char) :
    lineOf before < lineOf (before ++ more) ∨
      lineOf before = lineOf (before ++ more) ∧ columnOf before ≤ columnOf (before ++ more) := by
  induction more using List.reverseRecOn with
  | nil =>
      rw [List.append_nil]
      exact .inr ⟨rfl, Nat.le_refl _⟩
  | append_singleton more c ih =>
      have next := place_next (before ++ more) c
      rw [← List.append_assoc]
      omega

theorem place_further (before more : List Char) (further : more ≠ []) :
    lineOf before < lineOf (before ++ more) ∨
      lineOf before = lineOf (before ++ more) ∧ columnOf before < columnOf (before ++ more) := by
  cases more using List.reverseRecOn with
  | nil => exact absurd rfl further
  | append_singleton more c =>
      have order := place_order before more
      have next := place_next (before ++ more) c
      rw [← List.append_assoc]
      omega

theorem place_unique (a b behindA behindB : List Char) (text : a ++ behindA = b ++ behindB)
    (line : lineOf a = lineOf b) (column : columnOf a = columnOf b) : a = b := by
  have ordered (front more : List Char) (lines : lineOf front = lineOf (front ++ more))
      (columns : columnOf front = columnOf (front ++ more)) : front = front ++ more := by
    by_cases further : more = []
    · rw [further, List.append_nil]
    · have order := place_further front more further
      omega
  rcases List.append_eq_append_iff.1 text with ⟨more, rfl, _⟩ | ⟨more, rfl, _⟩
  · exact ordered a more line column
  · exact (ordered b more line.symm column.symm).symm

theorem place_behind (front before : List Char) (unbroken : '\n' ∉ front) :
    lineOf (front ++ before) = lineOf before ∧
      columnOf (front ++ before) = columnOf before + if lineOf before = 1 then front.length else 0 := by
  induction before using List.reverseRecOn with
  | nil =>
      obtain ⟨line, column⟩ := first_line_place front unbroken
      rw [List.append_nil, line, column]
      exact ⟨rfl, Nat.add_comm _ _⟩
  | append_singleton before c ih =>
      obtain ⟨line, column⟩ := ih
      rw [← List.append_assoc]
      by_cases other : c = '\n'
      · subst other
        have later : lineOf before + 1 ≠ 1 := Nat.succ_ne_succ_iff.2 (Nat.succ_ne_zero _)
        rw [line_of_break, line_of_break, column_of_break, column_of_break, line, if_neg later]
        exact ⟨rfl, rfl⟩
      · rw [line_of_snoc _ c other, line_of_snoc _ c other, column_of_snoc _ c other, column_of_snoc _ c other, line,
          column, Nat.add_right_comm]
        exact ⟨rfl, rfl⟩

end DiceRoll
