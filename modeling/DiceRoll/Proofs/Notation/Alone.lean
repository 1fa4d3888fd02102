import DiceRoll.Proofs.Notation.Sources
import Mathlib.Data.List.Induction

set_option autoImplicit false

namespace DiceRoll.Notation

theorem alone_written (s : String) (dice : Dice) (read : parseDice s = .ok dice) :
    ∃ (term : Term) (written : WrittenTerm) (tried : List Char), lowercase s.toList = term.chars ∧
      scanTerm (lowercase s.toList) = .found written [] tried ∧ written.stop = [] ∧
      written.dice (lowercase s.toList) s.toList = dice := by
  have found := (result_ok_iff _ _ _).1 read
  rw [read_term_eq] at found
  cases scanned : scanTerm (lowercase s.toList) with
  | noBase problems rest =>
      simp only [scanned, Reading.stuck] at found
      cases found
  | found written problems tried =>
      simp only [scanned] at found
      by_cases stop : written.stop = []
      · rw [if_pos stop] at found
        injection found with value clear
        subst clear
        obtain ⟨term, _, _, chars⟩ := term_found _ tried written scanned
        rw [stop, List.append_nil] at chars
        exact ⟨term, written, tried, chars, rfl, stop, Option.some.inj value⟩
      · rw [if_neg stop] at found
        cases found

theorem alone_parsed (s : String) (dice : Dice) (read : parseDice s = .ok dice) : parse s = .ok (.ofDice dice) := by
  obtain ⟨term, written, tried, chars, scanned, stop, rfl⟩ := alone_written s dice read
  have visible : Visible (lowercase s.toList) := by
    rw [chars, ← List.append_nil term.chars]
    exact term_visible term []
  have nothing : scanParts [] = ⟨[], [], []⟩ := scan_parts_none [] rfl
  rw [parse, result_ok_iff, read_expression_eq, scanExpression, visible_skip _ visible, scanned]
  simp only [stop, nothing]
  rfl

theorem alone_visible (s : String) (dice : Dice) (read : parseDice s = .ok dice) :
    ∀ c ∈ s.toList, isBlank c = false := by
  obtain ⟨term, _, _, chars, _⟩ := alone_written s dice read
  intro c member
  rw [← is_blank_lower]
  exact marked_visible term.chars (marked_term term) _ (chars ▸ List.mem_map_of_mem member)

-- Without another term, the last part is the constant, which is not zero.
theorem no_parts (parts : List Part) (proper : ∀ part ∈ parts, ∀ n ∈ part.operand.numbers, n.Proper)
    (terms : parts.filterMap Part.term? = []) (constant : Expression.constant parts = 0) : parts = [] := by
  cases parts using List.reverseRecOn with
  | nil => rfl
  | append_singleton parts part =>
      obtain ⟨before, sign, between, operand⟩ := part
      rw [List.filterMap_append, List.append_eq_nil_iff] at terms
      rw [Expression.constant, List.getLast?_concat] at constant
      cases operand with
      | term term => cases terms.2
      | constant number =>
          have last := proper _ (List.mem_append_right parts List.mem_cons_self)
          have pos := proper_pos number (last number List.mem_cons_self)
          cases sign <;> simp only at constant <;> omega

theorem end_lower (last : Option Char) (visible : ∀ c ∈ last, isBlank c = false) :
    ∀ c ∈ last.map Char.toLower, isBlank c = false := by
  intro c member
  obtain ⟨typed, ends, rfl⟩ := Option.map_eq_some_iff.1 member
  rw [is_blank_lower]
  exact visible typed ends

theorem no_blanks_before (blanks : Blanks) (rest : List Char)
    (visible : ∀ c ∈ (blanks.chars ++ rest).head?, isBlank c = false) : blanks.chars = [] := by
  cases chars : blanks.chars with
  | nil => rfl
  | cons c more =>
      rw [chars] at visible
      have blank := blanks.only c (by rw [chars]; exact List.mem_cons_self)
      rw [visible c rfl] at blank
      cases blank

theorem no_blanks_after (blanks : Blanks) (front : List Char)
    (visible : ∀ c ∈ (front ++ blanks.chars).getLast?, isBlank c = false) : blanks.chars = [] := by
  cases chars : blanks.chars using List.reverseRecOn with
  | nil => rfl
  | append_singleton more c =>
      rw [chars, ← List.append_assoc, List.getLast?_concat] at visible
      have blank := blanks.only c (by rw [chars]; exact List.mem_append_right more List.mem_cons_self)
      rw [visible c rfl] at blank
      cases blank

theorem parsed_alone (s : String) (expr : DiceRoll.Expression) (dice : Dice) (read : parse s = .ok expr)
    (one : expr.terms = [⟨.plus, dice⟩]) (constant : expr.adjustment = 0)
    (first : ∀ c ∈ s.toList.head?, isBlank c = false) (last : ∀ c ∈ s.toList.getLast?, isBlank c = false) :
    parseDice s = .ok dice := by
  obtain ⟨tree, grammatical, chars, denotes⟩ := parse_tree s expr read
  obtain ⟨firstProper, partsProper⟩ := (forall_numbers tree _).1 grammatical.proper
  have noMore : tree.parts.filterMap Part.term? = [] := by
    have terms := denotes.terms
    rw [one, Expression.terms] at terms
    cases terms with
    | cons _ more => exact List.forall₂_nil_right_iff.1 more
  have noConstant : Expression.constant tree.parts = 0 := by
    rw [← denotes.adjustment, constant]
    rfl
  have parts := no_parts tree.parts partsProper noMore noConstant
  have written : tree.before.chars ++ (tree.first.chars ++ tree.after.chars) = lowercase s.toList := by
    rw [← chars, Expression.chars, parts]
    rfl
  have before : tree.before.chars = [] := by
    refine no_blanks_before tree.before (tree.first.chars ++ tree.after.chars) ?_
    rw [written, lowercase, List.head?_map]
    exact end_lower _ first
  have after : tree.after.chars = [] := by
    refine no_blanks_after tree.after (tree.before.chars ++ tree.first.chars) ?_
    rw [List.append_assoc, written, lowercase, List.getLast?_map]
    exact end_lower _ last
  have whole : tree.first.chars = lowercase s.toList := by
    rw [← written, before, after, List.append_nil, List.nil_append]
  obtain ⟨alone, alike, _⟩ := term_read_alone tree.first firstProper s whole.symm
  have parsed := alone_parsed s _ alike
  rw [read] at parsed
  cases parsed
  cases one
  exact alike

theorem read_alone_iff (s : String) (dice : Dice) :
    parseDice s = .ok dice ↔
      (∃ expr, parse s = .ok expr ∧ expr.terms = [⟨.plus, dice⟩] ∧ expr.adjustment = 0) ∧
        (∀ c ∈ s.toList.head?, isBlank c = false) ∧ ∀ c ∈ s.toList.getLast?, isBlank c = false := by
  constructor
  · intro read
    have visible := alone_visible s dice read
    exact ⟨⟨.ofDice dice, alone_parsed s dice read, rfl, rfl⟩, fun c member => visible c (List.mem_of_mem_head? member),
      fun c member => visible c (List.mem_of_mem_getLast? member)⟩
  · rintro ⟨⟨expr, read, one, constant⟩, first, last⟩
    exact parsed_alone s expr dice read one constant first last

end DiceRoll.Notation
