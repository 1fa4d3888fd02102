import DiceRoll.Proofs.Reading.ExpressionProgress
import DiceRoll.Proofs.Reading.Located
import Mathlib.Algebra.Group.Nat.Defs

set_option autoImplicit false

namespace DiceRoll

def SmallNumbers (text : List Char) : Prop :=
  ∀ run, run <:+: text → (∀ c ∈ run, c.isDigit = true) → decimal run ≤ maxWord

structure LongestCorrect (before behind : List Char) : Prop where
  apart : symbols (before ++ behind) = symbols before ++ symbols behind
  begins : ∃ accepted expr, parse accepted = .ok expr ∧ symbols before <+: symbols accepted.toList
  longest : ∀ symbol more, symbols behind = symbol :: more →
    ∀ accepted expr, parse accepted = .ok expr → ¬symbols before ++ [symbol] <+: symbols accepted.toList

structure Earliest (first : ParseError) (errors : List ParseError) : Prop where
  member : first ∈ errors
  first : ∀ error ∈ errors, first.line < error.line ∨ first.line = error.line ∧ first.column ≤ error.column

-- What was read of a text in lower case, as it was written.
structure ReadUpTo (state : ReadState) (text before behind : List Char) (last : ReadState) : Prop where
  split : text = before ++ behind
  apart : symbols text = symbols before ++ symbols behind
  ran : state.run ((symbols before).map Symbol.lower) = some last

theorem read_symbol (state middle last : ReadState) (symbol : Symbol) (chars text before behind : List Char)
    (alone : ∀ rest, symbols (chars ++ rest) = symbol :: symbols rest) (steps : state.step symbol.lower = some middle)
    (read : ReadUpTo middle text before behind last) :
    ReadUpTo state (chars ++ text) (chars ++ before) behind last where
  split := by rw [read.split, List.append_assoc]
  apart := by
    rw [alone, alone, read.apart]
    rfl
  ran := by
    rw [alone, List.map_cons, ReadState.run]
    simp only [steps]
    exact read.ran

theorem reach_read (state last : ReadState) (original text place : List Char) (reach : Reach state text last place)
    (lower : lowercase original = text) :
    ∃ before behind, lowercase behind = place ∧ ReadUpTo state original before behind last := by
  induction reach generalizing original with
  | here state text => exact ⟨[], original, lower, rfl, rfl, rfl⟩
  | next state middle last symbol text more rest front steps reach ih =>
      cases front with
      | char c =>
          obtain ⟨first, others, rfl, rfl, lowerMore⟩ := List.map_eq_cons_iff.1 lower
          obtain ⟨before, behind, place, read⟩ := ih others lowerMore
          have other : first.toLower ≠ 'm' := by
            intro same
            rw [same, step_middle] at steps
            cases steps
          have alone : ∀ rest, symbols ([first] ++ rest) = .char first :: symbols rest := fun rest =>
            symbols_single first rest other
          exact ⟨[first] ++ before, behind, place,
            read_symbol state middle last (.char first) [first] others before behind alone steps read⟩
      | middleHigh =>
          obtain ⟨first, tail, rfl, firstLower, lowerTail⟩ := List.map_eq_cons_iff.1 lower
          obtain ⟨second, others, rfl, secondLower, lowerMore⟩ := List.map_eq_cons_iff.1 lowerTail
          obtain ⟨before, behind, place, read⟩ := ih others lowerMore
          have alone : ∀ rest, symbols ([first, second] ++ rest) = .middleHigh :: symbols rest := fun rest =>
            symbols_high first second rest firstLower secondLower
          exact ⟨[first, second] ++ before, behind, place,
            read_symbol state middle last .middleHigh [first, second] others before behind alone steps read⟩
      | middleLow =>
          obtain ⟨first, tail, rfl, firstLower, lowerTail⟩ := List.map_eq_cons_iff.1 lower
          obtain ⟨second, others, rfl, secondLower, lowerMore⟩ := List.map_eq_cons_iff.1 lowerTail
          obtain ⟨before, behind, place, read⟩ := ih others lowerMore
          have alone : ∀ rest, symbols ([first, second] ++ rest) = .middleLow :: symbols rest := fun rest =>
            symbols_low first second rest firstLower secondLower
          exact ⟨[first, second] ++ before, behind, place,
            read_symbol state middle last .middleLow [first, second] others before behind alone steps read⟩

theorem front_lower (text : List Char) (symbol : Symbol) (more : List Symbol) (head : symbols text = symbol :: more) :
    ∃ rest, Front (lowercase text) symbol.lower rest := by
  induction text using symbols.induct with
  | case1 => cases head
  | case2 c =>
      cases head
      exact ⟨[], .char c.toLower []⟩
  | case3 c next text both =>
      rw [symbols_high c next text both.1 both.2] at head
      cases head
      exact ⟨lowercase text, by rw [lowercase, List.map_cons, List.map_cons, both.1, both.2]; exact .middleHigh _⟩
  | case4 c next text _ both =>
      rw [symbols_low c next text both.1 both.2] at head
      cases head
      exact ⟨lowercase text, by rw [lowercase, List.map_cons, List.map_cons, both.1, both.2]; exact .middleLow _⟩
  | case5 c next text noHigh noLow =>
      rw [symbols, if_neg noHigh, if_neg noLow] at head
      cases head
      exact ⟨lowercase (next :: text), .char c.toLower _⟩

theorem faulty_run (last final : ReadState) (behind : List Char) (faulty : Faulty last (lowercase behind))
    (ran : last.run ((symbols behind).map Symbol.lower) = some final) : final.complete = false := by
  cases read : symbols behind with
  | nil =>
      rw [read] at ran
      cases ran
      exact faulty.early (by rw [symbols_empty behind read]; rfl)
  | cons symbol more =>
      obtain ⟨rest, front⟩ := front_lower behind symbol more read
      rw [read, List.map_cons, ReadState.run, faulty.unfit symbol.lower rest front] at ran
      cases ran

def Readable (text : List Char) : Prop :=
  ∃ last, (ReadState.operand true).run ((symbols text).map Symbol.lower) = some last ∧ last.complete = true

theorem reach_readable (original : List Char) (last : ReadState)
    (reach : Reach (.operand true) (lowercase original) last []) (complete : last.complete = true) :
    Readable original := by
  obtain ⟨before, behind, lower, read⟩ := reach_read _ last original _ _ reach rfl
  cases List.map_eq_nil_iff.1 lower
  have whole := read.apart
  rw [symbols, List.append_nil] at whole
  exact ⟨last, by rw [whole]; exact read.ran, complete⟩

theorem faulty_not_readable (before behind : List Char) (last : ReadState)
    (read : ReadUpTo (.operand true) (before ++ behind) before behind last) (faulty : Faulty last (lowercase behind)) :
    ¬Readable (before ++ behind) := by
  rintro ⟨final, ran, complete⟩
  rw [read.apart, List.map_append, ReadState.run_append, read.ran, Option.bind_some] at ran
  rw [faulty_run last final behind faulty ran] at complete
  cases complete

theorem clear_accepted (input : String) (clear : (readExpression (lowercase input.toList) input.toList).problems = []) :
    ∃ expr, parse input = .ok expr := by
  have explained := read_expression_explained (lowercase input.toList) input.toList
  rw [parse]
  generalize readExpression (lowercase input.toList) input.toList = reading at clear explained ⊢
  obtain ⟨value, problems⟩ := reading
  cases clear
  cases value with
  | none => exact absurd rfl (explained rfl)
  | some expr => exact ⟨expr, rfl⟩

theorem accepted_readable (accepted : String) (expr : Expression) (read : parse accepted = .ok expr) :
    Readable accepted.toList := by
  have whole := (Notation.result_ok_iff _ _ _).1 read
  have clear : (readExpression (lowercase accepted.toList) accepted.toList).problems = [] := by rw [whole]
  cases expression_verdict (lowercase accepted.toList) accepted.toList with
  | fine last clean reach complete => exact reach_readable accepted.toList last reach complete
  | faulty place blames =>
      have noted := blames.noted
      rw [clear] at noted
      cases noted

theorem small_unexpected (text : List Char) (small : SmallNumbers text) (problem : Problem)
    (placed : Placed (lowercase text) problem) : problem.fault = .unexpected := by
  cases fault : problem.fault with
  | unexpected => rfl
  | unbuilt error => exact absurd fault (placed.built error)
  | oversized =>
      obtain ⟨_, first, digits, after, run⟩ := placed.large fault
      obtain ⟨before, behind, rfl, lower⟩ := lowercase_split text problem.rest placed.inside
      rw [run.split] at lower
      obtain ⟨same, later, rfl, lowerRun, _⟩ := List.map_eq_append_iff.1 lower.symm
      have only : ∀ c ∈ first :: digits, c.isDigit = true :=
        List.forall_mem_cons.2 ⟨start_digit first run.start, run.only⟩
      cases lowercase_digits same (first :: digits) lowerRun only
      have inside : (first :: digits) <:+: before ++ (first :: digits ++ later) := List.infix_append' before _ later
      exact absurd run.large (Nat.not_lt.2 (small _ inside only))

theorem readable_accepted (text : List Char) (small : SmallNumbers text) (readable : Readable text) :
    ∃ expr, parse (String.ofList text) = .ok expr := by
  apply clear_accepted
  rw [String.toList_ofList]
  have placed := expression_read_placed (lowercase text) text
  cases expression_verdict (lowercase text) text with
  | fine last clean reach complete =>
      refine List.eq_nil_iff_forall_not_mem.2 fun problem member => ?_
      have unexpected := small_unexpected text small problem (placed problem member)
      rw [clean problem member] at unexpected
      cases unexpected
  | faulty place blames =>
      obtain ⟨last, reach, faulty⟩ := blames.reached
      obtain ⟨before, behind, rfl, read⟩ := reach_read _ last text _ _ reach rfl
      cases read.split
      exact absurd readable (faulty_not_readable before behind last read faulty)

theorem digit_no_letter (c : Char) (digit : c.isDigit = true) : c.toLower ≠ 'h' ∧ c.toLower ≠ 'l' := by
  rw [Notation.digit_lower c digit]
  constructor <;> (rintro rfl; cases digit)

theorem digit_no_base (c : Char) (digit : c.isDigit = true) : isBase c = false := by
  cases base : isBase c with
  | false => rfl
  | true =>
      simp only [isBase, Bool.or_eq_true, beq_iff_eq] at base
      rcases base with rfl | rfl <;> cases digit

theorem digit_no_sign (c : Char) (digit : c.isDigit = true) : isSign c = false := by
  cases sign : isSign c with
  | false => rfl
  | true =>
      rw [sign_no_digit c sign] at digit
      cases digit

theorem digit_needs (state : ReadState) (c : Char) (clause : Clause) (digit : c.isDigit = true) :
    state.step (.char c) ≠ some (.needs clause) := by
  have visible := Notation.digit_visible c digit
  have base := digit_no_base c digit
  have sign := digit_no_sign c digit
  cases state with
  | operand first => simp [ReadState.step, visible, base]
  | number first => simp [ReadState.step, digit]
  | needs clause =>
      rw [ReadState.step]
      split
      · simp
      · split <;> simp
  | after clause digits =>
      rw [step_plain clause digits c (marker_plain c (.inl digit)), ReadState.between, visible, sign]
      split <;> simp
  | gap => simp [ReadState.step, ReadState.between, visible, sign]
  | tail => simp [ReadState.step, visible]

theorem needs_number (before : List Char) (clause : Clause)
    (ran : (ReadState.operand true).run ((symbols before).map Symbol.lower) = some (.needs clause)) :
    ∀ c ∈ before.getLast?, c.isDigit = false := by
  intro c member
  by_cases digit : c.isDigit = true
  · obtain ⟨front, rfl⟩ := List.getLast?_eq_some_iff.1 member
    have apart : symbols (front ++ [c]) = symbols front ++ [.char c] := by
      refine symbols_append front [c] fun first same => ?_
      cases same
      exact digit_no_letter c digit
    rw [apart, List.map_append, ReadState.run_append] at ran
    obtain ⟨state, _, last⟩ := Option.bind_eq_some_iff.1 ran
    rw [List.map_singleton, Symbol.lower, Notation.digit_lower c digit, ReadState.run] at last
    cases steps : state.step (.char c) with
    | none =>
        rw [steps] at last
        cases last
    | some next =>
        rw [steps] at last
        cases last
        exact absurd steps (digit_needs state c clause digit)
  · exact Bool.eq_false_iff.2 digit

theorem completion_apart (state : ReadState) :
    ∀ c ∈ state.completion.head?, c.toLower ≠ 'h' ∧ c.toLower ≠ 'l' := by
  cases state <;> simp [ReadState.completion]

theorem completion_digit (state : ReadState) (c : Char) (member : c ∈ state.completion) (digit : c.isDigit = true) :
    ∃ clause, state = .needs clause := by
  cases state with
  | needs clause => exact ⟨clause, rfl⟩
  | operand first =>
      have among : c = 'd' ∨ c = '%' := by simpa [ReadState.completion] using member
      rcases among with rfl | rfl <;> cases digit
  | number first =>
      have among : c = 'd' ∨ c = '%' := by simpa [ReadState.completion] using member
      rcases among with rfl | rfl <;> cases digit
  | after clause digits => cases member
  | gap => cases member
  | tail => cases member

theorem completion_small (state : ReadState) : SmallNumbers state.completion := by
  intro run inside only
  cases run with
  | nil => exact Nat.zero_le _
  | cons c run =>
      obtain ⟨clause, rfl⟩ := completion_digit state c (inside.subset List.mem_cons_self) (only c List.mem_cons_self)
      have short := inside.length_le
      cases List.length_eq_zero_iff.1 (Nat.le_zero.1 (Nat.le_of_succ_le_succ short))
      cases List.mem_singleton.1 (inside.subset List.mem_cons_self)
      decide

theorem completed_small (before : List Char) (state : ReadState) (small : SmallNumbers before)
    (ran : (ReadState.operand true).run ((symbols before).map Symbol.lower) = some state) :
    SmallNumbers (before ++ state.completion) := by
  intro run inside only
  rcases List.infix_append_iff.1 inside with here | there | ⟨left, right, rfl, ends, begins⟩
  · exact small run here only
  · exact completion_small state run there only
  · cases right with
    | nil =>
        rw [List.append_nil] at only ⊢
        exact small left ends.isInfix only
    | cons c right =>
        have digit := only c (List.mem_append_right _ List.mem_cons_self)
        obtain ⟨clause, rfl⟩ := completion_digit state c (begins.subset List.mem_cons_self) digit
        cases last : left.getLast? with
        | none =>
            cases List.getLast?_eq_none_iff.1 last
            exact completion_small _ _ begins.isInfix only
        | some final =>
            -- The number is completed behind a digit, where none is needed.
            obtain ⟨front, rfl⟩ := List.getLast?_eq_some_iff.1 last
            obtain ⟨earlier, rfl⟩ := ends
            have other := needs_number _ clause ran final (by rw [← List.append_assoc, List.getLast?_concat]; rfl)
            rw [only final (by simp)] at other
            cases other

theorem state_completed (before : List Char) (state : ReadState) (small : SmallNumbers before)
    (ran : (ReadState.operand true).run ((symbols before).map Symbol.lower) = some state) :
    ∃ accepted expr, parse accepted = .ok expr ∧ symbols before <+: symbols accepted.toList := by
  have apart := symbols_append before state.completion (completion_apart state)
  obtain ⟨last, completes, complete⟩ := state.completion_completes
  have readable : Readable (before ++ state.completion) := by
    refine ⟨last, ?_, complete⟩
    rw [apart, List.map_append, ReadState.run_append, ran, Option.bind_some, completes]
  obtain ⟨expr, accepted⟩ := readable_accepted _ (completed_small before state small ran) readable
  refine ⟨_, expr, accepted, ?_⟩
  rw [String.toList_ofList, apart]
  exact List.prefix_append _ _

theorem longest_correct (before behind : List Char) (state : ReadState) (small : SmallNumbers (before ++ behind))
    (read : ReadUpTo (.operand true) (before ++ behind) before behind state)
    (faulty : Faulty state (lowercase behind)) : LongestCorrect before behind where
  apart := read.apart
  begins := state_completed before state
    (fun run inside => small run (inside.trans (List.prefix_append before behind).isInfix)) read.ran
  longest := by
    intro symbol more next accepted expr correct begins
    -- A longer correct text would take a step from a state that has none for what follows.
    obtain ⟨last, ran, _⟩ := accepted_readable accepted expr correct
    obtain ⟨later, split⟩ := begins
    obtain ⟨rest, front⟩ := front_lower behind symbol more next
    rw [← split, List.append_assoc, List.map_append, ReadState.run_append, read.ran, Option.bind_some,
      List.singleton_append, List.map_cons, ReadState.run, faulty.unfit symbol.lower rest front] at ran
    cases ran

theorem blamed_earliest (before behind : List Char) (problems : List Problem)
    (noted : ⟨.unexpected, lowercase behind⟩ ∈ problems)
    (first : ∀ problem ∈ problems, problem.fault = .unexpected ∧ problem.rest <:+ lowercase behind) :
    Earliest (errorAt .unexpected before behind) (ParseError.ofProblems (before ++ behind) problems) ∧
      (behind = [] → ∀ error ∈ ParseError.ofProblems (before ++ behind) problems, error.kind = .incomplete) := by
  have further : ∀ error ∈ ParseError.ofProblems (before ++ behind) problems,
      ∃ more later, behind = more ++ later ∧ error = errorAt .unexpected (before ++ more) later := by
    intro error member
    obtain ⟨⟨fault, rest⟩, listed, rfl⟩ := List.mem_map.1 (List.mem_eraseDups.1 member)
    obtain ⟨unexpected, inside⟩ := first _ listed
    obtain ⟨more, later, rfl, rfl⟩ := lowercase_split behind rest inside
    cases unexpected
    exact ⟨more, later, rfl, by rw [← List.append_assoc, problem_at]⟩
  refine ⟨⟨?_, fun error member => ?_⟩, fun ended error member => ?_⟩
  · rw [← problem_at]
    exact List.mem_eraseDups.2 (List.mem_map_of_mem noted)
  · obtain ⟨more, later, rfl, rfl⟩ := further error member
    exact place_order before more
  · obtain ⟨more, later, split, rfl⟩ := further error member
    cases (List.append_eq_nil_iff.1 (split.symm.trans ended)).2
    rfl

-- What is in front of the first error begins some accepted text, and with one symbol more it does not.
theorem first_error_ends_correct (input : String) (errors : List ParseError) (rejected : parse input = .error errors)
    (small : SmallNumbers input.toList) :
    ∃ first before behind, Earliest first errors ∧ input.toList = before ++ behind ∧ first.line = lineOf before ∧
      first.column = columnOf before ∧ LongestCorrect before behind ∧
      (behind = [] → ∀ error ∈ errors, error.kind = .incomplete) := by
  obtain ⟨some, rfl⟩ := result_rejected input.toList _ errors (read_expression_explained _ _) rejected
  have placed := expression_read_placed (lowercase input.toList) input.toList
  have unexpected := fun problem member => small_unexpected input.toList small problem (placed problem member)
  cases expression_verdict (lowercase input.toList) input.toList with
  | fine last clean reach complete =>
      obtain ⟨problem, member⟩ := List.exists_mem_of_ne_nil _ some
      have oversized := clean problem member
      rw [unexpected problem member] at oversized
      cases oversized
  | faulty place blames =>
      obtain ⟨state, reach, faulty⟩ := blames.reached
      obtain ⟨before, behind, rfl, read⟩ := reach_read _ state input.toList _ _ reach rfl
      have first := fun problem member => And.intro (unexpected problem member)
        (blames.first problem member (unexpected problem member))
      obtain ⟨earliest, ended⟩ := blamed_earliest before behind _ blames.noted first
      have split := read.split
      rw [split] at read small
      rw [← split] at earliest ended
      exact ⟨errorAt .unexpected before behind, before, behind, earliest, split, rfl, rfl,
        longest_correct before behind state small read faulty, ended⟩

theorem push_digit_le (n : Nat) (c : Char) (digit : c.isDigit = true) : pushDigit n c ≤ 10 * n + 9 := by
  simp only [Char.isDigit, Bool.and_eq_true, decide_eq_true_eq] at digit
  have most : c.toNat ≤ '9'.toNat := digit.2
  have nine : '9'.toNat - '0'.toNat = 9 := rfl
  rw [pushDigit]
  omega

theorem fold_push_lt (digits : List Char) (n : Nat) (only : ∀ c ∈ digits, c.isDigit = true) :
    digits.foldl pushDigit n < (n + 1) * 10 ^ digits.length := by
  induction digits generalizing n with
  | nil => simp
  | cons c digits ih =>
      obtain ⟨here, others⟩ := List.forall_mem_cons.1 only
      have most := push_digit_le n c here
      calc
        digits.foldl pushDigit (pushDigit n c) < (pushDigit n c + 1) * 10 ^ digits.length := ih _ others
        _ ≤ (n + 1) * 10 * 10 ^ digits.length := Nat.mul_le_mul_right _ (by omega)
        _ = (n + 1) * 10 ^ (c :: digits).length := by rw [List.length_cons, Nat.pow_succ', Nat.mul_assoc]

theorem short_small (text : List Char) (short : text.length ≤ 9) : SmallNumbers text := by
  intro run inside only
  have bound := fold_push_lt run 0 only
  have most : 10 ^ run.length ≤ 10 ^ 9 := Nat.pow_le_pow_right (by decide) (Nat.le_trans inside.length_le short)
  have room : 10 ^ 9 ≤ maxWord := by decide
  rw [Nat.zero_add, Nat.one_mul] at bound
  exact Nat.le_of_lt (Nat.lt_of_lt_of_le bound (Nat.le_trans most room))

-- The constant is only found misplaced after the missing number at the end.
def misplacedTwo : String :=
  "D6+2-d6R"

def misplacedTwoErrors : List ParseError :=
  [⟨.incomplete, 1, 9, misplacedTwo⟩, ⟨.unexpected '-', 1, 5, misplacedTwo⟩]

theorem misplaced_two_correct : parse misplacedTwo = .error misplacedTwoErrors ∧ SmallNumbers misplacedTwo.toList ∧
    ∃ first before behind, Earliest first misplacedTwoErrors ∧ misplacedTwo.toList = before ++ behind ∧
      first.line = lineOf before ∧ first.column = columnOf before ∧ LongestCorrect before behind ∧
      (behind = [] → ∀ error ∈ misplacedTwoErrors, error.kind = .incomplete) := by
  have rejected : parse misplacedTwo = .error misplacedTwoErrors := by decide +kernel
  have small : SmallNumbers misplacedTwo.toList := short_small misplacedTwo.toList (by decide)
  exact ⟨rejected, small, first_error_ends_correct misplacedTwo misplacedTwoErrors rejected small⟩

end DiceRoll
