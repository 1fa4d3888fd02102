import DiceRoll.Proofs.Notation.RoundTrip
import DiceRoll.Proofs.Reading.Placed

set_option autoImplicit false

namespace DiceRoll

structure Clauses.NoZero (clauses : Clauses) : Prop extends clauses.Writable where
  sides : 0 < clauses.sides.value
  count : 0 < clauses.count.value

namespace WrittenTerm

theorem clauses_no_zero (written : WrittenTerm) : written.clauses.NoZero where
  sides := written.clauses.sides.pos
  count := written.clauses.count.pos
  reroll := by
    change written.rerollUpTo.map Positive.value ≠ some 0
    cases written.rerollUpTo with
    | none => exact (Option.some_ne_none 0).symm
    | some low => exact fun zero => UInt32.pos_iff_ne_zero.1 low.pos (Option.some.inj zero)
  keep := by
    apply UInt32.pos_iff_ne_zero.1
    simp only [clauses, Draft.clauses, draft]
    cases written.keep with
    | none => exact default_pos written.count 1 (by decide)
    | some keep => exact keep.2.pos
  explosion := by
    simp only [clauses, Draft.clauses, draft]
    cases written.explosion with
    | none => exact (Option.some_ne_none 0).symm
    | some high =>
        intro zero
        have threshold := Option.some.inj zero
        cases high with
        | none => exact UInt32.pos_iff_ne_zero.1 (default_pos written.sides 20 (by decide)) threshold
        | some high => exact UInt32.pos_iff_ne_zero.1 high.pos threshold
  multiply := UInt32.pos_iff_ne_zero.1 (default_pos written.multiply 1 (by decide))

end WrittenTerm

theorem terms_written (text typed : List Char) (expr : WrittenExpression) :
    ∀ term ∈ (expr.expression text typed).terms, ∃ written : WrittenTerm, term.dice = written.dice text typed := by
  refine List.forall_mem_cons.2 ⟨⟨expr.first, rfl⟩, fun term member => ?_⟩
  obtain ⟨⟨sign, start, operand⟩, _, found⟩ := List.mem_filterMap.1 member
  cases operand with
  | term written =>
      cases found
      exact ⟨written, rfl⟩
  | constant value => cases found
  | missing => cases found

namespace Notation

def BeginsTerm (text : List Char) : Prop :=
  ∃ (before : Blanks) (count : Option Numeral) (base : Base) (rest : List Char), (∀ n ∈ count, n.Started) ∧
    text = before.chars ++ (optionalChars Numeral.digits count ++ base.symbol :: rest)

theorem scan_term_base (count : Option Numeral) (base : Base) (rest : List Char) (started : ∀ n ∈ count, n.Started) :
    ∃ written problems tried,
      scanTerm (optionalChars Numeral.digits count ++ base.symbol :: rest) = .found written problems tried := by
  obtain ⟨found, _, scanned⟩ :=
    scan_optional count baseStarts (base.symbol :: rest) started (begins_base base rest) base_no_digits
  rw [scanTerm, scanned]
  simp only [scan_base_symbol]
  exact ⟨_, _, _, rfl⟩

theorem found_begins (text : List Char) (written : WrittenTerm) (problems : List Problem) (tried : List Char)
    (found : scanTerm (skipBlanks text) = .found written problems tried) : BeginsTerm text := by
  obtain ⟨count, started, chars⟩ := count_scanned (skipBlanks text)
  simp only [scanTerm] at found
  cases atBase : scanBase (Scanned.optional scanNumber (skipBlanks text)).rest with
  | none =>
      rw [atBase] at found
      cases found
  | some pair =>
      obtain ⟨base, rest⟩ := pair
      rw [base_found _ rest base atBase] at chars
      exact ⟨.taken text, count, base, rest, started, by rw [← chars]; exact blanks_found text⟩

theorem expression_read_iff (text typed : List Char) :
    (∃ expr, (readExpression text typed).value = some expr) ↔ BeginsTerm text := by
  rw [read_expression_eq, scanExpression]
  constructor
  · rintro ⟨expr, value⟩
    cases scanned : scanTerm (skipBlanks text) with
    | noBase problems rest =>
        rw [scanned] at value
        cases value
    | found first problems tried => exact found_begins text first problems tried scanned
  · rintro ⟨before, count, base, rest, started, rfl⟩
    obtain ⟨first, problems, tried, scanned⟩ := scan_term_base count base rest started
    rw [skip_blanks_written before _ (count_visible count base rest), scanned]
    simp only [leftover_rest, if_true]
    exact ⟨_, rfl⟩

end Notation

theorem expression_read_whole (text typed : List Char) :
    (readExpressionAndRest text typed).problems = (readExpression text typed).problems ∧
      (readExpressionAndRest text typed).value = (readExpression text typed).value.map fun expr => (expr, []) := by
  rw [read_expression_and_rest_eq, read_expression_eq, scanExpression]
  cases scanTerm (skipBlanks text) with
  | noBase problems rest => exact ⟨rfl, rfl⟩
  | found first problems tried =>
      simp only [Notation.leftover_rest, if_true]
      exact ⟨trivial, rfl⟩

theorem read_dice_written (text typed : List Char) (expr : Expression)
    (read : (readExpression text typed).value = some expr) :
    ∀ term ∈ expr.terms, ∃ written : WrittenTerm, term.dice = written.dice text typed := by
  rw [read_expression_eq] at read
  cases scanned : scanExpression text with
  | noTerm problems rest =>
      rw [scanned] at read
      cases read
  | found written =>
      rw [scanned] at read
      simp only at read
      split at read
      · cases read
        exact terms_written text typed written.value
      · cases read

theorem reason_built (problem : Problem) (error : BuildError) (built : problem.fault ≠ .unbuilt error) :
    problem.reason? ≠ some error.message :=
  fun same => built (problem.fault.reason_injective (.unbuilt error) same)

theorem located_built (problem : Problem) (error : BuildError) (input : List Char)
    (built : problem.fault ≠ .unbuilt error) : (problem.locate input).kind ≠ .invalid error.message :=
  fun same => reason_built problem error built
    (kind_reason problem.reason? (some error.message) (input.drop (input.length - problem.rest.length)) same)

-- No problem, nor the error it is told as, says that dice cannot be built.
def Reading.AllBuilt {α : Type} (reading : Reading α) : Prop :=
  ∀ problem ∈ reading.problems, ∀ error : BuildError, problem.fault ≠ .unbuilt error ∧
    problem.reason? ≠ some error.message ∧ ∀ input, (problem.locate input).kind ≠ .invalid error.message

theorem placed_built {α : Type} (text : List Char) (reading : Reading α) (placed : AllPlaced text reading.problems) :
    reading.AllBuilt := by
  intro problem member error
  have built := (placed problem member).built error
  exact ⟨built, reason_built problem error built, fun input => located_built problem error input built⟩

-- From the first base on there is an expression, whatever follows, and no reader says that dice cannot be built.
theorem expression_recovered (text typed : List Char) :
    (readExpressionAndRest text typed).problems = (readExpression text typed).problems ∧
      (readExpressionAndRest text typed).value = (readExpression text typed).value.map (fun expr => (expr, [])) ∧
      ((∃ expr, (readExpression text typed).value = some expr) ↔ Notation.BeginsTerm text) ∧
      (∀ expr ∈ (readExpression text typed).value, ∀ term ∈ expr.terms, term.dice.NoZero) ∧
      (∀ written : WrittenTerm,
        Dice.ofSettings (written.settings (written.dice text typed).source) = .ok (written.dice text typed)) ∧
      (readNumber text).AllBuilt ∧ (readNumberAndRest text).AllBuilt ∧ (readTerm text typed).AllBuilt ∧
      (readTermAndRest text typed).AllBuilt ∧ (readExpression text typed).AllBuilt ∧
      (readExpressionAndRest text typed).AllBuilt := by
  obtain ⟨problems, value⟩ := expression_read_whole text typed
  have placed := expression_read_placed text typed
  have dice : ∀ expr ∈ (readExpression text typed).value, ∀ term ∈ expr.terms, term.dice.NoZero := by
    intro expr read term member
    obtain ⟨written, dice⟩ := read_dice_written text typed expr read term member
    rw [dice]
    exact written.clauses_no_zero
  refine ⟨problems, value, Notation.expression_read_iff text typed, dice, fun written => written.settings_build _,
    placed_built text _ (number_read_placed text), placed_built text _ (number_and_rest_placed text),
    placed_built text _ (term_read_placed text typed), placed_built text _ (term_and_rest_placed text typed),
    placed_built text _ placed, placed_built text _ ?_⟩
  rw [problems]
  exact placed

end DiceRoll
