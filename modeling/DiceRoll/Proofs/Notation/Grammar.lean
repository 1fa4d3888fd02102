import DiceRoll.Proofs.Notation.Parts
import DiceRoll.Proofs.Notation.Unambiguous
import DiceRoll.Text.Parse

set_option autoImplicit false

namespace DiceRoll.Notation

theorem reads_constant (operand : Operand) (found : DiceRoll.Operand) (reads : ReadsOperand operand found) :
    found.isConstant = !operand.isTerm := by
  cases reads with
  | term reads => rfl
  | constant word => rfl

theorem misplaced_read (part : Part) (found next : DiceRoll.Part) (parts : List DiceRoll.Part)
    (read : ReadsPart part found) :
    misplaced (found :: next :: parts) =
      (if part.operand.isTerm then [] else [⟨.unexpected, next.start⟩]) ++ misplaced (next :: parts) := by
  rw [misplaced_cons, reads_constant part.operand found.operand read.operand]
  cases part.operand.isTerm <;> rfl

theorem misplaced_nil_iff (parts : List Part) (found : List DiceRoll.Part)
    (reads : List.Forall₂ ReadsPart parts found) :
    misplaced found = [] ↔ ∀ part ∈ parts.dropLast, part.operand.isTerm = true := by
  induction reads with
  | nil => exact ⟨fun _ => List.forall_mem_nil _, fun _ => rfl⟩
  | @cons part found parts more read reads ih =>
      cases reads with
      | nil => exact ⟨fun _ => List.forall_mem_nil _, fun _ => rfl⟩
      | @cons next foundNext parts more readNext reads =>
          have here : (if part.operand.isTerm then [] else [(⟨.unexpected, foundNext.start⟩ : Problem)]) = [] ↔
              part.operand.isTerm = true := by
            simp
          rw [List.dropLast_cons_cons, List.forall_mem_cons, misplaced_read part found foundNext more read,
            List.append_eq_nil_iff, here, ih]

theorem terms_read (text typed : List Char) (parts : List Part) (found : List DiceRoll.Part)
    (reads : List.Forall₂ ReadsPart parts found)
    (fits : ∀ part ∈ parts, ∀ n ∈ part.operand.numbers, n.value ≤ maxWord) :
    List.Forall₂ Expression.DenotesTerm (parts.filterMap Part.term?)
      (found.filterMap (DiceRoll.Part.term? (WrittenTerm.dice text typed))) := by
  induction reads with
  | nil => exact .nil
  | @cons part found parts more read reads ih =>
      obtain ⟨sign, start, operand⟩ := found
      obtain ⟨before, written, between, expected⟩ := part
      obtain ⟨partFits, moreFit⟩ := List.forall_mem_cons.1 fits
      have rest := ih moreFit
      have signs : sign = written := read.sign
      cases read.operand with
      | term readsTerm => exact .cons ⟨signs.symm, reads_denotes _ _ readsTerm partFits⟩ rest
      | constant word => exact rest

theorem signed_word_to_int (sign : Sign) (w : UInt32) :
    (sign.ofWord w).toInt = match sign with
      | .plus => (w.toNat : Int)
      | .minus => -(w.toNat : Int) := by
  cases sign with
  | plus => exact Total.of_word_to_int w
  | minus =>
      have bound := w.toNat_lt
      exact Total.to_int_of_int (-w.toNat) (by unfold Total.least; omega) (by unfold Total.greatest; omega)

theorem constant_read (parts : List Part) (found : List DiceRoll.Part) (reads : List.Forall₂ ReadsPart parts found)
    (fits : ∀ part ∈ parts, ∀ n ∈ part.operand.numbers, n.value ≤ maxWord) :
    (WrittenExpression.adjustment found).toInt = Expression.constant parts := by
  induction reads with
  | nil => rfl
  | @cons part found parts more read reads ih =>
      obtain ⟨partFits, moreFit⟩ := List.forall_mem_cons.1 fits
      have rest := ih moreFit
      cases reads with
      | cons readNext reads =>
          unfold WrittenExpression.adjustment Expression.constant at rest ⊢
          rw [List.getLast?_cons_cons, List.getLast?_cons_cons]
          exact rest
      | nil =>
          obtain ⟨sign, start, operand⟩ := found
          obtain ⟨before, written, between, expected⟩ := part
          have signs : sign = written := read.sign
          subst signs
          cases read.operand with
          | term readsTerm => cases sign <;> rfl
          | @constant number value word =>
              change (sign.ofWord value.value).toInt = _
              rw [signed_word_to_int, word, number.word_to_nat (partFits number List.mem_cons_self)]
              cases sign <;> rfl

theorem optional_problems_fit (number : Option Numeral) (rest : List Char) (fits : ∀ n ∈ number, n.value ≤ maxWord) :
    optionalProblems number rest = [] := by
  cases number with
  | none => rfl
  | some number => exact number.problems_fit rest (fits number rfl)

theorem term_problems_fit (term : Term) (rest : List Char) (fits : ∀ n ∈ term.numbers, n.value ≤ maxWord) :
    term.problems rest = [] := by
  simp only [Term.numbers, List.forall_mem_append, Option.mem_toList] at fits
  obtain ⟨⟨⟨⟨⟨count, sides⟩, reroll⟩, keep⟩, explosion⟩, multiply⟩ := fits
  have sidesFit : term.sides.problems (term.afterSides rest) = [] := by
    cases written : term.sides with
    | percent => rfl
    | number n => exact n.problems_fit _ (sides n (by rw [written]; exact List.mem_cons_self))
  rw [Term.problems, optional_problems_fit _ _ count, sidesFit, optional_problems_fit _ _ reroll,
    optional_problems_fit _ _ keep, optional_problems_fit _ _ explosion, optional_problems_fit _ _ multiply]
  rfl

theorem parts_problems_fit (parts : List Part) (after : Blanks)
    (fits : ∀ part ∈ parts, ∀ n ∈ part.operand.numbers, n.value ≤ maxWord) : partsProblems parts after = [] := by
  induction parts with
  | nil => rfl
  | cons part parts ih =>
      obtain ⟨partFits, moreFit⟩ := List.forall_mem_cons.1 fits
      have operandFits : part.operand.problems (partsChars parts after) = [] := by
        cases written : part.operand with
        | term term => exact term_problems_fit term _ (by rw [written] at partFits; exact partFits)
        | constant number =>
            rw [written] at partFits
            exact number.problems_fit _ (partFits number List.mem_cons_self)
      rw [partsProblems, operandFits, ih moreFit]
      rfl

theorem forall_numbers (tree : Expression) (property : Numeral → Prop) :
    (∀ n ∈ tree.numbers, property n) ↔
      (∀ n ∈ tree.first.numbers, property n) ∧ ∀ part ∈ tree.parts, ∀ n ∈ part.operand.numbers, property n := by
  simp only [Expression.numbers, List.forall_mem_append, List.forall_mem_flatMap]

theorem denotes_read (tree : Expression) (text typed : List Char) (first : WrittenTerm) (found : List DiceRoll.Part)
    (readsFirst : Reads tree.first first) (reads : List.Forall₂ ReadsPart tree.parts found)
    (fits : ∀ n ∈ tree.numbers, n.value ≤ maxWord) :
    tree.Denotes (WrittenExpression.expression text typed ⟨first, found⟩) := by
  obtain ⟨firstFits, partsFit⟩ := (forall_numbers tree _).1 fits
  exact ⟨.cons ⟨rfl, reads_denotes tree.first first readsFirst firstFits⟩
    (terms_read text typed tree.parts found reads partsFit), constant_read tree.parts found reads partsFit⟩

-- What a tree writes is scanned as the tree has it. The only problems are numbers that do not fit, and then the signs
-- behind constants.
theorem tree_scanned (tree : Expression) (typed : List Char) (started : ∀ n ∈ tree.numbers, n.Started) :
    ∃ first found, Reads tree.first first ∧ List.Forall₂ ReadsPart tree.parts found ∧
      found.map DiceRoll.Part.start = partStarts tree.parts tree.after ∧
      readExpression tree.chars typed = ⟨some (WrittenExpression.expression tree.chars typed ⟨first, found⟩),
        tree.first.problems (partsChars tree.parts tree.after) ++ partsProblems tree.parts tree.after ++
          misplaced found⟩ := by
  obtain ⟨firstStarted, partsStarted⟩ := (forall_numbers tree _).1 started
  obtain ⟨first, tried, scanned, readsFirst, _, stop⟩ := scan_term_written tree.first (partsChars tree.parts tree.after)
    firstStarted (begins_parts tree.parts tree.after)
  obtain ⟨found, scannedParts, reads, starts⟩ := scan_parts_written tree.parts tree.after partsStarted
  have skipped : skipBlanks tree.chars = tree.first.chars ++ partsChars tree.parts tree.after :=
    skip_blanks_written tree.before _ (term_visible tree.first _)
  refine ⟨first, found, readsFirst, reads, starts, ?_⟩
  simp only [read_expression_eq, scanExpression, skipped, scanned, stop, scannedParts, skip_only_blanks, scanLeftover,
    List.append_nil, if_true]

theorem tree_read (tree : Expression) (typed : List Char) (grammatical : tree.Grammatical) :
    ∃ expr, readExpression tree.chars typed = ⟨some expr, []⟩ ∧ tree.Denotes expr := by
  have fits : ∀ n ∈ tree.numbers, n.value ≤ maxWord := fun n member => (grammatical.proper n member).fits
  obtain ⟨firstFits, partsFit⟩ := (forall_numbers tree _).1 fits
  obtain ⟨first, found, readsFirst, reads, _, read⟩ :=
    tree_scanned tree typed fun n member => (grammatical.proper n member).started
  refine ⟨_, ?_, denotes_read tree tree.chars typed first found readsFirst reads fits⟩
  rw [read, term_problems_fit tree.first _ firstFits, parts_problems_fit tree.parts tree.after partsFit,
    (misplaced_nil_iff tree.parts found reads).2 grammatical.constantLast]
  rfl

theorem leftover_rest (text : List Char) : (scanLeftover text).rest = [] := by
  cases text <;> rfl

theorem leftover_clear (text : List Char) (clear : (scanLeftover text).problems = []) : text = [] := by
  cases text with
  | nil => rfl
  | cons c text => cases clear

theorem read_tree (text typed : List Char) (expr : DiceRoll.Expression)
    (read : readExpression text typed = ⟨some expr, []⟩) :
    ∃ tree : Expression, tree.Grammatical ∧ tree.chars = text ∧ tree.Denotes expr := by
  rw [read_expression_eq, scanExpression] at read
  cases scanned : scanTerm (skipBlanks text) with
  | noBase problems rest =>
      simp only [scanned, Reading.stuck] at read
      cases read
  | found first problems tried =>
      simp only [scanned, leftover_rest, if_true] at read
      injection read with value clear
      simp only [List.append_eq_nil_iff] at clear
      obtain ⟨⟨⟨firstClear, partsClear⟩, leftover⟩, placed⟩ := clear
      subst firstClear
      obtain ⟨term, termProper, readsTerm, termChars⟩ := term_found _ tried first scanned
      obtain ⟨parts, partsProper, reads, partsChars⟩ := parts_found first.stop partsClear
      let tree : Expression := ⟨.taken text, term, parts, .taken (scanParts first.stop).rest⟩
      have proper : ∀ n ∈ tree.numbers, n.Proper := (forall_numbers tree _).2 ⟨termProper, partsProper⟩
      refine ⟨tree, ⟨proper, (misplaced_nil_iff parts _ reads).1 placed⟩, ?_, ?_⟩
      · calc
          tree.chars = tree.before.chars ++ (term.chars ++ (parts.flatMap Part.chars ++
              (tree.after.chars ++ skipBlanks (scanParts first.stop).rest))) := by
            rw [leftover_clear _ leftover, List.append_nil]
            rfl
          _ = tree.before.chars ++ (term.chars ++ (parts.flatMap Part.chars ++ (scanParts first.stop).rest)) := by
            rw [← blanks_found (scanParts first.stop).rest]
          _ = tree.before.chars ++ skipBlanks text := by rw [← partsChars, ← termChars]
          _ = text := (blanks_found text).symm
      · cases value
        exact denotes_read tree text typed first _ readsTerm reads fun n member => (proper n member).fits

theorem result_ok_iff {α : Type} (input : List Char) (reading : Reading α) (value : α) :
    reading.result input = .ok value ↔ reading = ⟨some value, []⟩ := by
  obtain ⟨found, problems⟩ := reading
  cases found with
  | none => simp [Reading.result]
  | some found =>
      cases problems with
      | nil => simp [Reading.result]
      | cons problem problems => simp [Reading.result]

theorem parse_tree (s : String) (expr : DiceRoll.Expression) (read : parse s = .ok expr) :
    ∃ tree : Expression, tree.Grammatical ∧ tree.chars = lowercase s.toList ∧ tree.Denotes expr :=
  read_tree (lowercase s.toList) s.toList expr ((result_ok_iff _ _ _).1 read)

theorem tree_parsed (s : String) (tree : Expression) (grammatical : tree.Grammatical)
    (chars : tree.chars = lowercase s.toList) : ∃ expr, parse s = .ok expr ∧ tree.Denotes expr := by
  obtain ⟨expr, read, denotes⟩ := tree_read tree s.toList grammatical
  rw [chars] at read
  exact ⟨expr, (result_ok_iff _ _ _).2 read, denotes⟩

theorem parse_reads_grammar (s : String) :
    ((∃ expr, parse s = .ok expr) ↔ ∃ tree : Expression, tree.Grammatical ∧ tree.chars = lowercase s.toList) ∧
      (∀ a b : Expression, a.chars = lowercase s.toList → b.chars = lowercase s.toList → a = b) ∧
      ∀ (expr : DiceRoll.Expression) (tree : Expression), parse s = .ok expr → tree.chars = lowercase s.toList →
        tree.Denotes expr := by
  refine ⟨⟨?_, ?_⟩, ?_, ?_⟩
  · rintro ⟨expr, read⟩
    obtain ⟨tree, grammatical, chars, _⟩ := parse_tree s expr read
    exact ⟨tree, grammatical, chars⟩
  · rintro ⟨tree, grammatical, chars⟩
    obtain ⟨expr, read, _⟩ := tree_parsed s tree grammatical chars
    exact ⟨expr, read⟩
  · intro a b first second
    exact unambiguous a b (first.trans second.symm)
  · intro expr tree read chars
    obtain ⟨derived, _, derivedChars, denotes⟩ := parse_tree s expr read
    rw [unambiguous tree derived (chars.trans derivedChars.symm)]
    exact denotes

example : (parse "2D6mh1! - z%").toOption.map DiceRoll.Expression.text = some "2d6mh1! - 1z100" := by decide +kernel

end DiceRoll.Notation
