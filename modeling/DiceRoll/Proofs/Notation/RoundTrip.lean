import DiceRoll.Proofs.Notation.Canonical
import DiceRoll.Proofs.Notation.Grammar
import DiceRoll.Proofs.Notation.Lower

set_option autoImplicit false

namespace DiceRoll

namespace Clauses

-- A number in a text is never zero.
structure Writable (clauses : Clauses) : Prop where
  reroll : clauses.rerollUpTo ≠ some 0
  keep : clauses.keep.count ≠ 0
  explosion : clauses.explodeFrom ≠ some 0
  multiply : clauses.multiply ≠ 0

end Clauses

namespace Expression

structure Writable (expr : Expression) : Prop where
  terms : ∀ term ∈ expr.terms, term.dice.toClauses.Writable
  adjustment : expr.adjustment.toInt.natAbs ≤ maxWord

end Expression

def Term.signedClauses (term : Term) : Sign × Clauses :=
  (term.sign, term.dice.toClauses)

namespace Expression

structure Same (a b : Expression) : Prop where
  first : a.first.toClauses = b.first.toClauses
  more : a.more.map Term.signedClauses = b.more.map Term.signedClauses
  adjustment : a.adjustment = b.adjustment

theorem more_text_same (a b : List Term) (same : a.map Term.signedClauses = b.map Term.signedClauses) :
    moreText a [] = moreText b [] := by
  induction a generalizing b with
  | nil =>
      cases b with
      | nil => rfl
      | cons term b => cases same
  | cons term a ih =>
      cases b with
      | nil => cases same
      | cons other b =>
          obtain ⟨head, tail⟩ := List.cons.inj same
          obtain ⟨sign, clauses⟩ := Prod.ext_iff.1 head
          simp only [Term.signedClauses] at sign clauses
          simp only [moreText, termText, List.head?_nil, List.tail_nil, sign, clauses, ih b tail]

theorem text_same (a b : Expression) (same : a.Same b) : a.text = b.text := by
  simp only [text, textWith, termText, List.head?_nil, List.tail_nil, same.first, same.adjustment,
    more_text_same a.more b.more same.more]

theorem same_iff (a b : Expression) : a.Same b ↔
    a.adjustment = b.adjustment ∧ a.terms.map Term.signedClauses = b.terms.map Term.signedClauses := by
  constructor
  · intro same
    refine ⟨same.adjustment, ?_⟩
    simp only [terms, List.map_cons, Term.signedClauses, same.first]
    exact congrArg (List.cons _) same.more
  · rintro ⟨adjustment, terms⟩
    obtain ⟨first, more⟩ := List.cons.inj terms
    exact ⟨(Prod.ext_iff.1 first).2, more, adjustment⟩

end Expression

namespace Notation

theorem term_denotes_unique (term : Term) (a b : Clauses) (first : term.Denotes a) (second : term.Denotes b) :
    a = b := by
  obtain ⟨baseA, ⟨sidesA, _⟩, ⟨countA, _⟩, rerollA, ⟨ruleA, keepA⟩, explosionA, multiplyA⟩ := a
  obtain ⟨baseB, ⟨sidesB, _⟩, ⟨countB, _⟩, rerollB, ⟨ruleB, keepB⟩, explosionB, multiplyB⟩ := b
  have injective : Function.Injective UInt32.toNat := fun _ _ same => UInt32.toNat_inj.1 same
  have base := first.base.trans second.base.symm
  have sides := injective (first.sides.trans second.sides.symm)
  have count := injective (first.count.trans second.count.symm)
  have reroll := Option.map_injective injective (first.reroll.trans second.reroll.symm)
  obtain ⟨rule, kept⟩ := Prod.ext_iff.1 (first.keep.trans second.keep.symm)
  have keep := injective kept
  have explosion := Option.map_injective injective (first.explosion.trans second.explosion.symm)
  have multiply := injective (first.multiply.trans second.multiply.symm)
  simp only at base sides count reroll rule keep explosion multiply
  subst base sides count reroll rule keep explosion multiply
  rfl

theorem terms_denote_unique (tree : List (Sign × Term)) (a b : List DiceRoll.Term)
    (first : List.Forall₂ Expression.DenotesTerm tree a) (second : List.Forall₂ Expression.DenotesTerm tree b) :
    a.map DiceRoll.Term.signedClauses = b.map DiceRoll.Term.signedClauses := by
  induction first generalizing b with
  | nil =>
      cases second
      rfl
  | @cons written term tree a denotes rest ih =>
      cases second with
      | @cons _ other _ b denotesOther restOther =>
          simp only [List.map_cons, ih b restOther, DiceRoll.Term.signedClauses, ← denotes.sign, ← denotesOther.sign,
            term_denotes_unique written.2 _ _ denotes.clauses denotesOther.clauses]

theorem denotes_unique (tree : Expression) (a b : DiceRoll.Expression) (first : tree.Denotes a)
    (second : tree.Denotes b) : a.Same b := by
  have terms := terms_denote_unique tree.terms a.terms b.terms first.terms second.terms
  obtain ⟨head, more⟩ := List.cons.inj terms
  exact ⟨(Prod.ext_iff.1 head).2, more, Int64.toInt_inj.1 (first.adjustment.trans second.adjustment.symm)⟩

theorem proper_pos (number : Numeral) (proper : number.Proper) : 0 < number.value := by
  obtain ⟨digits, present, only⟩ := number
  cases digits with
  | nil => exact absurd rfl present
  | cons c digits =>
      apply decimal_pos c digits
      simp only [startsNumber, only c List.mem_cons_self, Bool.true_and, bne_iff_ne, ne_eq]
      intro zero
      exact proper.started (congrArg some zero)

theorem optional_not_zero (number : Option Numeral) (word : Option UInt32)
    (proper : ∀ n ∈ number, n.Proper) (same : word.map UInt32.toNat = number.map Numeral.value) :
    word ≠ some 0 := by
  rintro rfl
  obtain ⟨n, member, zero⟩ := Option.map_eq_some_iff.1 same.symm
  have := proper_pos n (proper n member)
  rw [zero] at this
  exact absurd this (by decide)

theorem count_pos (term : Term) (proper : ∀ n ∈ term.count, n.Proper) : 0 < term.countValue := by
  unfold Term.countValue
  cases number : term.count with
  | none => exact Nat.one_pos
  | some n => exact proper_pos n (proper n number)

theorem sides_pos (sides : Sides) (proper : ∀ n ∈ sides.numbers, n.Proper) : 0 < sides.value := by
  cases sides with
  | number n => exact proper_pos n (proper n List.mem_cons_self)
  | percent => exact Nat.succ_pos 99

theorem term_writable (term : Term) (clauses : Clauses) (proper : ∀ n ∈ term.numbers, n.Proper)
    (denotes : term.Denotes clauses) : clauses.Writable := by
  simp only [Term.numbers, List.forall_mem_append, Option.mem_toList] at proper
  obtain ⟨⟨⟨⟨⟨count, sides⟩, reroll⟩, keep⟩, explosion⟩, multiply⟩ := proper
  refine ⟨optional_not_zero term.reroll _ reroll denotes.reroll, ?_, ?_, ?_⟩
  · intro zero
    have kept := (Prod.ext_iff.1 denotes.keep).2
    rw [zero] at kept
    cases written : term.keep with
    | none =>
        rw [written] at kept
        exact Nat.ne_of_lt (count_pos term count) kept
    | some pair =>
        rw [written] at kept
        exact Nat.ne_of_lt (proper_pos pair.2 (keep pair.2 (by rw [written]; rfl))) kept
  · intro zero
    have exploded := denotes.explosion
    rw [zero] at exploded
    cases written : term.explosion with
    | none =>
        rw [written] at exploded
        cases exploded
    | some high =>
        rw [written] at exploded
        have threshold := Option.some.inj exploded
        cases high with
        | none => exact Nat.ne_of_lt (sides_pos term.sides sides) threshold
        | some high => exact Nat.ne_of_lt (proper_pos high (explosion high (by rw [written]; rfl))) threshold
  · intro zero
    have multiplied := denotes.multiply
    rw [zero] at multiplied
    cases written : term.multiply with
    | none =>
        rw [written] at multiplied
        cases multiplied
    | some pair =>
        rw [written] at multiplied
        exact Nat.ne_of_lt (proper_pos pair.2 (multiply pair.2 (by rw [written]; rfl))) multiplied

theorem canonical_term_proper (clauses : Clauses) (writable : clauses.Writable) :
    ∀ n ∈ (canonicalTerm clauses).numbers, n.Proper := by
  have word (w : UInt32) (positive : w ≠ 0) : (Numeral.ofNat w.toNat).Proper := by
    apply proper_of_nat _ _ (word_le_max w)
    exact Nat.pos_of_ne_zero fun zero => positive (UInt32.toNat_inj.1 zero)
  simp only [Term.numbers, List.forall_mem_append, Option.mem_toList]
  have positive (number : Positive) : (Numeral.ofNat number.value.toNat).Proper := by
    apply word
    rintro zero
    have := number.pos
    rw [zero] at this
    exact absurd this (by decide)
  refine ⟨⟨⟨⟨⟨?_, ?_⟩, ?_⟩, ?_⟩, ?_⟩, ?_⟩
  · intro n member
    cases member
    exact positive clauses.count
  · intro n member
    cases List.mem_singleton.1 member
    exact positive clauses.sides
  · intro n member
    obtain ⟨low, said, rfl⟩ := Option.map_eq_some_iff.1 member
    exact word low fun zero => writable.reroll (by rw [said, zero])
  · intro n member
    by_cases all : clauses.keep = ⟨.high, clauses.count.value⟩
    · simp [canonicalTerm, canonicalKeep, all] at member
    · simp only [canonicalTerm, canonicalKeep, if_neg all] at member
      cases member
      exact word clauses.keep.count writable.keep
  · intro n member
    cases said : clauses.explodeFrom with
    | none => simp [canonicalTerm, said] at member
    | some high =>
        by_cases top : high = clauses.sides.value
        · simp [canonicalTerm, canonicalExplosion, said, top] at member
        · simp only [canonicalTerm, canonicalExplosion, said, Option.map_some, if_neg top] at member
          cases member
          exact word high fun zero => writable.explosion (by rw [said, zero])
  · intro n member
    by_cases once : clauses.multiply = 1
    · simp [canonicalTerm, canonicalMultiply, once] at member
    · simp only [canonicalTerm, canonicalMultiply, if_neg once] at member
      cases member
      exact word clauses.multiply writable.multiply

theorem canonical_constant_proper (adjustment : Total) (fits : adjustment.toInt.natAbs ≤ maxWord) :
    ∀ part ∈ canonicalConstant adjustment, ∀ n ∈ part.operand.numbers, n.Proper := by
  intro part member n inside
  unfold canonicalConstant at member
  by_cases zero : adjustment = 0
  · simp [zero] at member
  · rw [if_neg zero] at member
    cases List.mem_singleton.1 member
    cases List.mem_singleton.1 inside
    apply proper_of_nat _ _ fits
    apply Int.natAbs_pos.2
    intro exact
    exact zero (Int64.toInt_inj.1 exact)

theorem canonical_constant_last (expr : DiceRoll.Expression) :
    ∀ part ∈ (canonicalTree expr).parts.dropLast, part.operand.isTerm = true := by
  have terms : ∀ part ∈ expr.more.map canonicalPart, part.operand.isTerm = true := by
    intro part member
    obtain ⟨term, _, rfl⟩ := List.mem_map.1 member
    rfl
  intro part member
  simp only [canonicalTree, canonicalConstant] at member
  by_cases zero : expr.adjustment = 0
  · rw [if_pos zero, List.append_nil] at member
    exact terms part (List.dropLast_subset _ member)
  · rw [if_neg zero, List.dropLast_concat] at member
    exact terms part member

theorem canonical_grammatical (expr : DiceRoll.Expression) (writable : expr.Writable) :
    (canonicalTree expr).Grammatical := by
  refine ⟨(forall_numbers _ _).2 ⟨?_, ?_⟩, canonical_constant_last expr⟩
  · exact canonical_term_proper expr.first.toClauses (writable.terms _ List.mem_cons_self)
  · intro part member
    rcases List.mem_append.1 member with inside | inside
    · obtain ⟨term, termMember, rfl⟩ := List.mem_map.1 inside
      exact canonical_term_proper term.dice.toClauses (writable.terms term (List.mem_cons_of_mem _ termMember))
    · exact canonical_constant_proper expr.adjustment writable.adjustment part inside

theorem terms_proper (tree : Expression) (proper : ∀ n ∈ tree.numbers, n.Proper) :
    ∀ written ∈ tree.terms, ∀ n ∈ written.2.numbers, n.Proper := by
  obtain ⟨first, parts⟩ := (forall_numbers tree _).1 proper
  intro written member
  rcases List.mem_cons.1 member with rfl | inside
  · exact first
  · obtain ⟨⟨before, sign, between, operand⟩, partMember, found⟩ := List.mem_filterMap.1 inside
    cases operand with
    | term term =>
        cases found
        exact parts _ partMember
    | constant number => cases found

theorem terms_writable (written : List (Sign × Term)) (terms : List DiceRoll.Term)
    (denote : List.Forall₂ Expression.DenotesTerm written terms)
    (proper : ∀ term ∈ written, ∀ n ∈ term.2.numbers, n.Proper) :
    ∀ term ∈ terms, term.dice.toClauses.Writable := by
  induction denote with
  | nil => exact List.forall_mem_nil _
  | cons denotes rest ih =>
      obtain ⟨first, others⟩ := List.forall_mem_cons.1 proper
      exact List.forall_mem_cons.2 ⟨term_writable _ _ first denotes.clauses, ih others⟩

theorem constant_fits (parts : List Part) (fits : ∀ part ∈ parts, ∀ n ∈ part.operand.numbers, n.value ≤ maxWord) :
    (Expression.constant parts).natAbs ≤ maxWord := by
  unfold Expression.constant
  cases last : parts.getLast? with
  | none => exact Nat.zero_le maxWord
  | some part =>
      have numbers := fits part (List.mem_of_getLast? last)
      obtain ⟨before, sign, between, operand⟩ := part
      cases operand with
      | term term => cases sign <;> exact Nat.zero_le maxWord
      | constant number =>
          have fit := numbers number List.mem_cons_self
          cases sign <;> simp only <;> omega

theorem tree_writable (tree : Expression) (expr : DiceRoll.Expression) (grammatical : tree.Grammatical)
    (denotes : tree.Denotes expr) : expr.Writable := by
  have parts := ((forall_numbers tree _).1 grammatical.proper).2
  refine ⟨terms_writable tree.terms expr.terms denotes.terms (terms_proper tree grammatical.proper), ?_⟩
  rw [denotes.adjustment]
  exact constant_fits tree.parts fun part member n inside => (parts part member n inside).fits

theorem canonical_text_read_back (expr : DiceRoll.Expression) :
    ((∃ back, parse expr.text = .ok back) ↔ expr.Writable) ∧
      (∀ back, parse expr.text = .ok back → back.Same expr ∧ back.text = expr.text) ∧
      ((∃ s, parse s = .ok expr) → ∃ back, parse expr.text = .ok back ∧ back.Same expr) := by
  have chars : (canonicalTree expr).chars = lowercase expr.text.toList := by
    rw [← canonical_chars, lower_chars]
  have back_same (back : DiceRoll.Expression) (read : parse expr.text = .ok back) :
      expr.Writable ∧ back.Same expr := by
    obtain ⟨tree, grammatical, written, denotes⟩ := parse_tree expr.text back read
    obtain rfl := unambiguous tree (canonicalTree expr) (written.trans chars.symm)
    exact ⟨tree_writable _ expr grammatical (canonical_denotes expr),
      denotes_unique _ back expr denotes (canonical_denotes expr)⟩
  have writable_read (writable : expr.Writable) : ∃ back, parse expr.text = .ok back ∧ back.Same expr := by
    obtain ⟨back, read, denotes⟩ := tree_parsed expr.text _ (canonical_grammatical expr writable) chars
    exact ⟨back, read, denotes_unique _ back expr denotes (canonical_denotes expr)⟩
  refine ⟨⟨?_, ?_⟩, ?_, ?_⟩
  · rintro ⟨back, read⟩
    exact (back_same back read).1
  · intro writable
    obtain ⟨back, read, _⟩ := writable_read writable
    exact ⟨back, read⟩
  · intro back read
    have same := (back_same back read).2
    exact ⟨same, Expression.text_same back expr same⟩
  · rintro ⟨s, read⟩
    obtain ⟨tree, grammatical, _, denotes⟩ := parse_tree s expr read
    exact writable_read (tree_writable tree expr grammatical denotes)

-- This holds as well for expressions whose text cannot be read back.
theorem canonical_text_identifies (a b : DiceRoll.Expression) :
    a.text = b.text ↔ a.adjustment = b.adjustment ∧
      a.terms.map DiceRoll.Term.signedClauses = b.terms.map DiceRoll.Term.signedClauses := by
  rw [← DiceRoll.Expression.same_iff]
  constructor
  · intro texts
    -- Equal texts are written by equal trees, and a tree denotes one expression up to the sources of its dice.
    have chars : (canonicalTree a).chars = (canonicalTree b).chars := by
      rw [canonical_chars, canonical_chars, texts]
    have tree := unambiguous (canonicalTree a) (canonicalTree b) chars
    have denotes := canonical_denotes a
    rw [tree] at denotes
    exact denotes_unique (canonicalTree b) a b denotes (canonical_denotes b)
  · exact DiceRoll.Expression.text_same a b

end Notation

end DiceRoll
