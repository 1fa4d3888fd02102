import DiceRoll.Expression
import DiceRoll.Proofs.Notation.Tree

set_option autoImplicit false

namespace DiceRoll.Notation

def Numeral.ofNat (n : Nat) : Numeral where
  digits := Nat.toDigits 10 n
  present := Nat.toDigits_ne_nil
  only := fun _ member => Nat.isDigit_of_mem_toDigits (by decide) (by decide) member

theorem value_of_nat (n : Nat) : (Numeral.ofNat n).value = n := by
  have decimal : decimal (Nat.toDigits 10 n) = Nat.ofDigitChars 10 (Nat.toDigits 10 n) 0 :=
    Nat.ofDigitChars_eq_foldl.symm
  exact decimal.trans Nat.ofDigitChars_ten_toDigits

theorem digits_of_nat (n : Nat) : (Numeral.ofNat n).digits = (toString n).toList :=
  Nat.toList_repr.symm

theorem digits_of_word (w : UInt32) : (Numeral.ofNat w.toNat).digits = (toString w).toList :=
  digits_of_nat w.toNat

theorem started_of_nat (n : Nat) (pos : 0 < n) : (Numeral.ofNat n).Started := by
  change (Nat.toDigits 10 n).head? ≠ some '0'
  induction n using Nat.strongRecOn with
  | ind n ih =>
      by_cases small : n < 10
      · rw [Nat.toDigits_of_lt_base small]
        intro zero
        have := Nat.digitChar_eq_zero.1 (Option.some.inj zero)
        omega
      · rw [Nat.toDigits_of_base_le (by decide) (by omega), List.head?_append_of_ne_nil _ Nat.toDigits_ne_nil]
        exact ih (n / 10) (by omega) (by omega)

theorem proper_of_nat (n : Nat) (pos : 0 < n) (fits : n ≤ maxWord) : (Numeral.ofNat n).Proper :=
  ⟨started_of_nat n pos, by rw [value_of_nat]; exact fits⟩

def canonicalKeep (keep : Keep) (count : UInt32) : Option (KeepRule × Numeral) :=
  if keep = ⟨.high, count⟩ then none else some (keep.rule, .ofNat keep.count.toNat)

def canonicalExplosion (sides high : UInt32) : Option Numeral :=
  if high = sides then none else some (.ofNat high.toNat)

def canonicalMultiply (multiply : UInt32) : Option (Times × Numeral) :=
  if multiply = 1 then none else some (.cross, .ofNat multiply.toNat)

def canonicalTerm (clauses : Clauses) : Term where
  count := some (.ofNat clauses.count.value.toNat)
  base := clauses.base
  sides := .number (.ofNat clauses.sides.value.toNat)
  reroll := clauses.rerollUpTo.map fun low => .ofNat low.toNat
  keep := canonicalKeep clauses.keep clauses.count.value
  explosion := clauses.explodeFrom.map (canonicalExplosion clauses.sides.value)
  multiply := canonicalMultiply clauses.multiply

theorem reroll_chars (reroll : Option UInt32) :
    optionalChars Term.rerollChars (reroll.map fun low => .ofNat low.toNat) = (Clauses.rerollText reroll).toList := by
  cases reroll with
  | none => rfl
  | some low => simp [optionalChars, Term.rerollChars, Clauses.rerollText, digits_of_word]

theorem rule_chars (rule : KeepRule) : Term.ruleChars rule = rule.text.toList := by
  cases rule <;> rfl

theorem keep_chars (keep : Keep) (count : UInt32) :
    optionalChars Term.keepChars (canonicalKeep keep count) = (Clauses.keepText keep count).toList := by
  unfold canonicalKeep Clauses.keepText
  by_cases all : keep = ⟨.high, count⟩
  · rw [if_pos all, if_pos all]
    rfl
  · rw [if_neg all, if_neg all]
    simp only [optionalChars, Term.keepChars, Keep.text, String.toList_append, rule_chars, digits_of_word]

theorem explosion_chars (sides : UInt32) (explosion : Option UInt32) :
    optionalChars Term.explosionChars (explosion.map (canonicalExplosion sides)) =
      (Clauses.explodeText sides explosion).toList := by
  cases explosion with
  | none => rfl
  | some high =>
      simp only [Option.map_some, optionalChars, Term.explosionChars, canonicalExplosion, Clauses.explodeText]
      by_cases top : high = sides
      · rw [if_pos top, if_pos top]
        rfl
      · rw [if_neg top, if_neg top]
        simp [digits_of_word]

theorem multiply_chars (multiply : UInt32) :
    optionalChars Term.multiplyChars (canonicalMultiply multiply) = (Clauses.multiplyText multiply).toList := by
  unfold canonicalMultiply Clauses.multiplyText
  by_cases once : multiply = 1
  · rw [if_pos once, if_pos once]
    rfl
  · rw [if_neg once, if_neg once]
    simp [optionalChars, Term.multiplyChars, Times.symbol, digits_of_word]

theorem canonical_term_chars (clauses : Clauses) : (canonicalTerm clauses).chars = clauses.text.toList := by
  have count : optionalChars Numeral.digits (some (.ofNat clauses.count.value.toNat)) =
      (toString clauses.count.value).toList := digits_of_word clauses.count.value
  simp [Term.chars, canonicalTerm, Clauses.text, count, reroll_chars, keep_chars, explosion_chars, multiply_chars,
    Base.text, Sides.chars, digits_of_word]

theorem canonical_term_denotes (clauses : Clauses) : (canonicalTerm clauses).Denotes clauses := by
  have count : (canonicalTerm clauses).countValue = clauses.count.value.toNat := value_of_nat _
  have sides : (canonicalTerm clauses).sides.value = clauses.sides.value.toNat := value_of_nat _
  refine ⟨rfl, sides.symm, count.symm, ?_, ?_, ?_, ?_⟩
  · cases reroll : clauses.rerollUpTo with
    | none => simp [canonicalTerm, reroll]
    | some low => simp [canonicalTerm, reroll, value_of_nat]
  · rw [count]
    by_cases all : clauses.keep = ⟨.high, clauses.count.value⟩
    · simp [canonicalTerm, canonicalKeep, all]
    · simp [canonicalTerm, canonicalKeep, all, value_of_nat]
  · rw [sides]
    cases explosion : clauses.explodeFrom with
    | none => simp [canonicalTerm, explosion]
    | some high =>
        by_cases top : high = clauses.sides.value
        · simp [canonicalTerm, canonicalExplosion, explosion, top]
        · simp [canonicalTerm, canonicalExplosion, explosion, top, value_of_nat]
  · by_cases once : clauses.multiply = 1
    · simp [canonicalTerm, canonicalMultiply, once]
    · simp [canonicalTerm, canonicalMultiply, once, value_of_nat]

def noBlanks : Blanks :=
  ⟨[], List.forall_mem_nil _⟩

def oneBlank : Blanks :=
  ⟨[' '], List.forall_mem_singleton.2 rfl⟩

def canonicalPart (term : DiceRoll.Term) : Part :=
  ⟨oneBlank, term.sign, oneBlank, .term (canonicalTerm term.dice.toClauses)⟩

def canonicalConstant (adjustment : Total) : List Part :=
  if adjustment = 0 then []
  else
    [⟨oneBlank, if adjustment.toInt < 0 then .minus else .plus, oneBlank,
      .constant (.ofNat adjustment.toInt.natAbs)⟩]

def canonicalTree (expr : DiceRoll.Expression) : Expression where
  before := noBlanks
  first := canonicalTerm expr.first.toClauses
  parts := expr.more.map canonicalPart ++ canonicalConstant expr.adjustment
  after := noBlanks

theorem canonical_parts_chars (terms : List DiceRoll.Term) :
    (terms.map canonicalPart).flatMap Part.chars = (DiceRoll.Expression.moreText terms []).toList := by
  induction terms with
  | nil => rfl
  | cons term terms ih =>
      simp [DiceRoll.Expression.moreText, DiceRoll.Expression.termText, DiceRoll.Expression.signText, ih, Part.chars,
        canonicalPart, oneBlank, Operand.chars, canonical_term_chars, Sign.text]

theorem canonical_constant_chars (adjustment : Total) :
    (canonicalConstant adjustment).flatMap Part.chars = (DiceRoll.Expression.adjustmentText adjustment).toList := by
  unfold canonicalConstant DiceRoll.Expression.adjustmentText
  by_cases zero : adjustment = 0
  · rw [if_pos zero, if_pos zero]
    rfl
  · rw [if_neg zero, if_neg zero]
    simp [DiceRoll.Expression.signText, Part.chars, oneBlank, Operand.chars, digits_of_nat, Sign.text]

theorem canonical_chars (expr : DiceRoll.Expression) : (canonicalTree expr).chars = expr.text.toList := by
  simp [canonicalTree, Expression.chars, noBlanks, canonical_term_chars, canonical_parts_chars,
    canonical_constant_chars, DiceRoll.Expression.text, DiceRoll.Expression.textWith, DiceRoll.Expression.termText]

theorem canonical_parts_terms (terms : List DiceRoll.Term) :
    List.Forall₂ Expression.DenotesTerm ((terms.map canonicalPart).filterMap Part.term?) terms := by
  induction terms with
  | nil => exact .nil
  | cons term terms ih => exact .cons ⟨rfl, canonical_term_denotes term.dice.toClauses⟩ ih

theorem canonical_constant_terms (adjustment : Total) :
    (canonicalConstant adjustment).filterMap Part.term? = [] := by
  unfold canonicalConstant
  by_cases zero : adjustment = 0
  · rw [if_pos zero]
    rfl
  · rw [if_neg zero]
    rfl

theorem constant_terms (terms : List DiceRoll.Term) : Expression.constant (terms.map canonicalPart) = 0 := by
  unfold Expression.constant
  cases last : (terms.map canonicalPart).getLast? with
  | none => rfl
  | some part =>
      obtain ⟨⟨sign, dice⟩, _, rfl⟩ := List.mem_map.1 (List.mem_of_getLast? last)
      cases sign <;> rfl

theorem constant_canonical (parts : List Part) (adjustment : Total) (free : Expression.constant parts = 0) :
    adjustment.toInt = Expression.constant (parts ++ canonicalConstant adjustment) := by
  unfold canonicalConstant
  by_cases zero : adjustment = 0
  · rw [if_pos zero, List.append_nil, free, zero]
    rfl
  · rw [if_neg zero]
    simp only [Expression.constant, List.getLast?_concat]
    by_cases negative : adjustment.toInt < 0
    · simp only [if_pos negative, value_of_nat]
      omega
    · simp only [if_neg negative, value_of_nat]
      omega

-- The canonical tree denotes the expression, even where it is not one of the grammar.
theorem canonical_denotes (expr : DiceRoll.Expression) : (canonicalTree expr).Denotes expr := by
  refine ⟨?_, constant_canonical _ expr.adjustment (constant_terms expr.more)⟩
  have more : (canonicalTree expr).parts.filterMap Part.term? = (expr.more.map canonicalPart).filterMap Part.term? := by
    simp only [canonicalTree, List.filterMap_append, canonical_constant_terms, List.append_nil]
  refine .cons ⟨rfl, canonical_term_denotes expr.first.toClauses⟩ ?_
  rw [more]
  exact canonical_parts_terms expr.more

end DiceRoll.Notation
