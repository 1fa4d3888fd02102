import DiceRoll.Proofs.Notation.Follow

set_option autoImplicit false

namespace DiceRoll.Notation

def Splits {α : Type} (follow : List Char) (chars : α → List Char) : Prop :=
  ∀ a b s t, Begins follow s → Begins follow t → chars a ++ s = chars b ++ t → a = b ∧ s = t

theorem numeral_eq (a b : Numeral) (same : a.digits = b.digits) : a = b := by
  cases a
  cases b
  cases same
  rfl

theorem splits_digits (follow : List Char) (free : NoDigits follow) :
    Splits follow Numeral.digits := by
  intro a b s t sBegins tBegins same
  obtain ⟨aTaken, aLeft⟩ := digits_taken a follow s sBegins free
  obtain ⟨bTaken, bLeft⟩ := digits_taken b follow t tBegins free
  rw [same] at aTaken aLeft
  exact ⟨numeral_eq a b (aTaken.symm.trans bTaken), aLeft.symm.trans bLeft⟩

theorem splits_marked {α : Type} (follow : List Char) (chars : α → List Char) (mark : Char)
    (splits : Splits follow chars) : Splits follow fun a => mark :: chars a :=
  fun a b s t sBegins tBegins same => splits a b s t sBegins tBegins (List.cons.inj same).2

theorem splits_optional {α : Type} (follow : List Char) (chars : α → List Char) (splits : Splits follow chars)
    (apart : ∀ a s, ¬Begins follow (chars a ++ s)) : Splits follow (optionalChars chars) := by
  intro a b s t sBegins tBegins same
  cases a with
  | none =>
      cases b with
      | none => exact ⟨rfl, same⟩
      | some b =>
          have begins : Begins follow (chars b ++ t) := same ▸ sBegins
          exact absurd begins (apart b t)
  | some a =>
      cases b with
      | none =>
          have begins : Begins follow (chars a ++ s) := same.symm ▸ tBegins
          exact absurd begins (apart a s)
      | some b =>
          obtain ⟨rfl, rest⟩ := splits a b s t sBegins tBegins same
          exact ⟨rfl, rest⟩

theorem splits_numeral (follow : List Char) (free : NoDigits follow) :
    Splits follow (optionalChars Numeral.digits) :=
  splits_optional follow _ (splits_digits follow free) fun number rest => digits_begin number follow rest free

theorem splits_sides : Splits rerollStarts Sides.chars := by
  intro a b s t sBegins tBegins same
  cases a with
  | number a =>
      cases b with
      | number b =>
          obtain ⟨rfl, rest⟩ := splits_digits rerollStarts reroll_no_digits a b s t sBegins tBegins same
          exact ⟨rfl, rest⟩
      | percent =>
          have begins : Begins ['%'] (a.digits ++ s) := same ▸ begins_cons ['%'] t '%' (by decide)
          exact absurd begins (digits_begin a ['%'] s percent_no_digits)
  | percent =>
      cases b with
      | number b =>
          have begins : Begins ['%'] (b.digits ++ t) := same ▸ begins_cons ['%'] s '%' (by decide)
          exact absurd begins (digits_begin b ['%'] t percent_no_digits)
      | percent => exact ⟨rfl, (List.cons.inj same).2⟩

theorem splits_reroll : Splits keepStarts (optionalChars Term.rerollChars) :=
  splits_optional keepStarts _ (splits_marked keepStarts _ 'r' (splits_digits keepStarts keep_no_digits))
    fun _ _ => not_begins keepStarts _ 'r' (by decide)

theorem splits_rule (a b : KeepRule) (s t : List Char)
    (same : Term.ruleChars a ++ s = Term.ruleChars b ++ t) : a = b ∧ s = t := by
  cases a <;> cases b <;> simp_all [Term.ruleChars]

theorem splits_keep : Splits explosionStarts (optionalChars Term.keepChars) := by
  apply splits_optional
  · intro ⟨aRule, a⟩ ⟨bRule, b⟩ s t sBegins tBegins same
    rw [Term.keepChars, Term.keepChars, List.append_assoc, List.append_assoc] at same
    obtain ⟨rfl, rest⟩ := splits_rule aRule bRule _ _ same
    obtain ⟨rfl, final⟩ := splits_digits explosionStarts explosion_no_digits a b s t sBegins tBegins rest
    exact ⟨rfl, final⟩
  · intro ⟨rule, number⟩ s
    cases rule with
    | high => exact not_begins explosionStarts _ 'h' (by decide)
    | low => exact not_begins explosionStarts _ 'l' (by decide)
    | middleHigh => exact not_begins explosionStarts _ 'm' (by decide)
    | middleLow => exact not_begins explosionStarts _ 'm' (by decide)

theorem splits_explosion : Splits multiplyStarts (optionalChars Term.explosionChars) :=
  splits_optional multiplyStarts _
    (splits_marked multiplyStarts _ '!' (splits_numeral multiplyStarts multiply_no_digits))
    fun _ _ => not_begins multiplyStarts _ '!' (by decide)

theorem times_eq (a b : Times) (same : a.symbol = b.symbol) : a = b := by
  cases a <;> cases b <;> simp_all [Times.symbol]

theorem splits_multiply : Splits stops (optionalChars Term.multiplyChars) := by
  apply splits_optional
  · intro ⟨aTimes, a⟩ ⟨bTimes, b⟩ s t sBegins tBegins same
    obtain ⟨times, digits⟩ := List.cons.inj same
    obtain rfl := times_eq aTimes bTimes times
    obtain ⟨rfl, rest⟩ := splits_digits stops stops_no_digits a b s t sBegins tBegins digits
    exact ⟨rfl, rest⟩
  · intro ⟨times, number⟩ s
    cases times with
    | star => exact not_begins stops _ '*' (by decide)
    | cross => exact not_begins stops _ 'x' (by decide)

theorem base_eq (a b : Base) (same : a.symbol = b.symbol) : a = b := by
  cases a <;> cases b <;> simp_all [Base.symbol]

theorem sign_eq (a b : Sign) (same : a.symbol = b.symbol) : a = b := by
  cases a <;> cases b <;> simp_all [Sign.symbol]

-- The parts of a term are split off one after the other, each by what can stand behind it.
theorem splits_term : Splits stops Term.chars := by
  intro a b s t sBegins tBegins same
  have sMultiply := begins_multiply a.multiply s sBegins
  have tMultiply := begins_multiply b.multiply t tBegins
  have sExplosion := begins_explosion a.explosion _ sMultiply
  have tExplosion := begins_explosion b.explosion _ tMultiply
  have sKeep := begins_keep a.keep _ sExplosion
  have tKeep := begins_keep b.keep _ tExplosion
  have sReroll := begins_reroll a.reroll _ sKeep
  have tReroll := begins_reroll b.reroll _ tKeep
  obtain ⟨aCount, aBase, aSides, aRest⟩ := a
  obtain ⟨bCount, bBase, bSides, bRest⟩ := b
  simp only [Term.chars, List.append_assoc, List.cons_append] at same
  obtain ⟨rfl, afterCount⟩ := splits_numeral baseStarts base_no_digits aCount bCount _ _
    (begins_base aBase _) (begins_base bBase _) same
  obtain ⟨base, afterBase⟩ := List.cons.inj afterCount
  obtain rfl := base_eq aBase bBase base
  obtain ⟨rfl, afterSides⟩ := splits_sides aSides bSides _ _ sReroll tReroll afterBase
  obtain ⟨rfl, afterReroll⟩ := splits_reroll _ _ _ _ sKeep tKeep afterSides
  obtain ⟨rfl, afterKeep⟩ := splits_keep _ _ _ _ sExplosion tExplosion afterReroll
  obtain ⟨rfl, afterExplosion⟩ := splits_explosion _ _ _ _ sMultiply tMultiply afterKeep
  obtain ⟨rfl, rest⟩ := splits_multiply _ _ _ _ sBegins tBegins afterExplosion
  exact ⟨rfl, rest⟩

-- A term is longer than its count: it goes on with its base, and a number does not.
theorem term_not_number (term : Term) (number : Numeral) (s t : List Char) (begins : Begins stops t) :
    term.chars ++ s ≠ number.digits ++ t := by
  intro same
  rw [Term.chars, List.append_assoc] at same
  have bases := begins_base term.base (term.sides.chars ++ (optionalChars Term.rerollChars term.reroll ++
    (optionalChars Term.keepChars term.keep ++ (optionalChars Term.explosionChars term.explosion ++
      optionalChars Term.multiplyChars term.multiply))) ++ s)
  cases count : term.count with
  | none =>
      rw [count] at same
      have digits : Begins baseStarts (number.digits ++ t) := same ▸ bases
      exact digits_begin number baseStarts t base_no_digits digits
  | some n =>
      rw [count] at same
      have free : NoDigits (baseStarts ++ stops) := List.forall_mem_append.2 ⟨base_no_digits, stops_no_digits⟩
      -- The count would be the whole number, and the base would stand where the number is over.
      obtain ⟨rfl, tail⟩ := splits_digits (baseStarts ++ stops) free n number _ t
        (begins_weaken _ _ _ (List.subset_append_left _ _) bases)
        (begins_weaken _ _ _ (List.subset_append_right _ _) begins) same
      have base : Begins stops (term.base.symbol :: _) := tail ▸ begins
      cases symbol : term.base <;> rw [symbol] at base <;> exact not_begins stops _ _ (by decide) base

theorem splits_operand : Splits stops Operand.chars := by
  intro a b s t sBegins tBegins same
  cases a with
  | term a =>
      cases b with
      | term b =>
          obtain ⟨rfl, rest⟩ := splits_term a b s t sBegins tBegins same
          exact ⟨rfl, rest⟩
      | constant b => exact absurd same (term_not_number a b s t tBegins)
  | constant a =>
      cases b with
      | term b => exact absurd same.symm (term_not_number b a t s sBegins)
      | constant b =>
          obtain ⟨rfl, rest⟩ := splits_digits stops stops_no_digits a b s t sBegins tBegins same
          exact ⟨rfl, rest⟩

theorem splits_blanks (a b : Blanks) (s t : List Char) (sVisible : Visible s) (tVisible : Visible t)
    (same : a.chars ++ s = b.chars ++ t) : a = b ∧ s = t := by
  obtain ⟨aTaken, aLeft⟩ := blanks_taken a s sVisible
  obtain ⟨bTaken, bLeft⟩ := blanks_taken b t tVisible
  rw [same] at aTaken aLeft
  refine ⟨?_, aLeft.symm.trans bLeft⟩
  cases a
  cases b
  cases aTaken.symm.trans bTaken
  rfl

theorem splits_part : Splits stops Part.chars := by
  intro a b s t sBegins tBegins same
  obtain ⟨aBefore, aSign, aBetween, aOperand⟩ := a
  obtain ⟨bBefore, bSign, bBetween, bOperand⟩ := b
  simp only [Part.chars, List.append_assoc, List.cons_append] at same
  obtain ⟨rfl, afterBlanks⟩ := splits_blanks aBefore bBefore _ _ (sign_visible aSign _) (sign_visible bSign _) same
  obtain ⟨sign, afterSign⟩ := List.cons.inj afterBlanks
  obtain rfl := sign_eq aSign bSign sign
  obtain ⟨rfl, afterBetween⟩ := splits_blanks aBetween bBetween _ _ (operand_visible aOperand s)
    (operand_visible bOperand t) afterSign
  obtain ⟨rfl, rest⟩ := splits_operand aOperand bOperand s t sBegins tBegins afterBetween
  exact ⟨rfl, rest⟩

theorem blanks_no_part (blanks : Blanks) (part : Part) (rest : List Char) : blanks.chars ≠ part.chars ++ rest := by
  intro same
  have member : part.sign.symbol ∈ blanks.chars := by
    rw [same, Part.chars]
    simp
  have blank := blanks.only _ member
  cases sign : part.sign <;> rw [sign] at blank <;> cases blank

theorem splits_parts (a b : List Part) (aAfter bAfter : Blanks)
    (same : a.flatMap Part.chars ++ aAfter.chars = b.flatMap Part.chars ++ bAfter.chars) :
    a = b ∧ aAfter = bAfter := by
  induction a generalizing b with
  | nil =>
      cases b with
      | nil =>
          obtain ⟨after, _⟩ := splits_blanks aAfter bAfter [] [] nofun nofun (by simpa using same)
          exact ⟨rfl, after⟩
      | cons part b =>
          rw [List.flatMap_cons, List.append_assoc] at same
          exact absurd same (blanks_no_part aAfter part _)
  | cons part a ih =>
      cases b with
      | nil =>
          rw [List.flatMap_cons, List.append_assoc] at same
          exact absurd same.symm (blanks_no_part bAfter part _)
      | cons other b =>
          rw [List.flatMap_cons, List.flatMap_cons, List.append_assoc, List.append_assoc] at same
          obtain ⟨rfl, rest⟩ := splits_part part other _ _ (begins_parts a aAfter) (begins_parts b bAfter) same
          obtain ⟨rfl, rfl⟩ := ih b rest
          exact ⟨rfl, rfl⟩

theorem unambiguous (a b : Expression) (same : a.chars = b.chars) : a = b := by
  obtain ⟨aBefore, aFirst, aParts, aAfter⟩ := a
  obtain ⟨bBefore, bFirst, bParts, bAfter⟩ := b
  simp only [Expression.chars] at same
  obtain ⟨rfl, afterBlanks⟩ := splits_blanks aBefore bBefore _ _ (term_visible aFirst _) (term_visible bFirst _) same
  obtain ⟨rfl, afterFirst⟩ := splits_term aFirst bFirst _ _ (begins_parts aParts aAfter) (begins_parts bParts bAfter)
    afterBlanks
  obtain ⟨rfl, rfl⟩ := splits_parts aParts bParts aAfter bAfter afterFirst
  rfl

end DiceRoll.Notation
