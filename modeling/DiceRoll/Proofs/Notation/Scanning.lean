import DiceRoll.Proofs.Notation.Follow

set_option autoImplicit false

namespace DiceRoll.Notation

namespace Numeral

def word (number : Numeral) : UInt32 :=
  clamp number.value

def problems (number : Numeral) (rest : List Char) : List Problem :=
  oversizedAt (number.digits ++ rest) number.value

theorem word_to_nat (number : Numeral) (fits : number.value ≤ maxWord) : number.word.toNat = number.value := by
  rw [word, clamp_to_nat, Nat.min_eq_left fits]

theorem problems_fit (number : Numeral) (rest : List Char) (fits : number.value ≤ maxWord) :
    number.problems rest = [] :=
  if_pos fits

end Numeral

def optionalProblems (number : Option Numeral) (rest : List Char) : List Problem :=
  number.elim [] fun number => number.problems rest

namespace Sides

def word : Sides → UInt32
  | .number n => n.word
  | .percent => 100

def problems (sides : Sides) (rest : List Char) : List Problem :=
  match sides with
  | .number n => n.problems rest
  | .percent => []

end Sides

-- The texts behind the parts of a term.
namespace Term

def afterExplosion (term : Term) (rest : List Char) : List Char :=
  optionalChars multiplyChars term.multiply ++ rest

def afterKeep (term : Term) (rest : List Char) : List Char :=
  optionalChars explosionChars term.explosion ++ term.afterExplosion rest

def afterReroll (term : Term) (rest : List Char) : List Char :=
  optionalChars keepChars term.keep ++ term.afterKeep rest

def afterSides (term : Term) (rest : List Char) : List Char :=
  optionalChars rerollChars term.reroll ++ term.afterReroll rest

def afterBase (term : Term) (rest : List Char) : List Char :=
  term.sides.chars ++ term.afterSides rest

def afterCount (term : Term) (rest : List Char) : List Char :=
  term.base.symbol :: term.afterBase rest

theorem chars_append (term : Term) (rest : List Char) :
    term.chars ++ rest = optionalChars Numeral.digits term.count ++ term.afterCount rest := by
  simp only [chars, afterCount, afterBase, afterSides, afterReroll, afterKeep, afterExplosion, List.append_assoc,
    List.cons_append]

def problems (term : Term) (rest : List Char) : List Problem :=
  optionalProblems term.count (term.afterCount rest) ++ term.sides.problems (term.afterSides rest) ++
    optionalProblems term.reroll (term.afterReroll rest) ++
    optionalProblems (term.keep.map Prod.snd) (term.afterKeep rest) ++
    optionalProblems term.explosion.join (term.afterExplosion rest) ++
    optionalProblems (term.multiply.map Prod.snd) rest

end Term

structure Reads (term : Term) (written : WrittenTerm) : Prop where
  count : written.count.map Positive.value = term.count.map Numeral.word
  base : written.base = term.base
  sides : written.sides.map Positive.value = some term.sides.word
  reroll : written.rerollUpTo.map Positive.value = term.reroll.map Numeral.word
  keep : (written.keep.map fun keep => (keep.1, keep.2.value)) = term.keep.map fun keep => (keep.1, keep.2.word)
  explosion : written.explosion.map (Option.map Positive.value) = term.explosion.map (Option.map Numeral.word)
  multiply : written.multiply.map Positive.value = term.multiply.map fun multiply => multiply.2.word

theorem scan_numeral (number : Numeral) (starts rest : List Char) (started : number.Started)
    (begins : Begins starts rest) (free : NoDigits starts) :
    ∃ found : Positive, found.value = number.word ∧
      scanNumber (number.digits ++ rest) = some ⟨found, number.problems rest, rest⟩ := by
  obtain ⟨taken, left⟩ := digits_taken number starts rest begins free
  obtain ⟨digits, present, only⟩ := number
  cases digits with
  | nil => exact absurd rfl present
  | cons c digits =>
      have digit := only c List.mem_cons_self
      have start : startsNumber c = true := by
        simp only [startsNumber, digit, Bool.true_and, bne_iff_ne, ne_eq]
        intro zero
        exact started (congrArg some zero)
      simp only [List.cons_append, List.takeWhile_cons, List.dropWhile_cons, digit, if_true, List.cons.injEq,
        true_and] at taken left
      refine ⟨.clamp (decimal (c :: digits)) (decimal_pos c digits start), rfl, ?_⟩
      simp only [List.cons_append, scanNumber, dif_pos start, taken, left]
      rfl

theorem scan_optional (number : Option Numeral) (starts rest : List Char) (started : ∀ n ∈ number, n.Started)
    (begins : Begins starts rest) (free : NoDigits starts) :
    ∃ found : Option Positive, found.map Positive.value = number.map Numeral.word ∧
      Scanned.optional scanNumber (optionalChars Numeral.digits number ++ rest) =
        ⟨found, optionalProblems number rest, rest⟩ := by
  cases number with
  | none =>
      have missing : scanNumber rest = none := by
        cases rest with
        | nil => rfl
        | cons c rest => simp [scanNumber, startsNumber, free c (begins_head _ _ _ begins)]
      refine ⟨none, rfl, ?_⟩
      simp only [optionalChars, List.nil_append, Scanned.optional, missing]
      rfl
  | some number =>
      obtain ⟨found, word, scanned⟩ := scan_numeral number starts rest (started number rfl) begins free
      refine ⟨some found, congrArg some word, ?_⟩
      simp only [optionalChars, Scanned.optional, scanned]
      rfl

theorem scan_required (number : Numeral) (starts rest : List Char) (started : number.Started)
    (begins : Begins starts rest) (free : NoDigits starts) :
    ∃ found : Positive, found.value = number.word ∧
      Scanned.required scanNumber (number.digits ++ rest) = ⟨some found, number.problems rest, rest⟩ := by
  obtain ⟨found, word, scanned⟩ := scan_numeral number starts rest started begins free
  refine ⟨found, word, ?_⟩
  simp only [Scanned.required, scanned]
  rfl

theorem scan_base_symbol (base : Base) (rest : List Char) : scanBase (base.symbol :: rest) = some (base, rest) := by
  cases base <;> rfl

theorem scan_sides_written (sides : Sides) (rest : List Char) (started : ∀ n ∈ sides.numbers, n.Started)
    (begins : Begins rerollStarts rest) :
    ∃ found : Positive, found.value = sides.word ∧
      Scanned.required scanSides (sides.chars ++ rest) = ⟨some found, sides.problems rest, rest⟩ := by
  cases sides with
  | percent => exact ⟨⟨100, by decide⟩, rfl, rfl⟩
  | number n =>
      obtain ⟨found, word, scanned⟩ := scan_numeral n rerollStarts rest (started n List.mem_cons_self) begins
        reroll_no_digits
      refine ⟨found, word, ?_⟩
      have number := scan_sides_number (n.digits ++ rest) fun ⟨after, same⟩ =>
        digits_begin n ['%'] rest percent_no_digits (same ▸ begins_cons ['%'] after '%' List.mem_cons_self)
      simp only [Sides.chars, Scanned.required, number, scanned]
      rfl

theorem scan_reroll_written (reroll : Option Numeral) (rest : List Char) (started : ∀ n ∈ reroll, n.Started)
    (begins : Begins keepStarts rest) :
    ∃ found : Option Positive, found.map Positive.value = reroll.map Numeral.word ∧
      scanReroll (optionalChars Term.rerollChars reroll ++ rest) = ⟨found, optionalProblems reroll rest, rest⟩ := by
  cases reroll with
  | none =>
      refine ⟨none, rfl, ?_⟩
      simp only [optionalChars, List.nil_append]
      unfold scanReroll
      split
      · exact absurd begins (not_begins keepStarts _ 'r' (by decide))
      · rfl
  | some low =>
      obtain ⟨found, word, scanned⟩ := scan_required low keepStarts rest (started low rfl) begins keep_no_digits
      exact ⟨some found, congrArg some word, scanned⟩

theorem scan_rule (rule : KeepRule) (rest : List Char) :
    scanKeepRule (Term.ruleChars rule ++ rest) = some (rule, rest) := by
  cases rule <;> rfl

theorem scan_no_rule (rest : List Char) (begins : Begins explosionStarts rest) : scanKeepRule rest = none := by
  unfold scanKeepRule
  split
  · exact absurd begins (not_begins explosionStarts _ 'm' (by decide))
  · exact absurd begins (not_begins explosionStarts _ 'm' (by decide))
  · exact absurd begins (not_begins explosionStarts _ 'h' (by decide))
  · exact absurd begins (not_begins explosionStarts _ 'l' (by decide))
  · rfl

theorem scan_keep_written (keep : Option (KeepRule × Numeral)) (rest : List Char)
    (started : ∀ n ∈ keep.map Prod.snd, n.Started) (begins : Begins explosionStarts rest) :
    ∃ found : Option (KeepRule × Positive),
      (found.map fun keep => (keep.1, keep.2.value)) = (keep.map fun keep => (keep.1, keep.2.word)) ∧
      scanKeep (optionalChars Term.keepChars keep ++ rest) =
        ⟨found, optionalProblems (keep.map Prod.snd) rest, rest⟩ := by
  cases keep with
  | none =>
      refine ⟨none, rfl, ?_⟩
      simp only [optionalChars, List.nil_append, scanKeep, scan_no_rule rest begins]
      rfl
  | some keep =>
      obtain ⟨rule, number⟩ := keep
      obtain ⟨found, word, scanned⟩ := scan_required number explosionStarts rest (started number rfl) begins
        explosion_no_digits
      refine ⟨some (rule, found), congrArg (fun word => some (rule, word)) word, ?_⟩
      simp only [optionalChars, Term.keepChars, List.append_assoc, scanKeep, scan_rule, scanned]
      rfl

theorem scan_explosion_written (explosion : Option (Option Numeral)) (rest : List Char)
    (started : ∀ n ∈ explosion.join, n.Started) (begins : Begins multiplyStarts rest) :
    ∃ found : Option (Option Positive),
      found.map (Option.map Positive.value) = explosion.map (Option.map Numeral.word) ∧
      scanExplosion (optionalChars Term.explosionChars explosion ++ rest) =
        ⟨found, optionalProblems explosion.join rest, rest⟩ := by
  cases explosion with
  | none =>
      refine ⟨none, rfl, ?_⟩
      simp only [optionalChars, List.nil_append]
      unfold scanExplosion
      split
      · exact absurd begins (not_begins multiplyStarts _ '!' (by decide))
      · rfl
  | some high =>
      obtain ⟨found, word, scanned⟩ := scan_optional high multiplyStarts rest started begins multiply_no_digits
      refine ⟨some found, congrArg some word, ?_⟩
      change (Scanned.optional scanNumber (optionalChars Numeral.digits high ++ rest)).map some = _
      rw [scanned]
      rfl

theorem scan_multiply_written (multiply : Option (Times × Numeral)) (rest : List Char)
    (started : ∀ n ∈ multiply.map Prod.snd, n.Started) (begins : Begins stops rest) :
    ∃ found : Option Positive,
      found.map Positive.value = (multiply.map fun multiply => multiply.2.word) ∧
      scanMultiply (optionalChars Term.multiplyChars multiply ++ rest) =
        ⟨found, optionalProblems (multiply.map Prod.snd) rest, rest⟩ := by
  cases multiply with
  | none =>
      refine ⟨none, rfl, ?_⟩
      simp only [optionalChars, List.nil_append]
      unfold scanMultiply
      split
      · exact absurd begins (not_begins stops _ '*' (by decide))
      · exact absurd begins (not_begins stops _ 'x' (by decide))
      · rfl
  | some multiply =>
      obtain ⟨times, number⟩ := multiply
      obtain ⟨found, word, scanned⟩ := scan_required number stops rest (started number rfl) begins stops_no_digits
      refine ⟨some found, congrArg some word, ?_⟩
      cases times <;> exact scanned

theorem scan_term_written (term : Term) (rest : List Char) (started : ∀ n ∈ term.numbers, n.Started)
    (begins : Begins stops rest) :
    ∃ written tried, scanTerm (term.chars ++ rest) = .found written (term.problems rest) tried ∧
      Reads term written ∧ written.start = term.chars ++ rest ∧ written.stop = rest := by
  simp only [Term.numbers, List.forall_mem_append, Option.mem_toList] at started
  obtain ⟨⟨⟨⟨⟨countStarted, sidesStarted⟩, rerollStarted⟩, keepStarted⟩, explosionStarted⟩, multiplyStarted⟩ := started
  have atMultiply := begins_multiply term.multiply rest begins
  have atExplosion := begins_explosion term.explosion _ atMultiply
  have atKeep := begins_keep term.keep _ atExplosion
  have atReroll := begins_reroll term.reroll _ atKeep
  obtain ⟨count, countWord, countScan⟩ := scan_optional term.count baseStarts (term.afterCount rest) countStarted
    (begins_base term.base _) base_no_digits
  obtain ⟨sides, sidesWord, sidesScan⟩ := scan_sides_written term.sides (term.afterSides rest) sidesStarted atReroll
  obtain ⟨reroll, rerollWord, rerollScan⟩ :=
    scan_reroll_written term.reroll (term.afterReroll rest) rerollStarted atKeep
  obtain ⟨keep, keepWord, keepScan⟩ := scan_keep_written term.keep (term.afterKeep rest) keepStarted atExplosion
  obtain ⟨explosion, explosionWord, explosionScan⟩ :=
    scan_explosion_written term.explosion (term.afterExplosion rest) explosionStarted atMultiply
  obtain ⟨multiply, multiplyWord, multiplyScan⟩ := scan_multiply_written term.multiply rest multiplyStarted begins
  refine ⟨⟨count, term.base, some sides, reroll, keep, explosion, multiply, term.chars ++ rest, rest⟩,
    lookedAt (term.sides.problems (term.afterSides rest) ++ optionalProblems term.reroll (term.afterReroll rest))
      (term.afterReroll rest) rest, ?_,
    ⟨countWord, rfl, congrArg some sidesWord, rerollWord, keepWord, explosionWord, multiplyWord⟩, rfl, rfl⟩
  -- Every text behind a part is the next part and the text behind that one.
  have baseScan : scanBase (term.afterCount rest) = _ := scan_base_symbol term.base (term.afterBase rest)
  change Scanned.required scanSides (term.afterBase rest) = _ at sidesScan
  change scanReroll (term.afterSides rest) = _ at rerollScan
  change scanKeep (term.afterReroll rest) = _ at keepScan
  change scanExplosion (term.afterKeep rest) = _ at explosionScan
  change scanMultiply (term.afterExplosion rest) = _ at multiplyScan
  rw [Term.chars_append]
  unfold scanTerm
  simp only [countScan, baseScan, sidesScan, rerollScan, keepScan, explosionScan, multiplyScan, Term.problems]

end DiceRoll.Notation
