import DiceRoll.Proofs.Notation.Scanning

set_option autoImplicit false

namespace DiceRoll.Notation

theorem number_scanned (text : List Char) (scanned : Scanned Positive) (found : scanNumber text = some scanned) :
    ∃ number : Numeral, number.Started ∧ scanned.value.value = number.word ∧
      scanned.problems = number.problems scanned.rest ∧ text = number.digits ++ scanned.rest := by
  obtain ⟨c, more, start, rfl, rfl⟩ := scan_number_found text scanned found
  simp only [startsNumber, Bool.and_eq_true, bne_iff_ne, ne_eq] at start
  have only : ∀ digit ∈ c :: more.takeWhile Char.isDigit, digit.isDigit = true := by
    intro digit member
    cases member with
    | head => exact start.1
    | tail _ member => exact List.all_eq_true.1 List.all_takeWhile digit member
  have whole : c :: more = c :: more.takeWhile Char.isDigit ++ more.dropWhile Char.isDigit :=
    congrArg (c :: ·) List.takeWhile_append_dropWhile.symm
  refine ⟨⟨c :: more.takeWhile Char.isDigit, List.cons_ne_nil _ _, only⟩, ?_, rfl, ?_, whole⟩
  · intro zero
    exact start.2 (Option.some.inj zero)
  · exact congrArg (oversizedAt · _) whole

theorem number_found (text : List Char) (scanned : Scanned Positive) (found : scanNumber text = some scanned)
    (clear : scanned.problems = []) :
    ∃ number : Numeral, number.Proper ∧ scanned.value.value = number.word ∧
      text = number.digits ++ scanned.rest := by
  obtain ⟨number, started, word, problems, chars⟩ := number_scanned text scanned found
  refine ⟨number, ⟨started, ?_⟩, word, chars⟩
  rw [problems, Numeral.problems, oversizedAt] at clear
  by_cases fits : number.value ≤ maxWord
  · exact fits
  · rw [if_neg fits] at clear
    cases clear

theorem count_scanned (text : List Char) :
    ∃ count : Option Numeral, (∀ n ∈ count, n.Started) ∧
      text = optionalChars Numeral.digits count ++ (Scanned.optional scanNumber text).rest := by
  rw [Scanned.optional]
  cases found : scanNumber text with
  | none => exact ⟨none, fun n member => absurd member (Option.not_mem_none n), rfl⟩
  | some scanned =>
      obtain ⟨number, started, _, _, chars⟩ := number_scanned text scanned found
      refine ⟨some number, ?_, chars⟩
      intro n member
      cases member
      exact started

theorem optional_found (text : List Char) (clear : (Scanned.optional scanNumber text).problems = []) :
    ∃ number : Option Numeral, (∀ n ∈ number, n.Proper) ∧
      (Scanned.optional scanNumber text).value.map Positive.value = number.map Numeral.word ∧
      text = optionalChars Numeral.digits number ++ (Scanned.optional scanNumber text).rest := by
  unfold Scanned.optional at clear ⊢
  cases found : scanNumber text with
  | none => exact ⟨none, nofun, rfl, rfl⟩
  | some scanned =>
      rw [found] at clear
      obtain ⟨number, proper, word, chars⟩ := number_found text scanned found clear
      refine ⟨some number, ?_, congrArg some word, chars⟩
      intro n member
      cases member
      exact proper

theorem required_found (text : List Char) (clear : (Scanned.required scanNumber text).problems = []) :
    ∃ number : Numeral, number.Proper ∧
      (Scanned.required scanNumber text).value.map Positive.value = some number.word ∧
      text = number.digits ++ (Scanned.required scanNumber text).rest := by
  unfold Scanned.required at clear ⊢
  cases found : scanNumber text with
  | none =>
      rw [found] at clear
      cases clear
  | some scanned =>
      rw [found] at clear
      obtain ⟨number, proper, word, chars⟩ := number_found text scanned found clear
      exact ⟨number, proper, congrArg some word, chars⟩

theorem base_found (text rest : List Char) (base : Base) (found : scanBase text = some (base, rest)) :
    text = base.symbol :: rest := by
  unfold scanBase at found
  split at found
  · cases found
    rfl
  · cases found
    rfl
  · cases found

theorem sides_found (text : List Char) (clear : (Scanned.required scanSides text).problems = []) :
    ∃ sides : Sides, (∀ n ∈ sides.numbers, n.Proper) ∧
      (Scanned.required scanSides text).value.map Positive.value = some sides.word ∧
      text = sides.chars ++ (Scanned.required scanSides text).rest := by
  by_cases percent : ∃ rest, text = '%' :: rest
  · obtain ⟨rest, rfl⟩ := percent
    exact ⟨.percent, nofun, rfl, rfl⟩
  · unfold Scanned.required at clear ⊢
    rw [scan_sides_number text percent] at clear ⊢
    obtain ⟨n, proper, word, chars⟩ := required_found text clear
    refine ⟨.number n, ?_, word, chars⟩
    intro m member
    cases List.mem_singleton.1 member
    exact proper

theorem reroll_found (text : List Char) (clear : (scanReroll text).problems = []) :
    ∃ reroll : Option Numeral, (∀ n ∈ reroll, n.Proper) ∧
      (scanReroll text).value.map Positive.value = reroll.map Numeral.word ∧
      text = optionalChars Term.rerollChars reroll ++ (scanReroll text).rest := by
  unfold scanReroll at clear ⊢
  split at clear
  · rename_i text
    obtain ⟨low, proper, word, chars⟩ := required_found text clear
    refine ⟨some low, ?_, word, congrArg ('r' :: ·) chars⟩
    intro n member
    cases member
    exact proper
  · exact ⟨none, nofun, rfl, rfl⟩

theorem rule_found (text rest : List Char) (rule : KeepRule) (found : scanKeepRule text = some (rule, rest)) :
    text = Term.ruleChars rule ++ rest := by
  unfold scanKeepRule at found
  split at found <;> cases found <;> rfl

theorem keep_found (text : List Char) (clear : (scanKeep text).problems = []) :
    ∃ keep : Option (KeepRule × Numeral), (∀ n ∈ keep.map Prod.snd, n.Proper) ∧
      ((scanKeep text).value.map fun keep => (keep.1, keep.2.value)) = (keep.map fun keep => (keep.1, keep.2.word)) ∧
      text = optionalChars Term.keepChars keep ++ (scanKeep text).rest := by
  unfold scanKeep at clear ⊢
  cases found : scanKeepRule text with
  | none => exact ⟨none, nofun, rfl, rfl⟩
  | some pair =>
      obtain ⟨rule, rest⟩ := pair
      rw [found] at clear
      obtain ⟨number, proper, word, chars⟩ := required_found rest clear
      refine ⟨some (rule, number), ?_, ?_, ?_⟩
      · intro n member
        cases member
        exact proper
      · obtain ⟨count, found, value⟩ := Option.map_eq_some_iff.1 word
        simp only [Scanned.map, found, Option.map_some, value]
      · rw [rule_found text rest rule found]
        exact (congrArg (Term.ruleChars rule ++ ·) chars).trans (List.append_assoc _ _ _).symm

theorem explosion_found (text : List Char) (clear : (scanExplosion text).problems = []) :
    ∃ explosion : Option (Option Numeral), (∀ n ∈ explosion.join, n.Proper) ∧
      (scanExplosion text).value.map (Option.map Positive.value) = explosion.map (Option.map Numeral.word) ∧
      text = optionalChars Term.explosionChars explosion ++ (scanExplosion text).rest := by
  unfold scanExplosion at clear ⊢
  split at clear
  · rename_i text
    obtain ⟨high, proper, word, chars⟩ := optional_found text clear
    exact ⟨some high, proper, congrArg some word, congrArg ('!' :: ·) chars⟩
  · exact ⟨none, nofun, rfl, rfl⟩

theorem multiply_found (text : List Char) (clear : (scanMultiply text).problems = []) :
    ∃ multiply : Option (Times × Numeral), (∀ n ∈ multiply.map Prod.snd, n.Proper) ∧
      (scanMultiply text).value.map Positive.value = (multiply.map fun multiply => multiply.2.word) ∧
      text = optionalChars Term.multiplyChars multiply ++ (scanMultiply text).rest := by
  have behind (times : Times) (text : List Char) (clear : (Scanned.required scanNumber text).problems = []) :
      ∃ multiply : Option (Times × Numeral), (∀ n ∈ multiply.map Prod.snd, n.Proper) ∧
        (Scanned.required scanNumber text).value.map Positive.value = (multiply.map fun multiply => multiply.2.word) ∧
        times.symbol :: text =
          optionalChars Term.multiplyChars multiply ++ (Scanned.required scanNumber text).rest := by
    obtain ⟨number, proper, word, chars⟩ := required_found text clear
    refine ⟨some (times, number), ?_, word, congrArg (times.symbol :: ·) chars⟩
    intro n member
    cases member
    exact proper
  unfold scanMultiply at clear ⊢
  split at clear
  · exact behind .star _ clear
  · exact behind .cross _ clear
  · exact ⟨none, nofun, rfl, rfl⟩

theorem term_found (text tried : List Char) (written : WrittenTerm) (found : scanTerm text = .found written [] tried) :
    ∃ term : Term, (∀ n ∈ term.numbers, n.Proper) ∧ Reads term written ∧ text = term.chars ++ written.stop := by
  unfold scanTerm at found
  simp only at found
  split at found
  · cases found
  · rename_i base rest atBase
    injection found with same clear _
    simp only [List.append_eq_nil_iff] at clear
    obtain ⟨⟨⟨⟨⟨countClear, sidesClear⟩, rerollClear⟩, keepClear⟩, explosionClear⟩, multiplyClear⟩ := clear
    obtain ⟨count, countProper, countWord, countChars⟩ := optional_found text countClear
    obtain ⟨sides, sidesProper, sidesWord, sidesChars⟩ := sides_found rest sidesClear
    obtain ⟨reroll, rerollProper, rerollWord, rerollChars⟩ := reroll_found _ rerollClear
    obtain ⟨keep, keepProper, keepWord, keepChars⟩ := keep_found _ keepClear
    obtain ⟨explosion, explosionProper, explosionWord, explosionChars⟩ := explosion_found _ explosionClear
    obtain ⟨multiply, multiplyProper, multiplyWord, multiplyChars⟩ := multiply_found _ multiplyClear
    subst same
    refine ⟨⟨count, base, sides, reroll, keep, explosion, multiply⟩, ?_,
      ⟨countWord, rfl, sidesWord, rerollWord, keepWord, explosionWord, multiplyWord⟩, ?_⟩
    · simp only [Term.numbers, List.forall_mem_append, Option.mem_toList]
      exact ⟨⟨⟨⟨⟨countProper, sidesProper⟩, rerollProper⟩, keepProper⟩, explosionProper⟩, multiplyProper⟩
    -- Every text is its part and what stands behind it, put together from the last part on.
    · have explosionText :=
        explosionChars.trans (congrArg (optionalChars Term.explosionChars explosion ++ ·) multiplyChars)
      have keepText := keepChars.trans (congrArg (optionalChars Term.keepChars keep ++ ·) explosionText)
      have rerollText := rerollChars.trans (congrArg (optionalChars Term.rerollChars reroll ++ ·) keepText)
      have sidesText := sidesChars.trans (congrArg (sides.chars ++ ·) rerollText)
      have baseText := (base_found _ rest base atBase).trans (congrArg (base.symbol :: ·) sidesText)
      rw [Term.chars_append]
      exact countChars.trans (congrArg (optionalChars Numeral.digits count ++ ·) baseText)

theorem words_to_nat (number : Option Numeral) (fits : ∀ n ∈ number, n.value ≤ maxWord) :
    (number.map Numeral.word).map UInt32.toNat = number.map Numeral.value := by
  cases number with
  | none => rfl
  | some number => exact congrArg some (number.word_to_nat (fits number rfl))

theorem sides_to_nat (sides : Sides) (fits : ∀ n ∈ sides.numbers, n.value ≤ maxWord) :
    sides.word.toNat = sides.value := by
  cases sides with
  | percent => rfl
  | number n => exact n.word_to_nat (fits n List.mem_cons_self)

theorem reads_denotes (term : Term) (written : WrittenTerm) (reads : Reads term written)
    (fits : ∀ n ∈ term.numbers, n.value ≤ maxWord) : term.Denotes written.clauses := by
  simp only [Term.numbers, List.forall_mem_append, Option.mem_toList] at fits
  obtain ⟨⟨⟨⟨⟨countFits, sidesFits⟩, rerollFits⟩, keepFits⟩, explosionFits⟩, multiplyFits⟩ := fits
  obtain ⟨countReads, baseReads, sidesReads, rerollReads, keepReads, explosionReads, multiplyReads⟩ := reads
  have sides : written.clauses.sides.value.toNat = term.sides.value := by
    change ((written.sides.map Positive.value).getD 20).toNat = _
    rw [sidesReads]
    exact sides_to_nat term.sides sidesFits
  have count : written.clauses.count.value.toNat = term.countValue := by
    change ((written.count.map Positive.value).getD 1).toNat = _
    rw [countReads, Term.countValue]
    cases number : term.count with
    | none => rfl
    | some n => exact n.word_to_nat (countFits n number)
  refine ⟨baseReads, sides, count, ?_, ?_, ?_, ?_⟩
  · change (written.rerollUpTo.map Positive.value).map UInt32.toNat = _
    rw [rerollReads]
    exact words_to_nat term.reroll rerollFits
  · cases said : term.keep with
    | none =>
        rw [said] at keepReads
        have unsaid : written.keep = none := Option.map_eq_none_iff.1 keepReads
        simp only [WrittenTerm.clauses, Draft.clauses, WrittenTerm.draft, unsaid, Option.map_none, Option.getD_none,
          Option.elim_none]
        exact congrArg (Prod.mk _) count
    | some keep =>
        rw [said] at keepReads
        obtain ⟨found, read, same⟩ := Option.map_eq_some_iff.1 keepReads
        obtain ⟨rule, word⟩ := Prod.ext_iff.1 same
        simp only [WrittenTerm.clauses, Draft.clauses, WrittenTerm.draft, read, Option.map_some, Option.getD_some,
          Option.elim_some]
        simp only at rule word
        rw [rule, word, keep.2.word_to_nat (keepFits keep.2 (by rw [said]; rfl))]
  · cases said : term.explosion with
    | none =>
        rw [said] at explosionReads
        have unsaid : written.explosion = none := Option.map_eq_none_iff.1 explosionReads
        simp only [WrittenTerm.clauses, Draft.clauses, WrittenTerm.draft, unsaid, Option.map_none]
    | some high =>
        rw [said] at explosionReads
        obtain ⟨found, read, same⟩ := Option.map_eq_some_iff.1 explosionReads
        simp only [WrittenTerm.clauses, Draft.clauses, WrittenTerm.draft, read, Option.map_some]
        cases high with
        | none =>
            rw [Option.map_eq_none_iff.1 same]
            exact congrArg some sides
        | some high =>
            obtain ⟨threshold, rfl, word⟩ := Option.map_eq_some_iff.1 same
            simp only [Explosion.threshold, word, Option.elim_some]
            rw [high.word_to_nat (explosionFits high (by rw [said]; rfl))]
  · change ((written.multiply.map Positive.value).getD 1).toNat = _
    rw [multiplyReads]
    cases multiply : term.multiply with
    | none => rfl
    | some multiplied => exact multiplied.2.word_to_nat (multiplyFits multiplied.2 (by rw [multiply]; rfl))

end DiceRoll.Notation
