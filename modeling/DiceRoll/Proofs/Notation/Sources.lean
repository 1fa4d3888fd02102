import DiceRoll.Proofs.Notation.RoundTrip
import DiceRoll.Proofs.Notation.Slices

set_option autoImplicit false

namespace DiceRoll.Notation

inductive TypedTerms : List DiceRoll.Term → List Char → List Char → Prop where
  | none (tail : List Char) : TypedTerms [] tail tail
  | term (before : Blanks) (between : Blanks) (term : DiceRoll.Term) (terms : List DiceRoll.Term)
      (text tail : List Char) (more : TypedTerms terms text tail) :
      TypedTerms (term :: terms)
        (before.chars ++ term.sign.symbol :: (between.chars ++ (term.dice.source.toList ++ text))) tail

inductive TypedConstant : Total → List Char → Prop where
  | none (after : Blanks) : TypedConstant 0 after.chars
  | number (before : Blanks) (sign : Sign) (between : Blanks) (number : Numeral) (after : Blanks) (adjustment : Total)
      (signed : adjustment.toInt = match sign with
        | .plus => (number.value : Int)
        | .minus => -number.value) :
      TypedConstant adjustment
        (before.chars ++ sign.symbol :: (between.chars ++ (number.digits ++ after.chars)))

-- A text is nothing but the sources of the terms in order, signs between them, the constant, and blanks.
def Typed (expr : DiceRoll.Expression) (text : List Char) : Prop :=
  ∃ (before : Blanks) (later tail : List Char), text = before.chars ++ (expr.first.source.toList ++ later) ∧
    TypedTerms expr.more later tail ∧ TypedConstant expr.adjustment tail

theorem lowered_plain (text plain : List Char) (lower : lowercase text = plain)
    (only : ∀ c ∈ plain, c.isDigit = true ∨ isBlank c = true) : text = plain := by
  subst lower
  have same : ∀ c ∈ text, c.toLower = id c := by
    intro c member
    rcases only c.toLower (List.mem_map_of_mem member) with digit | blank
    · exact lowered_digit c digit
    · exact lowered_blank c blank
  exact ((List.map_congr_left same).trans (List.map_id text)).symm

theorem typed_blanks (text : List Char) (blanks : Blanks) (lower : lowercase text = blanks.chars) :
    text = blanks.chars :=
  lowered_plain text blanks.chars lower fun c member => .inr (blanks.only c member)

theorem typed_digits (text : List Char) (number : Numeral) (lower : lowercase text = number.digits) :
    text = number.digits :=
  lowered_plain text number.digits lower fun c member => .inl (number.only c member)

theorem typed_skip (text : List Char) :
    ∃ (before : Blanks) (behind : List Char), text = before.chars ++ behind ∧
      lowercase behind = skipBlanks (lowercase text) := by
  obtain ⟨first, behind, rfl, firstLower, behindLower⟩ := List.map_eq_append_iff.1 (blanks_found (lowercase text))
  generalize Blanks.taken (lowercase (first ++ behind)) = before at firstLower
  exact ⟨before, behind, by rw [typed_blanks first before firstLower], behindLower⟩

theorem typed_sign (text rest : List Char) (sign : Sign)
    (found : scanSign (skipBlanks (lowercase text)) = some (sign, rest)) :
    ∃ (before between : Blanks) (behind : List Char),
      text = before.chars ++ sign.symbol :: (between.chars ++ behind) ∧ lowercase behind = skipBlanks rest := by
  obtain ⟨before, signed, rfl, signedLower⟩ := typed_skip text
  rw [← signedLower] at found
  obtain ⟨c, more, rfl, signLower, rfl⟩ := List.map_eq_cons_iff.1 (sign_found _ rest sign found)
  obtain ⟨between, behind, rfl, behindLower⟩ := typed_skip more
  exact ⟨before, between, behind, by rw [lowered_sign c sign signLower], behindLower⟩

theorem scan_term_start (text : List Char) (written : WrittenTerm) (problems : List Problem) (tried : List Char)
    (found : scanTerm text = .found written problems tried) : written.start = text := by
  unfold scanTerm at found
  simp only at found
  split at found
  · cases found
  · cases found
    rfl

theorem source_typed (written : WrittenTerm) (before part after : List Char)
    (start : written.start = lowercase (part ++ after)) (stop : written.stop = lowercase after) :
    (written.dice (lowercase (before ++ (part ++ after))) (before ++ (part ++ after))).source = String.ofList part := by
  simp only [WrittenTerm.dice, WrittenTerm.source]
  rw [start, stop, slice_typed]
  rfl

theorem term_read_alone (term : Term) (proper : ∀ n ∈ term.numbers, n.Proper) (s : String)
    (chars : lowercase s.toList = term.chars) :
    ∃ alone : WrittenTerm, parseDice s = .ok (alone.dice (lowercase s.toList) s.toList) ∧ Reads term alone ∧
      alone.start = lowercase s.toList ∧ alone.stop = [] := by
  obtain ⟨alone, tried, scanned, reads, start, stop⟩ :=
    scan_term_written term [] (fun n member => (proper n member).started) (begins_nil stops)
  have fits : ∀ n ∈ term.numbers, n.value ≤ maxWord := fun n member => (proper n member).fits
  rw [List.append_nil, ← chars] at scanned start
  refine ⟨alone, ?_, reads, start, stop⟩
  rw [parseDice, result_ok_iff, read_term_eq, scanned, term_problems_fit term [] fits]
  simp only [stop, if_true]

theorem dice_read_alone (term : Term) (proper : ∀ n ∈ term.numbers, n.Proper) (dice : Dice)
    (denotes : term.Denotes dice.toClauses) (typed : lowercase dice.source.toList = term.chars) :
    parseDice dice.source = .ok dice := by
  obtain ⟨alone, read, reads, start, stop⟩ := term_read_alone term proper dice.source typed
  have clauses : alone.clauses = dice.toClauses :=
    term_denotes_unique term _ _ (reads_denotes term alone reads fun n member => (proper n member).fits) denotes
  have source := source_typed alone [] dice.source.toList [] (by rw [start, List.append_nil]) stop
  rw [List.nil_append, List.append_nil, String.ofList_toList] at source
  rw [read]
  obtain ⟨diceClauses, diceSource⟩ := dice
  exact congrArg Except.ok (congr (congrArg Dice.mk clauses) source)

theorem term_typed (typed text tried : List Char) (written : WrittenTerm) (within : text <:+ typed)
    (found : scanTerm (lowercase text) = .found written [] tried) :
    ∃ rest, lowercase rest = written.stop ∧
      text = (written.dice (lowercase typed) typed).source.toList ++ rest ∧
      parseDice (written.dice (lowercase typed) typed).source = .ok (written.dice (lowercase typed) typed) := by
  obtain ⟨term, proper, reads, chars⟩ := term_found _ tried written found
  obtain ⟨part, rest, rfl, partLower, restLower⟩ := List.map_eq_append_iff.1 chars
  obtain ⟨before, rfl⟩ := within
  have source := source_typed written before part rest (scan_term_start _ written [] tried found) restLower.symm
  have denotes := reads_denotes term written reads fun n member => (proper n member).fits
  refine ⟨rest, restLower, ?_, dice_read_alone term proper _ denotes ?_⟩
  · rw [source, String.toList_ofList]
  · rw [source, String.toList_ofList]
    exact partLower

inductive OperandTyped (dice : WrittenTerm → Dice) : List Char → Scanned DiceRoll.Operand → Prop where
  | term (written : WrittenTerm) (problems : List Problem) (after : List Char)
      (alone : parseDice (dice written).source = .ok (dice written)) :
      OperandTyped dice ((dice written).source.toList ++ after) ⟨.term written, problems, lowercase after⟩
  | constant (number : Numeral) (value : Positive) (problems : List Problem) (after : List Char)
      (word : value.value.toNat = number.value) :
      OperandTyped dice (number.digits ++ after) ⟨.constant value, problems, lowercase after⟩

theorem operand_typed (typed text : List Char) (within : text <:+ typed)
    (clear : (scanOperand (lowercase text)).problems = []) :
    OperandTyped (WrittenTerm.dice (lowercase typed) typed) text (scanOperand (lowercase text)) := by
  unfold scanOperand at clear ⊢
  cases scanned : scanTerm (lowercase text) with
  | found written problems tried =>
      simp only [scanned] at clear ⊢
      subst clear
      obtain ⟨after, afterLower, cut, alone⟩ := term_typed typed text tried written within scanned
      rw [cut, ← afterLower]
      exact .term written [] after alone
  | noBase problems rest =>
      simp only [scanned] at clear ⊢
      obtain ⟨number, proper, word, chars⟩ := required_found (lowercase text) clear
      obtain ⟨digits, after, rfl, digitsLower, afterLower⟩ := List.map_eq_append_iff.1 chars
      have digitsTyped := typed_digits digits number digitsLower
      have fits := number.word_to_nat proper.fits
      generalize Scanned.required scanNumber (lowercase (digits ++ after)) = scannedNumber at word afterLower ⊢
      obtain ⟨found, problems, rest⟩ := scannedNumber
      obtain ⟨value, rfl, same⟩ := Option.map_eq_some_iff.1 word
      subst digitsTyped afterLower
      exact .constant number value problems after (same ▸ fits)

def PartsTyped (dice : WrittenTerm → Dice) (parts : List DiceRoll.Part) (text : List Char) : Prop :=
  ∃ tail, TypedTerms (parts.filterMap (DiceRoll.Part.term? dice)) text tail ∧
    TypedConstant (WrittenExpression.adjustment parts) tail ∧
    ∀ term ∈ parts.filterMap (DiceRoll.Part.term? dice), parseDice term.dice.source = .ok term.dice

theorem adjustment_behind_term (sign : Sign) (start : List Char) (written : WrittenTerm) (parts : List DiceRoll.Part) :
    WrittenExpression.adjustment (⟨sign, start, .term written⟩ :: parts) = WrittenExpression.adjustment parts := by
  cases parts with
  | nil => rfl
  | cons part parts =>
      unfold WrittenExpression.adjustment
      rw [List.getLast?_cons_cons]

theorem misplaced_behind_term (sign : Sign) (start : List Char) (written : WrittenTerm) (parts : List DiceRoll.Part) :
    misplaced (⟨sign, start, .term written⟩ :: parts) = misplaced parts := by
  cases parts with
  | nil => rfl
  | cons part parts => rfl

theorem misplaced_behind_constant (sign : Sign) (start : List Char) (value : Positive) (parts : List DiceRoll.Part)
    (placed : misplaced (⟨sign, start, .constant value⟩ :: parts) = []) : parts = [] := by
  cases parts with
  | nil => rfl
  | cons part parts => cases placed

theorem parts_typed_term (dice : WrittenTerm → Dice) (before : Blanks) (sign : Sign) (between : Blanks)
    (start : List Char) (written : WrittenTerm) (parts : List DiceRoll.Part) (rest : List Char)
    (alone : parseDice (dice written).source = .ok (dice written)) (more : PartsTyped dice parts rest) :
    PartsTyped dice (⟨sign, start, .term written⟩ :: parts)
      (before.chars ++ sign.symbol :: (between.chars ++ ((dice written).source.toList ++ rest))) := by
  obtain ⟨tail, terms, constant, others⟩ := more
  rw [← adjustment_behind_term sign start written] at constant
  exact ⟨tail, .term before between ⟨sign, dice written⟩ _ rest tail terms, constant,
    List.forall_mem_cons.2 ⟨alone, others⟩⟩

theorem parts_typed_constant (dice : WrittenTerm → Dice) (before : Blanks) (sign : Sign) (between : Blanks)
    (start : List Char) (value : Positive) (number : Numeral) (after : Blanks)
    (word : value.value.toNat = number.value) :
    PartsTyped dice [⟨sign, start, .constant value⟩]
      (before.chars ++ sign.symbol :: (between.chars ++ (number.digits ++ after.chars))) := by
  refine ⟨_, .none _, .number before sign between number after _ ?_, List.forall_mem_nil _⟩
  have signed := signed_word_to_int sign value.value
  rw [word] at signed
  cases sign <;> exact signed

-- No part is scanned in a text that is read to its end, so that there are blanks only.
theorem only_blanks (text : List Char) (clear : (scanParts (lowercase text)).problems = [])
    (none : (scanParts (lowercase text)).value = []) (done : skipBlanks (scanParts (lowercase text)).rest = []) :
    text = (Blanks.taken (lowercase text)).chars := by
  obtain ⟨parts, _, reads, chars⟩ := parts_found (lowercase text) clear
  rw [none] at reads
  cases reads
  have written := blanks_found (lowercase text)
  rw [List.flatMap_nil, List.nil_append] at chars
  rw [← chars] at done
  rw [done, List.append_nil] at written
  exact typed_blanks text _ written

theorem parts_typed (typed lowered text : List Char) (within : text <:+ typed)
    (lower : lowercase text = lowered) (clear : (scanParts lowered).problems = [])
    (placed : misplaced (scanParts lowered).value = []) (done : skipBlanks (scanParts lowered).rest = []) :
    PartsTyped (WrittenTerm.dice (lowercase typed) typed) (scanParts lowered).value text := by
  induction lowered using scanParts.induct generalizing text with
  | case1 lowered none =>
      subst lower
      have value := congrArg Scanned.value (scan_parts_none (lowercase text) none)
      have blanks := only_blanks text clear value done
      rw [value]
      refine ⟨text, .none text, ?_, List.forall_mem_nil _⟩
      rw [blanks]
      exact .none _
  | case2 lowered sign rest found operand ih =>
      subst lower
      obtain ⟨first, second, behind, rfl, behindLower⟩ := typed_sign text rest sign found
      rw [scan_parts_some _ rest sign found] at clear placed done ⊢
      obtain ⟨operandClear, moreClear⟩ := List.append_eq_nil_iff.1 clear
      have behindWithin : behind <:+ first.chars ++ sign.symbol :: (second.chars ++ behind) :=
        ⟨first.chars ++ sign.symbol :: second.chars, by simp⟩
      have same : operand = scanOperand (lowercase behind) := congrArg scanOperand behindLower.symm
      rw [same] at ih
      rw [← behindLower] at operandClear moreClear placed done ⊢
      have typedHere := operand_typed typed behind (behindWithin.trans within) operandClear
      generalize scanOperand (lowercase behind) = scanned at *
      cases typedHere with
      | term written problems after alone =>
          simp only [misplaced_behind_term] at placed
          have afterWithin := (List.suffix_append _ after).trans (behindWithin.trans within)
          have more := ih after afterWithin rfl moreClear placed done
          exact parts_typed_term _ first sign second _ written _ after alone more
      | constant number value problems after word =>
          have last := misplaced_behind_constant _ _ _ _ placed
          have blanks := only_blanks after moreClear last done
          rw [last, blanks]
          exact parts_typed_constant _ first sign second _ value number _ word

theorem expression_typed (typed : List Char) (expr : DiceRoll.Expression)
    (read : readExpression (lowercase typed) typed = ⟨some expr, []⟩) :
    Typed expr typed ∧ ∀ term ∈ expr.terms, parseDice term.dice.source = .ok term.dice := by
  obtain ⟨before, text, whole, textLower⟩ := typed_skip typed
  have textWithin : text <:+ typed := whole ▸ List.suffix_append before.chars text
  rw [read_expression_eq, scanExpression, ← textLower] at read
  cases scanned : scanTerm (lowercase text) with
  | noBase problems rest =>
      simp only [scanned, Reading.stuck] at read
      cases read
  | found first problems tried =>
      simp only [scanned, leftover_rest, if_true] at read
      injection read with value clear
      simp only [List.append_eq_nil_iff] at clear
      obtain ⟨⟨⟨firstClear, partsClear⟩, leftover⟩, placed⟩ := clear
      subst firstClear
      obtain ⟨rest, restLower, cut, alone⟩ := term_typed typed text tried first textWithin scanned
      rw [← restLower] at partsClear leftover placed value
      have restWithin : rest <:+ typed := (cut ▸ List.suffix_append _ rest : rest <:+ text).trans textWithin
      obtain ⟨tail, terms, constant, others⟩ :=
        parts_typed typed _ rest restWithin rfl partsClear placed (leftover_clear _ leftover)
      cases value
      have woven := whole.trans (congrArg (before.chars ++ ·) cut)
      exact ⟨⟨before, rest, tail, woven, terms, constant⟩, List.forall_mem_cons.2 ⟨alone, others⟩⟩

theorem sources_as_typed (s : String) (expr : DiceRoll.Expression) (read : parse s = .ok expr) :
    Typed expr s.toList ∧ ∀ term ∈ expr.terms, parseDice term.dice.source = .ok term.dice :=
  expression_typed s.toList expr ((result_ok_iff _ _ _).1 read)

def mixedCase : DiceRoll.Expression :=
  ⟨⟨⟨.one, 6, 2, none, ⟨.middleHigh, 1⟩, none, 1⟩, "2D6Mh1"⟩,
    [⟨.minus, ⟨⟨.zero, 100, 1, none, ⟨.high, 1⟩, none, 3⟩, "z%X3"⟩⟩], 7⟩

theorem mixed_case_sources : parse " 2D6Mh1 -\tz%X3+ 7" = .ok mixedCase ∧ Typed mixedCase " 2D6Mh1 -\tz%X3+ 7".toList ∧
    ∀ term ∈ mixedCase.terms, parseDice term.dice.source = .ok term.dice := by
  have read : parse " 2D6Mh1 -\tz%X3+ 7" = .ok mixedCase := by decide +kernel
  exact ⟨read, sources_as_typed " 2D6Mh1 -\tz%X3+ 7" mixedCase read⟩

end DiceRoll.Notation
