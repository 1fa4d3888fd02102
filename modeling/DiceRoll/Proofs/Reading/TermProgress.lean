import DiceRoll.Proofs.Reading.Progress

set_option autoImplicit false

namespace DiceRoll

theorem reroll_scan (text : List Char) : ClauseScan .reroll text (scanReroll text).problems (scanReroll text).rest := by
  unfold scanReroll
  split
  · rename_i rest
    exact .found (.char 'r') rest _ _ rfl (.char 'r' rest) (required_read .reroll rest nofun)
  · rename_i other
    refine .absent (clause_absent .reroll text nofun fun c member marks => ?_)
    obtain ⟨rest, rfl⟩ := List.head?_eq_some_iff.1 member
    have letter : c = 'r' := by simpa using marker_letter c .reroll marks
    exact other rest (congrArg (· :: rest) letter)

theorem rule_front (text rest : List Char) (rule : KeepRule) (found : scanKeepRule text = some (rule, rest)) :
    ∃ symbol, marker symbol = some .keep ∧ Front text symbol rest := by
  cases Notation.rule_found text rest rule found
  cases rule with
  | high => exact ⟨.char 'h', rfl, .char 'h' rest⟩
  | low => exact ⟨.char 'l', rfl, .char 'l' rest⟩
  | middleHigh => exact ⟨.middleHigh, rfl, .middleHigh rest⟩
  | middleLow => exact ⟨.middleLow, rfl, .middleLow rest⟩

theorem keep_scan (text : List Char) : ClauseScan .keep text (scanKeep text).problems (scanKeep text).rest := by
  rw [scanKeep]
  cases found : scanKeepRule text with
  | some pair =>
      obtain ⟨rule, rest⟩ := pair
      obtain ⟨symbol, marks, front⟩ := rule_front text rest rule found
      exact .found symbol rest _ _ marks front (required_read .keep rest fun sides => absurd sides (by decide))
  | none =>
      refine .absent fun symbol more front marks => ?_
      cases front with
      | middleHigh => cases found
      | middleLow => cases found
      | char c =>
          have letter : c = 'h' ∨ c = 'l' := by simpa using marker_letter c .keep marks
          rcases letter with rfl | rfl <;> cases found

theorem explosion_scan (text : List Char) :
    ClauseScan .explosion text (scanExplosion text).problems (scanExplosion text).rest := by
  unfold scanExplosion
  split
  · rename_i rest
    refine .found (.char '!') rest _ _ rfl (.char '!' rest) ?_
    simp only [Scanned.map, Scanned.optional, Clause.entered]
    cases found : scanNumber rest with
    | none =>
        exact .on (.after .explosion .first) (List.forall_mem_nil _) (.here _ rest)
          (after_waits .explosion .first rest (no_number rest found))
    | some scanned =>
        obtain ⟨clean, reach, noDigit⟩ := number_read (.after .explosion .first) (.after .explosion .more) rest scanned
          explosion_first (after_more .explosion) found
        exact .on (.after .explosion .more) clean reach (after_waits .explosion .more scanned.rest noDigit)
  · rename_i other
    refine .absent (clause_absent .explosion text (by decide) fun c member marks => ?_)
    obtain ⟨rest, rfl⟩ := List.head?_eq_some_iff.1 member
    have letter : c = '!' := by simpa using marker_letter c .explosion marks
    exact other rest (congrArg (· :: rest) letter)

theorem multiply_scan (text : List Char) :
    ClauseScan .multiply text (scanMultiply text).problems (scanMultiply text).rest := by
  unfold scanMultiply
  split
  · rename_i rest
    exact .found (.char '*') rest _ _ rfl (.char '*' rest) (required_read .multiply rest nofun)
  · rename_i rest
    exact .found (.char 'x') rest _ _ rfl (.char 'x' rest) (required_read .multiply rest nofun)
  · rename_i noStar noCross
    refine .absent (clause_absent .multiply text nofun fun c member marks => ?_)
    obtain ⟨rest, rfl⟩ := List.head?_eq_some_iff.1 member
    have letter : c = '*' ∨ c = 'x' := by simpa using marker_letter c .multiply marks
    rcases letter with star | cross
    · exact noStar rest (congrArg (· :: rest) star)
    · exact noCross rest (congrArg (· :: rest) cross)

inductive CountEnd (first : Bool) (text : List Char) : List Char → ReadState → Prop where
  | none (number : ∀ c ∈ text.head?, startsNumber c = false) : CountEnd first text text (.operand first)
  | some (rest : List Char) (digit : NoDigitAhead rest) : CountEnd first text rest (.number first)

theorem operand_first (first : Bool) (c : Char) (start : startsNumber c = true) :
    (ReadState.operand first).step (.char c) = some (.number first) := by
  rw [ReadState.step, Notation.digit_visible c (start_digit c start), if_neg Bool.false_ne_true, if_pos start]

theorem number_more (first : Bool) (c : Char) (digit : c.isDigit = true) :
    (ReadState.number first).step (.char c) = some (.number first) :=
  if_pos digit

theorem count_read (first : Bool) (text : List Char) :
    Clean (Scanned.optional scanNumber text).problems ∧
      ∃ last, Reach (.operand first) text last (Scanned.optional scanNumber text).rest ∧
        CountEnd first text (Scanned.optional scanNumber text).rest last := by
  rw [Scanned.optional]
  cases found : scanNumber text with
  | none => exact ⟨List.forall_mem_nil _, .operand first, .here _ text, .none (no_number text found)⟩
  | some scanned =>
      obtain ⟨clean, reach, noDigit⟩ := number_read (.operand first) (.number first) text scanned (operand_first first)
        (number_more first) found
      exact ⟨clean, .number first, reach, .some scanned.rest noDigit⟩

theorem base_step (first : Bool) (text rest : List Char) (last : ReadState) (base : Base)
    (ends : CountEnd first text rest last) : last.step (.char base.symbol) = some (.needs .sides) := by
  cases ends with
  | none => cases base <;> rfl
  | some => cases base <;> rfl

theorem base_absent (text : List Char) (none : scanBase text = none) : ∀ c ∈ text.head?, isBase c = false := by
  intro c member
  cases text with
  | nil => cases member
  | cons first rest =>
      cases member
      by_cases base : isBase c = true
      · simp only [isBase, Bool.or_eq_true, beq_iff_eq] at base
        rcases base with rfl | rfl <;> cases none
      · exact Bool.eq_false_iff.2 base

theorem operand_faulty (first : Bool) (text : List Char) (visible : Notation.Visible text)
    (number : ∀ c ∈ text.head?, startsNumber c = false) (base : ∀ c ∈ text.head?, isBase c = false) :
    Faulty (.operand first) text where
  early := fun _ => rfl
  unfit := by
    intro symbol more front
    cases symbol with
    | middleHigh => rfl
    | middleLow => rfl
    | char c =>
        have head := front_char text more c front
        simp [ReadState.step, visible c head, number c head, base c head]

theorem number_faulty (text : List Char) (digit : NoDigitAhead text) (base : ∀ c ∈ text.head?, isBase c = false) :
    Faulty (.number true) text where
  early := fun _ => rfl
  unfit := by
    intro symbol more front
    cases symbol with
    | middleHigh => rfl
    | middleLow => rfl
    | char c =>
        have head := front_char text more c front
        simp [ReadState.step, digit c head, base c head]

-- A scan for a term, begun where nothing but the term may come, or an operand in general.
inductive TermReads (first : Bool) (text : List Char) : TermScan → Prop where
  | noBase (last : ReadState) (clean : Clean (Scanned.optional scanNumber text).problems)
      (reach : Reach (.operand first) text last (Scanned.optional scanNumber text).rest)
      (ends : CountEnd first text (Scanned.optional scanNumber text).rest last)
      (base : ∀ c ∈ (Scanned.optional scanNumber text).rest.head?, isBase c = false) :
      TermReads first text
        (.noBase (Scanned.optional scanNumber text).problems (Scanned.optional scanNumber text).rest)
  | found (term : WrittenTerm) (problems : List Problem) (tried : List Char)
      (reads : Reads (.operand first) text problems term.stop (Waits .multiply term.stop)) :
      TermReads first text (.found term problems tried)

theorem term_reads (first : Bool) (text : List Char) : TermReads first text (scanTerm text) := by
  obtain ⟨clean, last, reach, ends⟩ := count_read first text
  rw [scanTerm]
  cases found : scanBase (Scanned.optional scanNumber text).rest with
  | none => exact .noBase last clean reach ends (base_absent _ found)
  | some pair =>
      obtain ⟨base, rest⟩ := pair
      refine .found _ _ _ ?_
      have chars := Notation.base_found _ rest base found
      rw [chars] at reach ends
      have steps := base_step first text _ last base ends
      have based : Reach (.operand first) text (.needs .sides) rest :=
        reach_trans _ _ _ _ _ _ reach
          (.next last _ _ (.char base.symbol) _ rest rest (.char _ rest) steps (.here _ rest))
      have sidesSuffix := Scanned.required_suffix scanSides rest (scan_sides_suffix rest)
      have sides : Reads (.operand first) text
          ((Scanned.optional scanNumber text).problems ++ (Scanned.required scanSides rest).problems)
          (Scanned.required scanSides rest).rest (Waits .sides (Scanned.required scanSides rest).rest) :=
        reads_then _ _ _ _ _ _ (fun state => state = .needs .sides) _ (.on (.needs .sides) clean based rfl)
          (all_placed_inside rest _ (sides_placed rest rest (fresh_start rest))) sidesSuffix
          fun middle same => same ▸ sides_read rest
      have reroll := clause_then _ _ _ _ _ _ .sides .reroll sides rfl (reroll_placed _ _ (List.suffix_refl _))
        (scan_reroll_suffix _) (reroll_scan _)
      have keep := clause_then _ _ _ _ _ _ .reroll .keep reroll rfl (keep_placed _ _ (List.suffix_refl _))
        (scan_keep_suffix _) (keep_scan _)
      have explosion := clause_then _ _ _ _ _ _ .keep .explosion keep rfl (explosion_placed _ _ (List.suffix_refl _))
        (scan_explosion_suffix _) (explosion_scan _)
      exact clause_then _ _ _ _ _ _ .explosion .multiply explosion rfl (multiply_placed _ _ (List.suffix_refl _))
        (scan_multiply_suffix _) (multiply_scan _)

end DiceRoll
