import DiceRoll.Proofs.Reading.TermProgress

set_option autoImplicit false

namespace DiceRoll

-- What was read of an operand does not go on with the rest of the text, unless by a blank or a sign.
inductive Ended (rest : List Char) : Bool → ReadState → Prop where
  | term (state : ReadState) (waits : Waits .multiply rest state) : Ended rest false state
  | constant (digit : NoDigitAhead rest) (base : ∀ c ∈ rest.head?, isBase c = false) : Ended rest true (.number false)

-- Only a sign may go on here, and none behind a constant.
structure Paused (constant : Bool) (text : List Char) (state : ReadState) : Prop where
  complete : state.complete = true
  sign : ∀ c, isSign c = true → state.step (.char c) = if constant then none else some (.operand false)
  goes : ∀ symbol more next, Front text symbol more → state.step symbol = some next →
    ∃ c, symbol = .char c ∧ isSign c = true

theorem operand_blank (first : Bool) (c : Char) (blank : isBlank c = true) :
    (ReadState.operand first).step (.char c) = some (.operand first) :=
  if_pos blank

theorem operand_read (text : List Char) (visible : Notation.Visible text) :
    Reads (.operand false) text (scanOperand text).problems (scanOperand text).rest
      (Ended (scanOperand text).rest (scanOperand text).value.isConstant) := by
  have scan := term_reads false text
  rw [scanOperand]
  generalize scanTerm text = term at scan
  cases scan with
  | found term problems tried reads =>
      cases reads with
      | on last clean reach waits => exact .on last clean reach (.term last waits)
      | off place blames left => exact .off place blames left
  | noBase last clean reach ends base =>
      rw [Scanned.optional] at base
      rw [Scanned.required]
      cases found : scanNumber text with
      | none =>
          rw [found] at base
          exact .off text (blames_here _ text (operand_faulty false text visible (no_number text found) base))
            (List.suffix_refl text)
      | some scanned =>
          rw [found] at base
          obtain ⟨clean, reach, noDigit⟩ := number_read (.operand false) (.number false) text scanned
            (operand_first false) (number_more false) found
          exact .on (.number false) clean reach (.constant noDigit base)

theorem sign_visible (c : Char) (sign : isSign c = true) : isBlank c = false := by
  simp only [isSign, Bool.or_eq_true, beq_iff_eq] at sign
  rcases sign with rfl | rfl <;> rfl

theorem sign_no_digit (c : Char) (sign : isSign c = true) : c.isDigit = false := by
  simp only [isSign, Bool.or_eq_true, beq_iff_eq] at sign
  rcases sign with rfl | rfl <;> rfl

theorem between_blank (c : Char) (blank : isBlank c = true) : ReadState.between c = some .gap :=
  if_pos blank

theorem between_sign (c : Char) (sign : isSign c = true) : ReadState.between c = some (.operand false) := by
  rw [ReadState.between, sign_visible c sign, if_neg Bool.false_ne_true, if_pos sign]

theorem after_between (clause : Clause) (digits : MoreDigits) (c : Char) (plain : isBlank c = true ∨ isSign c = true) :
    (ReadState.after clause digits).step (.char c) = ReadState.between c := by
  have noDigit : c.isDigit = false := plain.elim (blank_no_digit c) (sign_no_digit c)
  have refused : digits.allows c = false := by
    cases digits with
    | none => rfl
    | first => rw [MoreDigits.allows, startsNumber, noDigit, Bool.false_and]
    | more => exact noDigit
  rw [step_plain clause digits c (marker_plain c (.inr plain)), refused]
  rfl

theorem paused_gap (text : List Char) (visible : Notation.Visible text) : Paused false text .gap where
  complete := rfl
  sign := between_sign
  goes := by
    intro symbol more next front steps
    cases symbol with
    | middleHigh => cases steps
    | middleLow => cases steps
    | char c =>
        rcases between_goes c next steps with blank | sign
        · rw [visible c (front_char text more c front)] at blank
          cases blank
        · exact ⟨c, rfl, sign⟩

theorem paused_tail (text : List Char) (visible : Notation.Visible text) : Paused true text .tail where
  complete := rfl
  sign := fun c sign => by
    rw [ReadState.step, sign_visible c sign]
    rfl
  goes := by
    intro symbol more next front steps
    cases symbol with
    | middleHigh => cases steps
    | middleLow => cases steps
    | char c =>
        rw [ReadState.step, visible c (front_char text more c front)] at steps
        cases steps

theorem ended_paused (constant : Bool) (rest : List Char) (state : ReadState) (ended : Ended rest constant state)
    (visible : Notation.Visible rest) : Paused constant rest state := by
  cases ended with
  | term state waits =>
      obtain ⟨clause, digits, rfl, _⟩ := waits.behind
      refine ⟨rfl, fun c sign => ?_, fun symbol more next front steps => ?_⟩
      · rw [after_between clause digits c (.inr sign)]
        exact between_sign c sign
      · rcases waits.goes symbol more next front steps with ⟨c, rfl, blank | sign⟩ | ⟨later, _, rank⟩
        · rw [visible c (front_char rest more c front)] at blank
          cases blank
        · exact ⟨c, rfl, sign⟩
        -- No clause comes after the whole term.
        · exact absurd rank (by cases later <;> decide)
  | constant digit base =>
      refine ⟨rfl, fun c sign => ?_, fun symbol more next front steps => ?_⟩
      · have noBase : isBase c = false := by
          simp only [isSign, Bool.or_eq_true, beq_iff_eq] at sign
          rcases sign with rfl | rfl <;> rfl
        simp [ReadState.step, sign_no_digit c sign, noBase, sign_visible c sign]
      · cases symbol with
        | middleHigh => cases steps
        | middleLow => cases steps
        | char c =>
            have head := front_char rest more c front
            simp [ReadState.step, digit c head, base c head, visible c head] at steps

theorem blanks_paused (constant : Bool) (rest : List Char) (state : ReadState) (ended : Ended rest constant state) :
    ∃ last, Reach state rest last (skipBlanks rest) ∧ Paused constant (skipBlanks rest) last := by
  have visible := Notation.skip_blanks_visible rest
  cases rest with
  | nil => exact ⟨state, .here state [], ended_paused constant [] state ended visible⟩
  | cons c rest =>
      by_cases blank : isBlank c = true
      · rw [skipBlanks, List.dropWhile_cons_of_pos blank] at visible ⊢
        cases ended with
        | term state waits =>
            obtain ⟨clause, digits, rfl, _⟩ := waits.behind
            have steps := (after_between clause digits c (.inl blank)).trans (between_blank c blank)
            have more := run_read isBlank .gap between_blank rest
            exact ⟨.gap, .next _ _ _ _ _ _ _ (.char c rest) steps more, paused_gap _ visible⟩
        | constant digit base =>
            have steps : (ReadState.number false).step (.char c) = some .tail := by
              simp [ReadState.step, digit c rfl, base c rfl, blank]
            have more := run_read isBlank .tail (fun c blank => if_pos blank) rest
            exact ⟨.tail, .next _ _ _ _ _ _ _ (.char c rest) steps more, paused_tail _ visible⟩
      · rw [skipBlanks, List.dropWhile_cons_of_neg blank] at visible ⊢
        exact ⟨state, .here state _, ended_paused constant _ state ended visible⟩

def tailProblems (constant : Bool) (text : List Char) : List Problem :=
  (scanParts text).problems ++ (scanLeftover (skipBlanks (scanParts text).rest)).problems ++
    ((if constant then signBehind (scanParts text).value else []) ++ misplaced (scanParts text).value)

theorem tail_inside (constant : Bool) (text : List Char) : Inside (tailProblems constant text) text := by
  obtain ⟨problems, starts, rest⟩ := parts_placed text text (List.suffix_refl text)
  have leftover := leftover_placed text _ ((skip_blanks_suffix (scanParts text).rest).trans rest)
  have sign : AllPlaced text (if constant then signBehind (scanParts text).value else []) := by
    split
    · cases parts : (scanParts text).value with
      | nil => exact all_placed_nil text
      | cons next parts => exact unexpected_placed text _ (starts next (parts ▸ List.mem_cons_self))
    · exact all_placed_nil text
  refine all_placed_inside text _ (all_placed_append text _ _ (all_placed_append text _ _ problems leftover) ?_)
  exact all_placed_append text _ _ sign (misplaced_placed text _ starts)

inductive Verdict (state : ReadState) (text : List Char) (problems : List Problem) : Prop where
  | fine (last : ReadState) (clean : Clean problems) (reach : Reach state text last [])
      (complete : last.complete = true) : Verdict state text problems
  | faulty (place : List Char) (blames : Blames state text problems place) : Verdict state text problems

theorem verdict_after (state middle : ReadState) (text between : List Char) (problems more : List Problem)
    (clean : Clean problems) (reach : Reach state text middle between) (verdict : Verdict middle between more) :
    Verdict state text (problems ++ more) := by
  cases verdict with
  | fine last cleanMore further complete =>
      exact .fine last (List.forall_mem_append.2 ⟨clean, cleanMore⟩) (reach_trans _ _ _ _ _ _ reach further) complete
  | faulty place blames => exact .faulty place (blames_after _ _ _ _ _ _ _ clean reach blames)

theorem verdict_reads (state : ReadState) (text rest : List Char) (problems more : List Problem)
    (fits : ReadState → Prop) (first : Reads state text problems rest fits) (inside : Inside more rest)
    (second : ∀ middle, fits middle → Verdict middle rest more) : Verdict state text (problems ++ more) := by
  cases first with
  | on middle clean reach good => exact verdict_after _ _ _ _ _ _ clean reach (second middle good)
  | off place blames left =>
      exact .faulty place (blames_then _ _ _ _ _ blames (inside_weaken more rest place inside left))

theorem sign_is_sign (sign : Sign) : isSign sign.symbol = true := by
  cases sign <;> rfl

theorem no_sign (text : List Char) (none : scanSign text = none) : ∀ c ∈ text.head?, isSign c = false := by
  intro c member
  cases text with
  | nil => cases member
  | cons first rest =>
      cases member
      by_cases sign : isSign c = true
      · simp only [isSign, Bool.or_eq_true, beq_iff_eq] at sign
        rcases sign with rfl | rfl <;> cases none
      · exact Bool.eq_false_iff.2 sign

theorem paused_faulty (constant : Bool) (text : List Char) (state : ReadState) (paused : Paused constant text state)
    (some : text ≠ []) (stuck : constant = true ∨ ∀ c ∈ text.head?, isSign c = false) : Faulty state text where
  early := fun empty => absurd empty some
  unfit := by
    intro symbol more front
    cases steps : state.step symbol with
    | none => rfl
    | some next =>
        obtain ⟨c, rfl, sign⟩ := paused.goes symbol more next front steps
        rcases stuck with rfl | noSign
        · rw [paused.sign c sign] at steps
          cases steps
        · rw [noSign c (front_char text more c front)] at sign
          cases sign

theorem tail_problems_sign (text rest : List Char) (sign : Sign)
    (found : scanSign (skipBlanks text) = some (sign, rest)) :
    tailProblems false text = (scanOperand (skipBlanks rest)).problems ++
      tailProblems (scanOperand (skipBlanks rest)).value.isConstant (scanOperand (skipBlanks rest)).rest := by
  simp only [tailProblems, Notation.scan_parts_some text rest sign found, misplaced_cons, Bool.false_eq_true, if_false,
    List.nil_append, List.append_assoc]

theorem constant_blamed (text rest : List Char) (sign : Sign) (state last : ReadState)
    (found : scanSign (skipBlanks text) = some (sign, rest)) (reach : Reach state text last (skipBlanks text))
    (paused : Paused true (skipBlanks text) last) : Blames state text (tailProblems true text) (skipBlanks text) := by
  have twice : skipBlanks (skipBlanks text) = skipBlanks text := Notation.visible_skip _ (Notation.skip_blanks_visible text)
  have same : scanParts text = scanParts (skipBlanks text) := by
    rw [Notation.scan_parts_some text rest sign found,
      Notation.scan_parts_some (skipBlanks text) rest sign (twice.symm ▸ found), twice]
  have inside := tail_inside true (skipBlanks text)
  rw [tailProblems, ← same, ← tailProblems] at inside
  refine ⟨⟨last, reach, ?_⟩, ?_, fun problem member _ => inside problem member⟩
  · rw [Notation.sign_found _ rest sign found] at paused ⊢
    exact paused_faulty true _ last paused nofun (.inl rfl)
  · rw [tailProblems, Notation.scan_parts_some text rest sign found]
    exact List.mem_append_right _ (List.mem_append_left _ (List.mem_singleton_self _))

theorem tail_verdict (text : List Char) (constant : Bool) (state : ReadState) (ended : Ended text constant state) :
    Verdict state text (tailProblems constant text) := by
  -- One part after the other, each from the state that the part before it has left.
  induction text using scanParts.induct generalizing constant state with
  | case1 text none =>
      obtain ⟨last, reach, paused⟩ := blanks_paused constant text state ended
      have problems : tailProblems constant text = (scanLeftover (skipBlanks text)).problems := by
        rw [tailProblems, Notation.scan_parts_none text none]
        simp [signBehind, misplaced]
      rw [problems]
      cases left : skipBlanks text with
      | nil =>
          rw [left] at reach
          exact .fine last (List.forall_mem_nil _) reach paused.complete
      | cons c rest =>
          rw [left] at reach paused none
          have faulty := paused_faulty constant (c :: rest) last paused (List.cons_ne_nil c rest)
            (.inr (no_sign _ none))
          exact .faulty (c :: rest) (blames_after state last text _ _ [] _ (List.forall_mem_nil _) reach
            (blames_here last (c :: rest) faulty))
  | case2 text sign rest found operand ih =>
      obtain ⟨last, reach, paused⟩ := blanks_paused constant text state ended
      cases constant with
      | true => exact .faulty (skipBlanks text) (constant_blamed text rest sign state last found reach paused)
      | false =>
          have steps := paused.sign sign.symbol (sign_is_sign sign)
          rw [Notation.sign_found _ rest sign found] at reach
          have blanks := run_read isBlank (.operand false) (operand_blank false) rest
          have onward : Reach last (sign.symbol :: rest) (.operand false) (skipBlanks rest) :=
            .next _ _ _ _ _ _ _ (.char sign.symbol rest) steps blanks
          rw [tail_problems_sign text rest sign found]
          have verdict := verdict_reads _ _ _ _ _ _ (operand_read (skipBlanks rest) (Notation.skip_blanks_visible rest))
            (tail_inside _ _) fun middle ended => ih _ middle ended
          exact verdict_after state (.operand false) text (skipBlanks rest) [] _ (List.forall_mem_nil _)
            (reach_trans _ _ _ _ _ _ reach onward) verdict

theorem count_faulty (text rest : List Char) (last : ReadState) (visible : Notation.Visible text)
    (ends : CountEnd true text rest last) (base : ∀ c ∈ rest.head?, isBase c = false) : Faulty last rest := by
  cases ends with
  | none number => exact operand_faulty true text visible number base
  | some _ digit => exact number_faulty rest digit base

theorem expression_verdict (text typed : List Char) :
    Verdict (.operand true) text (readExpression text typed).problems := by
  have scan := term_reads true (skipBlanks text)
  have blanks : Reach (.operand true) text (.operand true) (skipBlanks text) :=
    run_read isBlank (.operand true) (operand_blank true) text
  rw [read_expression_eq, scanExpression]
  generalize scanTerm (skipBlanks text) = term at scan
  cases scan with
  | noBase last clean reach ends base =>
      have faulty := count_faulty _ _ last (Notation.skip_blanks_visible text) ends base
      exact .faulty _ (blames_after _ last text _ _ _ _ clean (reach_trans _ _ _ _ _ _ blanks reach)
        (blames_here last _ faulty))
  | found first problems tried reads =>
      have verdict := verdict_reads _ _ _ _ _ _ reads (tail_inside false first.stop) fun middle waits =>
        tail_verdict first.stop false middle (.term middle waits)
      have whole := verdict_after _ _ text _ [] _ (List.forall_mem_nil _) blanks verdict
      simp only [Notation.leftover_rest, if_pos]
      simpa only [tailProblems, Bool.false_eq_true, if_false, List.nil_append, List.append_assoc] using whole

end DiceRoll
