import DiceRoll.Proofs.Notation.Grammar

set_option autoImplicit false

namespace DiceRoll

-- No digit stands right before this place of a text.
def Fresh (whole text : List Char) : Prop :=
  ∃ before, whole = before ++ text ∧ ∀ c ∈ before.getLast?, c.isDigit = false

structure LargeRun (text : List Char) (first : Char) (digits after : List Char) : Prop where
  split : text = first :: digits ++ after
  start : startsNumber first = true
  only : ∀ c ∈ digits, c.isDigit = true
  stops : ∀ c ∈ after.head?, c.isDigit = false
  large : maxWord < decimal (first :: digits)

structure Placed (whole : List Char) (problem : Problem) : Prop where
  inside : problem.rest <:+ whole
  large : problem.fault = .oversized →
    Fresh whole problem.rest ∧ ∃ first digits after, LargeRun problem.rest first digits after
  built : ∀ error, problem.fault ≠ .unbuilt error

def AllPlaced (whole : List Char) (problems : List Problem) : Prop :=
  ∀ problem ∈ problems, Placed whole problem

def Inside (problems : List Problem) (text : List Char) : Prop :=
  ∀ problem ∈ problems, problem.rest <:+ text

theorem inside_weaken (problems : List Problem) (text more : List Char) (inside : Inside problems text)
    (suffix : text <:+ more) : Inside problems more :=
  fun problem member => (inside problem member).trans suffix

theorem all_placed_inside (text : List Char) (problems : List Problem) (placed : AllPlaced text problems) :
    Inside problems text :=
  fun problem member => (placed problem member).inside

theorem all_placed_nil (whole : List Char) : AllPlaced whole [] :=
  List.forall_mem_nil _

theorem all_placed_append (whole : List Char) (problems more : List Problem) (first : AllPlaced whole problems)
    (second : AllPlaced whole more) : AllPlaced whole (problems ++ more) :=
  List.forall_mem_append.2 ⟨first, second⟩

theorem unexpected_placed (whole rest : List Char) (inside : rest <:+ whole) : AllPlaced whole [⟨.unexpected, rest⟩] :=
  List.forall_mem_singleton.2 ⟨inside, nofun, nofun⟩

theorem fresh_start (text : List Char) : Fresh text text :=
  ⟨[], rfl, nofun⟩

theorem fresh_suffix (whole text : List Char) (fresh : Fresh whole text) : text <:+ whole := by
  obtain ⟨before, split, _⟩ := fresh
  exact ⟨before, split.symm⟩

theorem fresh_after (whole text : List Char) (c : Char) (inside : c :: text <:+ whole) (other : c.isDigit = false) :
    Fresh whole text := by
  obtain ⟨before, split⟩ := inside
  refine ⟨before ++ [c], by rw [← split, List.append_assoc]; rfl, fun last member => ?_⟩
  rw [List.getLast?_concat] at member
  cases member
  exact other

theorem start_digit (c : Char) (start : startsNumber c = true) : c.isDigit = true := by
  simp only [startsNumber, Bool.and_eq_true] at start
  exact start.1

theorem blank_no_digit (c : Char) (blank : isBlank c = true) : c.isDigit = false := by
  by_cases digit : c.isDigit = true
  · rw [Notation.digit_visible c digit] at blank
    cases blank
  · exact Bool.eq_false_iff.2 digit

theorem fresh_blanks (whole text : List Char) (fresh : Fresh whole text) : Fresh whole (skipBlanks text) := by
  induction text with
  | nil => exact fresh
  | cons c text ih =>
      by_cases blank : isBlank c = true
      · rw [skipBlanks, List.dropWhile_cons_of_pos blank]
        exact ih (fresh_after whole text c (fresh_suffix whole _ fresh) (blank_no_digit c blank))
      · rw [skipBlanks, List.dropWhile_cons_of_neg blank]
        exact fresh

theorem large_run (c : Char) (text : List Char) (start : startsNumber c = true)
    (large : ¬decimal (c :: text.takeWhile Char.isDigit) ≤ maxWord) :
    LargeRun (c :: text) c (text.takeWhile Char.isDigit) (text.dropWhile Char.isDigit) where
  split := congrArg (c :: ·) List.takeWhile_append_dropWhile.symm
  start := start
  only := fun digit member => List.all_eq_true.1 List.all_takeWhile digit member
  stops := Notation.run_stops Char.isDigit text
  large := Nat.lt_of_not_le large

theorem number_placed (whole text : List Char) (scanned : Scanned Positive) (fresh : Fresh whole text)
    (found : scanNumber text = some scanned) : AllPlaced whole scanned.problems := by
  obtain ⟨c, more, start, rfl, rfl⟩ := scan_number_found text scanned found
  by_cases fits : decimal (c :: more.takeWhile Char.isDigit) ≤ maxWord
  · simp only [oversizedAt, if_pos fits]
    exact all_placed_nil whole
  · simp only [oversizedAt, if_neg fits]
    exact List.forall_mem_singleton.2
      ⟨fresh_suffix whole _ fresh, fun _ => ⟨fresh, _, _, _, large_run c more start fits⟩, fun _ same => by cases same⟩

theorem optional_placed (whole text : List Char) (fresh : Fresh whole text) :
    AllPlaced whole (Scanned.optional scanNumber text).problems := by
  rw [Scanned.optional]
  cases found : scanNumber text with
  | none => exact all_placed_nil whole
  | some scanned => exact number_placed whole text scanned fresh found

theorem required_placed (whole text : List Char) (fresh : Fresh whole text) :
    AllPlaced whole (Scanned.required scanNumber text).problems := by
  rw [Scanned.required]
  cases found : scanNumber text with
  | none => exact unexpected_placed whole text (fresh_suffix whole text fresh)
  | some scanned => exact number_placed whole text scanned fresh found

theorem sides_placed (whole text : List Char) (fresh : Fresh whole text) :
    AllPlaced whole (Scanned.required scanSides text).problems := by
  by_cases percent : ∃ rest, text = '%' :: rest
  · obtain ⟨rest, rfl⟩ := percent
    exact all_placed_nil whole
  · rw [Scanned.required, scan_sides_number text percent]
    exact required_placed whole text fresh

theorem reroll_placed (whole text : List Char) (inside : text <:+ whole) :
    AllPlaced whole (scanReroll text).problems := by
  unfold scanReroll
  split
  · rename_i rest
    exact required_placed whole rest (fresh_after whole rest 'r' inside rfl)
  · exact all_placed_nil whole

theorem rule_fresh (whole text rest : List Char) (rule : KeepRule) (inside : text <:+ whole)
    (found : scanKeepRule text = some (rule, rest)) : Fresh whole rest := by
  have chars := Notation.rule_found text rest rule found
  subst chars
  cases rule with
  | high => exact fresh_after whole rest 'h' inside rfl
  | low => exact fresh_after whole rest 'l' inside rfl
  | middleHigh => exact fresh_after whole rest 'h' ((List.suffix_cons 'm' _).trans inside) rfl
  | middleLow => exact fresh_after whole rest 'l' ((List.suffix_cons 'm' _).trans inside) rfl

theorem keep_placed (whole text : List Char) (inside : text <:+ whole) : AllPlaced whole (scanKeep text).problems := by
  rw [scanKeep]
  cases found : scanKeepRule text with
  | none => exact all_placed_nil whole
  | some pair => exact required_placed whole pair.2 (rule_fresh whole text pair.2 pair.1 inside found)

theorem explosion_placed (whole text : List Char) (inside : text <:+ whole) :
    AllPlaced whole (scanExplosion text).problems := by
  unfold scanExplosion
  split
  · rename_i rest
    exact optional_placed whole rest (fresh_after whole rest '!' inside rfl)
  · exact all_placed_nil whole

theorem multiply_placed (whole text : List Char) (inside : text <:+ whole) :
    AllPlaced whole (scanMultiply text).problems := by
  unfold scanMultiply
  split
  · rename_i rest
    exact required_placed whole rest (fresh_after whole rest '*' inside rfl)
  · rename_i rest
    exact required_placed whole rest (fresh_after whole rest 'x' inside rfl)
  · exact all_placed_nil whole

theorem looked_at_suffix (noted : List Problem) (whole atKeep stop : List Char) (keep : atKeep <:+ whole)
    (inside : stop <:+ whole) : lookedAt noted atKeep stop <:+ whole := by
  unfold lookedAt
  split
  · split
    · exact inside
    · exact (List.suffix_cons _ _).trans keep
  · exact inside

inductive TermPlaced (whole : List Char) : TermScan → Prop where
  | noBase (problems : List Problem) (rest : List Char) (placed : AllPlaced whole problems) (inside : rest <:+ whole) :
      TermPlaced whole (.noBase problems rest)
  | found (term : WrittenTerm) (problems : List Problem) (tried : List Char) (placed : AllPlaced whole problems)
      (inside : term.stop <:+ whole) (looked : tried <:+ whole) : TermPlaced whole (.found term problems tried)

theorem term_placed (whole text : List Char) (fresh : Fresh whole text) : TermPlaced whole (scanTerm text) := by
  have count := optional_placed whole text fresh
  have countInside := (Scanned.optional_suffix scanNumber text (scan_number_suffix text)).trans
    (fresh_suffix whole text fresh)
  simp only [scanTerm]
  cases found : scanBase (Scanned.optional scanNumber text).rest with
  | none => exact .noBase _ _ count countInside
  | some pair =>
      obtain ⟨base, rest⟩ := pair
      have chars := Notation.base_found _ rest base found
      rw [chars] at countInside
      have restFresh : Fresh whole rest := fresh_after whole rest base.symbol countInside (by cases base <;> rfl)
      have sides := (Scanned.required_suffix scanSides rest (scan_sides_suffix rest)).trans
        (fresh_suffix whole rest restFresh)
      have reroll := (scan_reroll_suffix _).trans sides
      have keep := (scan_keep_suffix _).trans reroll
      have explosion := (scan_explosion_suffix _).trans keep
      have multiply := (scan_multiply_suffix _).trans explosion
      refine .found _ _ _ ?_ multiply (looked_at_suffix _ whole _ _ reroll multiply)
      refine all_placed_append whole _ _ ?_ (multiply_placed whole _ explosion)
      refine all_placed_append whole _ _ ?_ (explosion_placed whole _ keep)
      refine all_placed_append whole _ _ ?_ (keep_placed whole _ reroll)
      refine all_placed_append whole _ _ ?_ (reroll_placed whole _ sides)
      exact all_placed_append whole _ _ count (sides_placed whole rest restFresh)

theorem operand_placed (whole text : List Char) (fresh : Fresh whole text) :
    AllPlaced whole (scanOperand text).problems := by
  have placed := term_placed whole text fresh
  rw [scanOperand]
  generalize scanTerm text = scan at placed
  cases placed with
  | noBase => exact required_placed whole text fresh
  | found term problems tried placed => exact placed

theorem parts_placed (whole text : List Char) (inside : text <:+ whole) :
    AllPlaced whole (scanParts text).problems ∧ (∀ part ∈ (scanParts text).value, part.start <:+ whole) ∧
      (scanParts text).rest <:+ whole := by
  induction text using scanParts.induct with
  | case1 text none =>
      rw [Notation.scan_parts_none text none]
      exact ⟨all_placed_nil whole, List.forall_mem_nil _, inside⟩
  | case2 text sign rest found operand ih =>
      have started := (skip_blanks_suffix text).trans inside
      rw [Notation.sign_found _ rest sign found] at started
      have fresh := fresh_blanks whole rest (fresh_after whole rest sign.symbol started (by cases sign <;> rfl))
      have behind := (scan_operand_suffix (skipBlanks rest)).trans (fresh_suffix whole _ fresh)
      obtain ⟨problems, starts, left⟩ := ih behind
      rw [Notation.scan_parts_some text rest sign found]
      exact ⟨all_placed_append whole _ _ (operand_placed whole _ fresh) problems,
        List.forall_mem_cons.2 ⟨(skip_blanks_suffix text).trans inside, starts⟩, left⟩

theorem misplaced_placed (whole : List Char) (parts : List Part) (inside : ∀ part ∈ parts, part.start <:+ whole) :
    AllPlaced whole (misplaced parts) := by
  induction parts using misplaced.induct with
  | case1 => exact all_placed_nil whole
  | case2 => exact all_placed_nil whole
  | case3 sign start value next parts ih =>
      have others := (List.forall_mem_cons.1 inside).2
      rw [misplaced]
      exact all_placed_append whole [_] _
        (unexpected_placed whole _ ((List.forall_mem_cons.1 others).1)) (ih others)
  | case4 part next parts other ih =>
      rw [misplaced]
      · exact ih (List.forall_mem_cons.1 inside).2
      · exact other

theorem leftover_placed (whole text : List Char) (inside : text <:+ whole) :
    AllPlaced whole (scanLeftover text).problems := by
  cases text with
  | nil => exact all_placed_nil whole
  | cons c text => exact unexpected_placed whole _ inside

theorem stuck_placed {α : Type} (whole : List Char) (problems : List Problem) (rest : List Char)
    (placed : AllPlaced whole problems) (inside : rest <:+ whole) :
    AllPlaced whole (Reading.stuck problems rest : Reading α).problems :=
  all_placed_append whole _ _ placed (unexpected_placed whole rest inside)

theorem number_read_placed (text : List Char) : AllPlaced text (readNumber text).problems := by
  rw [readNumber]
  cases found : scanNumber text with
  | none => exact stuck_placed text _ _ (all_placed_nil text) (List.suffix_refl text)
  | some number =>
      have placed := number_placed text text number (fresh_start text) found
      simp only
      split
      · exact placed
      · exact stuck_placed text _ _ placed (scan_number_suffix text number found)

theorem number_and_rest_placed (text : List Char) : AllPlaced text (readNumberAndRest text).problems := by
  rw [readNumberAndRest]
  cases found : scanNumber text with
  | none => exact stuck_placed text _ _ (all_placed_nil text) (List.suffix_refl text)
  | some number => exact number_placed text text number (fresh_start text) found

theorem term_read_placed (text typed : List Char) : AllPlaced text (readTerm text typed).problems := by
  have placed := term_placed text text (fresh_start text)
  rw [read_term_eq]
  generalize scanTerm text = scan at placed ⊢
  cases placed with
  | noBase problems rest placed inside => exact stuck_placed text problems rest placed inside
  | found term problems tried placed inside looked =>
      simp only
      split
      · exact placed
      · exact stuck_placed text problems tried placed looked

theorem term_and_rest_placed (text typed : List Char) : AllPlaced text (readTermAndRest text typed).problems := by
  have placed := term_placed text text (fresh_start text)
  rw [read_term_and_rest_eq]
  generalize scanTerm text = scan at placed ⊢
  cases placed with
  | noBase problems rest placed inside => exact stuck_placed text problems rest placed inside
  | found term problems tried placed inside looked => exact placed

theorem expression_read_placed (text typed : List Char) : AllPlaced text (readExpression text typed).problems := by
  have placed := term_placed text (skipBlanks text) (fresh_blanks text text (fresh_start text))
  rw [read_expression_eq, scanExpression]
  generalize scanTerm (skipBlanks text) = scan at placed ⊢
  cases placed with
  | noBase problems rest placed inside => exact stuck_placed text problems rest placed inside
  | found first problems tried placed inside looked =>
      obtain ⟨parts, starts, rest⟩ := parts_placed text first.stop inside
      have leftover := leftover_placed text _ ((skip_blanks_suffix (scanParts first.stop).rest).trans rest)
      simp only [Notation.leftover_rest, if_pos]
      refine all_placed_append text _ _ ?_ (misplaced_placed text _ starts)
      exact all_placed_append text _ _ (all_placed_append text _ _ placed parts) leftover

end DiceRoll
