import DiceRoll.Proofs.Notation.Tree

set_option autoImplicit false

namespace DiceRoll.Notation

-- The text is at its end, or goes on with one of these characters.
def Begins (starts text : List Char) : Prop :=
  ∀ c ∈ text.head?, c ∈ starts

def stops : List Char :=
  [' ', '\t', '\x0c', '+', '-']

def multiplyStarts : List Char :=
  '*' :: 'x' :: stops

def explosionStarts : List Char :=
  '!' :: multiplyStarts

def keepStarts : List Char :=
  'h' :: 'l' :: 'm' :: explosionStarts

def rerollStarts : List Char :=
  'r' :: keepStarts

def baseStarts : List Char :=
  ['d', 'z']

def NoDigits (starts : List Char) : Prop :=
  ∀ c ∈ starts, c.isDigit = false

theorem stops_no_digits : NoDigits stops := by
  simp [NoDigits, stops]

theorem multiply_no_digits : NoDigits multiplyStarts := by
  simpa [NoDigits, multiplyStarts] using stops_no_digits

theorem explosion_no_digits : NoDigits explosionStarts := by
  simpa [NoDigits, explosionStarts] using multiply_no_digits

theorem keep_no_digits : NoDigits keepStarts := by
  simpa [NoDigits, keepStarts] using explosion_no_digits

theorem reroll_no_digits : NoDigits rerollStarts := by
  simpa [NoDigits, rerollStarts] using keep_no_digits

theorem base_no_digits : NoDigits baseStarts := by
  simp [NoDigits, baseStarts]

theorem percent_no_digits : NoDigits ['%'] := by
  simp [NoDigits]

theorem begins_nil (starts : List Char) : Begins starts [] :=
  nofun

theorem begins_cons (starts text : List Char) (c : Char) (member : c ∈ starts) : Begins starts (c :: text) := by
  intro head same
  cases same
  exact member

theorem begins_head (starts text : List Char) (c : Char) (begins : Begins starts (c :: text)) : c ∈ starts :=
  begins c rfl

theorem not_begins (starts text : List Char) (c : Char) (absent : c ∉ starts) : ¬Begins starts (c :: text) :=
  fun begins => absent (begins_head starts text c begins)

theorem begins_weaken (starts more text : List Char) (within : starts ⊆ more) (begins : Begins starts text) :
    Begins more text :=
  fun c head => within (begins c head)

theorem begins_optional {α : Type} (starts more rest : List Char) (chars : α → List Char) (part : Option α)
    (first : ∀ a, Begins more (chars a ++ rest)) (within : starts ⊆ more) (begins : Begins starts rest) :
    Begins more (optionalChars chars part ++ rest) := by
  cases part with
  | none => exact begins_weaken starts more rest within begins
  | some a => exact first a

theorem begins_multiply (multiply : Option (Times × Numeral)) (rest : List Char) (begins : Begins stops rest) :
    Begins multiplyStarts (optionalChars Term.multiplyChars multiply ++ rest) := by
  apply begins_optional stops multiplyStarts rest _ multiply _ (by decide) begins
  intro ⟨times, number⟩
  cases times with
  | star => exact begins_cons _ _ '*' (by decide)
  | cross => exact begins_cons _ _ 'x' (by decide)

theorem begins_explosion (explosion : Option (Option Numeral)) (rest : List Char)
    (begins : Begins multiplyStarts rest) :
    Begins explosionStarts (optionalChars Term.explosionChars explosion ++ rest) :=
  begins_optional multiplyStarts explosionStarts rest _ explosion
    (fun _ => begins_cons _ _ '!' (by decide)) (by decide) begins

theorem begins_keep (keep : Option (KeepRule × Numeral)) (rest : List Char) (begins : Begins explosionStarts rest) :
    Begins keepStarts (optionalChars Term.keepChars keep ++ rest) := by
  apply begins_optional explosionStarts keepStarts rest _ keep _ (by decide) begins
  intro ⟨rule, number⟩
  cases rule with
  | high => exact begins_cons keepStarts _ 'h' (by decide)
  | low => exact begins_cons keepStarts _ 'l' (by decide)
  | middleHigh => exact begins_cons keepStarts _ 'm' (by decide)
  | middleLow => exact begins_cons keepStarts _ 'm' (by decide)

theorem begins_reroll (reroll : Option Numeral) (rest : List Char) (begins : Begins keepStarts rest) :
    Begins rerollStarts (optionalChars Term.rerollChars reroll ++ rest) :=
  begins_optional keepStarts rerollStarts rest _ reroll
    (fun _ => begins_cons _ _ 'r' (by decide)) (by decide) begins

theorem begins_base (base : Base) (rest : List Char) : Begins baseStarts (base.symbol :: rest) := by
  cases base with
  | zero => exact begins_cons _ _ 'z' (by decide)
  | one => exact begins_cons _ _ 'd' (by decide)

theorem run_taken (kind : Char → Bool) (run rest : List Char) (only : ∀ c ∈ run, kind c = true)
    (stop : ∀ c ∈ rest.head?, kind c = false) :
    (run ++ rest).takeWhile kind = run ∧ (run ++ rest).dropWhile kind = rest := by
  have ended : rest.takeWhile kind = [] ∧ rest.dropWhile kind = rest := by
    cases rest with
    | nil => exact ⟨rfl, rfl⟩
    | cons c rest => simp [stop c rfl]
  rw [List.takeWhile_append_of_pos only, List.dropWhile_append_of_pos only, ended.1, ended.2, List.append_nil]
  exact ⟨rfl, rfl⟩

theorem run_stops (kind : Char → Bool) (text : List Char) : ∀ c ∈ (text.dropWhile kind).head?, kind c = false := by
  intro c member
  have stops := List.head?_dropWhile_not kind text
  rw [Option.mem_def.1 member] at stops
  simpa using stops

theorem digits_taken (number : Numeral) (starts rest : List Char) (begins : Begins starts rest)
    (free : NoDigits starts) :
    (number.digits ++ rest).takeWhile Char.isDigit = number.digits ∧
      (number.digits ++ rest).dropWhile Char.isDigit = rest :=
  run_taken Char.isDigit number.digits rest number.only fun c head => free c (begins c head)

theorem digits_begin (number : Numeral) (starts rest : List Char) (free : NoDigits starts) :
    ¬Begins starts (number.digits ++ rest) := by
  intro begins
  cases digits : number.digits with
  | nil => exact number.present digits
  | cons c more =>
      rw [digits] at begins
      have digit := number.only c (by rw [digits]; exact List.mem_cons_self)
      rw [free c (begins_head _ _ _ begins)] at digit
      cases digit

def Visible (text : List Char) : Prop :=
  ∀ c ∈ text.head?, isBlank c = false

theorem visible_cons (c : Char) (text : List Char) (visible : isBlank c = false) : Visible (c :: text) := by
  intro head same
  cases same
  exact visible

theorem visible_begins (starts text : List Char) (free : ∀ c ∈ starts, isBlank c = false)
    (begins : Begins starts text) : Visible text :=
  fun c head => free c (begins c head)

theorem skip_blanks_visible (text : List Char) : Visible (skipBlanks text) :=
  run_stops isBlank text

theorem visible_skip (text : List Char) (visible : Visible text) : skipBlanks text = text := by
  cases text with
  | nil => rfl
  | cons c text => exact List.dropWhile_cons_of_neg (Bool.eq_false_iff.1 (visible c rfl))

theorem blanks_taken (blanks : Blanks) (rest : List Char) (visible : Visible rest) :
    (blanks.chars ++ rest).takeWhile isBlank = blanks.chars ∧ (blanks.chars ++ rest).dropWhile isBlank = rest :=
  run_taken isBlank blanks.chars rest blanks.only visible

theorem digit_visible (c : Char) (digit : c.isDigit = true) : isBlank c = false := by
  cases blank : isBlank c with
  | false => rfl
  | true =>
      simp only [isBlank, Bool.or_eq_true, beq_iff_eq] at blank
      rcases blank with (rfl | rfl) | rfl <;> cases digit

theorem numeral_visible (number : Numeral) (rest : List Char) : Visible (number.digits ++ rest) := by
  cases digits : number.digits with
  | nil => exact absurd digits number.present
  | cons c more =>
      exact visible_cons c (more ++ rest) (digit_visible c (number.only c (by rw [digits]; exact List.mem_cons_self)))

theorem count_visible (count : Option Numeral) (base : Base) (rest : List Char) :
    Visible (optionalChars Numeral.digits count ++ base.symbol :: rest) := by
  cases count with
  | none =>
      have free : ∀ c ∈ baseStarts, isBlank c = false := by simp [baseStarts, isBlank]
      exact visible_begins baseStarts _ free (begins_base base rest)
  | some number => exact numeral_visible number _

theorem term_visible (term : Term) (rest : List Char) : Visible (term.chars ++ rest) := by
  rw [Term.chars, List.append_assoc]
  exact count_visible term.count term.base _

theorem operand_visible (operand : Operand) (rest : List Char) : Visible (operand.chars ++ rest) := by
  cases operand with
  | term term => exact term_visible term rest
  | constant number => exact numeral_visible number rest

theorem sign_visible (sign : Sign) (rest : List Char) : Visible (sign.symbol :: rest) := by
  cases sign <;> exact visible_cons _ rest (by decide)

theorem begins_blanks (blanks : Blanks) (rest : List Char) (begins : Begins stops rest) :
    Begins stops (blanks.chars ++ rest) := by
  cases chars : blanks.chars with
  | nil => exact begins
  | cons c more =>
      have blank := blanks.only c (by rw [chars]; exact List.mem_cons_self)
      simp only [isBlank, Bool.or_eq_true, beq_iff_eq] at blank
      rcases blank with (rfl | rfl) | rfl <;> exact begins_cons _ _ _ (by decide)

theorem begins_parts (parts : List Part) (after : Blanks) :
    Begins stops (parts.flatMap Part.chars ++ after.chars) := by
  cases parts with
  | nil => simpa using begins_blanks after [] (begins_nil stops)
  | cons part parts =>
      rw [List.flatMap_cons, Part.chars, List.append_assoc, List.append_assoc]
      apply begins_blanks
      cases part.sign <;> exact begins_cons _ _ _ (by decide)

end DiceRoll.Notation
