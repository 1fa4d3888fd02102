import DiceRoll.Proofs.Notation.Follow
import DiceRoll.Text.Parse

set_option autoImplicit false

namespace DiceRoll.Notation

def marks : List Char :=
  ['d', 'z', '%', 'r', 'h', 'l', 'm', '!', '*', 'x', '+', '-']

-- Terms are written with digits and marks, whole expressions with blanks as well.
def Marked (text : List Char) : Prop :=
  ∀ c ∈ text, c.isDigit = true ∨ c ∈ marks

def Spelled (text : List Char) : Prop :=
  ∀ c ∈ text, c.isDigit = true ∨ isBlank c = true ∨ c ∈ marks

theorem marked_append (a b : List Char) (first : Marked a) (second : Marked b) : Marked (a ++ b) :=
  List.forall_mem_append.2 ⟨first, second⟩

theorem marked_cons (c : Char) (text : List Char) (mark : c ∈ marks) (tail : Marked text) : Marked (c :: text) :=
  List.forall_mem_cons.2 ⟨.inr mark, tail⟩

theorem marked_spelled (text : List Char) (marked : Marked text) : Spelled text :=
  fun c member => (marked c member).imp_right .inr

theorem marked_visible (text : List Char) (marked : Marked text) : ∀ c ∈ text, isBlank c = false := by
  intro c member
  rcases marked c member with digit | mark
  · exact digit_visible c digit
  · simp only [marks, List.mem_cons, List.not_mem_nil, or_false] at mark
    rcases mark with rfl | rfl | rfl | rfl | rfl | rfl | rfl | rfl | rfl | rfl | rfl | rfl <;> rfl

theorem spelled_append (a b : List Char) (first : Spelled a) (second : Spelled b) : Spelled (a ++ b) :=
  List.forall_mem_append.2 ⟨first, second⟩

theorem spelled_cons (c : Char) (text : List Char) (mark : c ∈ marks) (tail : Spelled text) : Spelled (c :: text) :=
  List.forall_mem_cons.2 ⟨.inr (.inr mark), tail⟩

theorem digit_lower (c : Char) (digit : c.isDigit = true) : c.toLower = c := by
  simp only [Char.isDigit, Bool.and_eq_true, decide_eq_true_eq] at digit
  have notUpper : ¬('A'.val ≤ c.val ∧ c.val ≤ 'Z'.val) := by
    rintro ⟨upper, _⟩
    exact absurd (UInt32.le_trans upper digit.2) (by decide)
  exact dif_neg notUpper

theorem upper_lowered (c : Char) (upper : 'A'.val ≤ c.val ∧ c.val ≤ 'Z'.val) :
    c.val.toNat ≤ 90 ∧ c.toLower.val.toNat = c.val.toNat + 32 := by
  have most : c.val.toNat ≤ 90 := upper.2
  have letter : c.toLower.val.toNat = (c.val.toNat + 32) % 4294967296 := by
    have lowered : c.toLower = _ := dif_pos upper
    rw [lowered]
    exact UInt32.toNat_add _ _
  omega

theorem lowered_below (c : Char) (below : c.toLower.val.toNat < 97) : c.toLower = c := by
  refine dif_neg fun upper => ?_
  have least : 65 ≤ c.val.toNat := upper.1
  have letter := upper_lowered c upper
  omega

theorem lowered_digit (c : Char) (digit : c.toLower.isDigit = true) : c.toLower = c := by
  simp only [Char.isDigit, Bool.and_eq_true, decide_eq_true_eq] at digit
  exact lowered_below c (Nat.lt_of_le_of_lt (UInt32.le_iff_toNat_le.1 digit.2) (by decide))

theorem lowered_blank (c : Char) (blank : isBlank c.toLower = true) : c.toLower = c := by
  simp only [isBlank, Bool.or_eq_true, beq_iff_eq] at blank
  apply lowered_below
  rcases blank with (space | tab) | feed
  · rw [space]
    decide
  · rw [tab]
    decide
  · rw [feed]
    decide

theorem lowered_sign (c : Char) (sign : Sign) (lowered : c.toLower = sign.symbol) : c = sign.symbol := by
  have below : c.toLower.val.toNat < 97 := by
    rw [lowered]
    cases sign <;> decide
  rw [← lowered, lowered_below c below]

theorem is_digit_lower (c : Char) : c.toLower.isDigit = c.isDigit := by
  by_cases digit : c.isDigit = true
  · rw [digit_lower c digit]
  · by_cases lowered : c.toLower.isDigit = true
    · rw [lowered_digit c lowered]
    · rw [Bool.eq_false_iff.2 digit, Bool.eq_false_iff.2 lowered]

theorem blank_lower (c : Char) (blank : isBlank c = true) : c.toLower = c := by
  simp only [isBlank, Bool.or_eq_true, beq_iff_eq] at blank
  rcases blank with (rfl | rfl) | rfl <;> rfl

theorem is_blank_lower (c : Char) : isBlank c.toLower = isBlank c := by
  by_cases blank : isBlank c = true
  · rw [blank_lower c blank]
  · by_cases lowered : isBlank c.toLower = true
    · rw [lowered_blank c lowered]
    · rw [Bool.eq_false_iff.2 blank, Bool.eq_false_iff.2 lowered]

theorem mark_lower (c : Char) (mark : c ∈ marks) : c.toLower = c := by
  simp only [marks, List.mem_cons, List.not_mem_nil, or_false] at mark
  rcases mark with rfl | rfl | rfl | rfl | rfl | rfl | rfl | rfl | rfl | rfl | rfl | rfl <;> rfl

theorem spelled_lower (text : List Char) (spelled : Spelled text) : lowercase text = text := by
  have lower : ∀ c ∈ text, c.toLower = id c := by
    intro c member
    rcases spelled c member with digit | blank | mark
    · exact digit_lower c digit
    · exact blank_lower c blank
    · exact mark_lower c mark
  exact (List.map_congr_left lower).trans (List.map_id text)

theorem spelled_line (text : List Char) (spelled : Spelled text) : '\n' ∉ text := by
  intro member
  rcases spelled '\n' member with digit | blank | mark
  · cases digit
  · cases blank
  · exact absurd mark (by decide)

theorem marked_digits (number : Numeral) : Marked number.digits :=
  fun c member => .inl (number.only c member)

theorem marked_optional {α : Type} (chars : α → List Char) (part : Option α) (marked : ∀ a, Marked (chars a)) :
    Marked (optionalChars chars part) := by
  cases part with
  | none => exact List.forall_mem_nil _
  | some a => exact marked a

theorem marked_keep (keep : KeepRule × Numeral) : Marked (Term.keepChars keep) := by
  obtain ⟨rule, number⟩ := keep
  apply marked_append _ _ _ (marked_digits number)
  cases rule <;> simp [Marked, Term.ruleChars, marks]

theorem marked_multiply (multiply : Times × Numeral) : Marked (Term.multiplyChars multiply) := by
  have symbol : ∀ times : Times, times.symbol ∈ marks := by
    intro times
    cases times <;> decide
  exact marked_cons _ _ (symbol multiply.1) (marked_digits multiply.2)

theorem marked_term (term : Term) : Marked term.chars := by
  have sides : Marked term.sides.chars := by
    cases term.sides with
    | number n => exact marked_digits n
    | percent => exact marked_cons _ _ (by decide) (List.forall_mem_nil _)
  have base : term.base.symbol ∈ marks := by
    cases term.base <;> decide
  apply marked_append _ _ (marked_optional _ _ marked_digits)
  apply marked_cons _ _ base
  apply marked_append _ _ sides
  apply marked_append _ _ (marked_optional _ _ fun low => marked_cons _ _ (by decide) (marked_digits low))
  apply marked_append _ _ (marked_optional _ _ marked_keep)
  apply marked_append _ _
    (marked_optional _ _ fun high => marked_cons _ _ (by decide) (marked_optional _ high marked_digits))
  exact marked_optional _ _ marked_multiply

theorem spelled_blanks (blanks : Blanks) : Spelled blanks.chars :=
  fun c member => .inr (.inl (blanks.only c member))

theorem spelled_part (part : Part) : Spelled part.chars := by
  have sign : part.sign.symbol ∈ marks := by
    cases part.sign <;> decide
  have operand : Spelled part.operand.chars := by
    cases part.operand with
    | term term => exact marked_spelled _ (marked_term term)
    | constant number => exact marked_spelled _ (marked_digits number)
  apply spelled_append _ _ (spelled_blanks part.before)
  exact spelled_cons _ _ sign (spelled_append _ _ (spelled_blanks _) operand)

theorem spelled_chars (tree : Expression) : Spelled tree.chars := by
  apply spelled_append _ _ (spelled_blanks tree.before)
  apply spelled_append _ _ (marked_spelled _ (marked_term tree.first))
  apply spelled_append _ _ _ (spelled_blanks tree.after)
  intro c member
  obtain ⟨part, _, inside⟩ := List.mem_flatMap.1 member
  exact spelled_part part c inside

theorem lower_chars (tree : Expression) : lowercase tree.chars = tree.chars :=
  spelled_lower _ (spelled_chars tree)

end DiceRoll.Notation
