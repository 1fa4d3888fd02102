import DiceRoll.Proofs.Notation.Derivation

set_option autoImplicit false

namespace DiceRoll.Notation

inductive ReadsOperand : Operand → DiceRoll.Operand → Prop where
  | term {term : Term} {written : WrittenTerm} (reads : Reads term written) : ReadsOperand (.term term) (.term written)
  | constant {number : Numeral} {value : Positive} (word : value.value = number.word) :
      ReadsOperand (.constant number) (.constant value)

structure ReadsPart (part : Part) (found : DiceRoll.Part) : Prop where
  sign : found.sign = part.sign
  operand : ReadsOperand part.operand found.operand

def Operand.problems (operand : Operand) (rest : List Char) : List Problem :=
  match operand with
  | .term written => written.problems rest
  | .constant number => number.problems rest

def partsChars (parts : List Part) (after : Blanks) : List Char :=
  parts.flatMap Part.chars ++ after.chars

def partsProblems : List Part → Blanks → List Problem
  | [], _ => []
  | part :: parts, after => part.operand.problems (partsChars parts after) ++ partsProblems parts after

-- The texts from the signs on.
def partStarts : List Part → Blanks → List (List Char)
  | [], _ => []
  | part :: parts, after =>
      (part.sign.symbol :: (part.between.chars ++ (part.operand.chars ++ partsChars parts after))) ::
        partStarts parts after

theorem parts_chars_cons (part : Part) (parts : List Part) (after : Blanks) :
    partsChars (part :: parts) after = part.before.chars ++ part.sign.symbol ::
      (part.between.chars ++ (part.operand.chars ++ partsChars parts after)) := by
  simp only [partsChars, List.flatMap_cons, Part.chars, List.append_assoc, List.cons_append]

theorem scan_no_base (text : List Char) (begins : Begins stops text) : scanBase text = none := by
  unfold scanBase
  split
  · exact absurd begins (not_begins stops _ 'd' (by decide))
  · exact absurd begins (not_begins stops _ 'z' (by decide))
  · rfl

theorem scan_operand_written (operand : Operand) (rest : List Char) (started : ∀ n ∈ operand.numbers, n.Started)
    (begins : Begins stops rest) :
    ∃ found, scanOperand (operand.chars ++ rest) = ⟨found, operand.problems rest, rest⟩ ∧
      ReadsOperand operand found := by
  cases operand with
  | term term =>
      obtain ⟨written, tried, scanned, reads, _, stop⟩ := scan_term_written term rest started begins
      refine ⟨.term written, ?_, .term reads⟩
      simp only [Operand.chars, scanOperand, scanned, stop, Operand.problems]
  | constant number =>
      have numberStarted := started number List.mem_cons_self
      obtain ⟨count, _, counted⟩ :=
        scan_optional (some number) stops rest (fun n same => Option.some.inj same ▸ numberStarted) begins
          stops_no_digits
      obtain ⟨value, word, scanned⟩ := scan_required number stops rest numberStarted begins stops_no_digits
      refine ⟨.constant value, ?_, .constant word⟩
      simp only [optionalChars] at counted
      simp only [Operand.chars, scanOperand, scanTerm, counted, scan_no_base rest begins, scanned]
      rfl

theorem scan_sign_symbol (sign : Sign) (rest : List Char) : scanSign (sign.symbol :: rest) = some (sign, rest) := by
  cases sign <;> rfl

theorem skip_blanks_written (blanks : Blanks) (rest : List Char) (visible : Visible rest) :
    skipBlanks (blanks.chars ++ rest) = rest :=
  (blanks_taken blanks rest visible).2

theorem skip_only_blanks (blanks : Blanks) : skipBlanks blanks.chars = [] := by
  simpa only [List.append_nil] using skip_blanks_written blanks [] nofun

theorem scan_parts_none (text : List Char) (none : scanSign (skipBlanks text) = none) :
    scanParts text = ⟨[], [], text⟩ := by
  rw [scanParts]
  split
  · rfl
  · rename_i found
    rw [none] at found
    cases found

theorem scan_parts_some (text rest : List Char) (sign : Sign) (some : scanSign (skipBlanks text) = some (sign, rest)) :
    scanParts text =
      ⟨⟨sign, skipBlanks text, (scanOperand (skipBlanks rest)).value⟩ ::
          (scanParts (scanOperand (skipBlanks rest)).rest).value,
        (scanOperand (skipBlanks rest)).problems ++ (scanParts (scanOperand (skipBlanks rest)).rest).problems,
        (scanParts (scanOperand (skipBlanks rest)).rest).rest⟩ := by
  rw [scanParts]
  split
  · rename_i found
    rw [some] at found
    cases found
  · rename_i found
    rw [some] at found
    cases found
    rfl

theorem scan_parts_written (parts : List Part) (after : Blanks)
    (started : ∀ part ∈ parts, ∀ n ∈ part.operand.numbers, n.Started) :
    ∃ found, scanParts (partsChars parts after) = ⟨found, partsProblems parts after, after.chars⟩ ∧
      List.Forall₂ ReadsPart parts found ∧ found.map DiceRoll.Part.start = partStarts parts after := by
  induction parts with
  | nil =>
      refine ⟨[], scan_parts_none after.chars ?_, .nil, rfl⟩
      rw [skip_only_blanks]
      rfl
  | cons part parts ih =>
      have more := ih fun part member => started part (List.mem_cons_of_mem _ member)
      obtain ⟨found, scanned, reads, starts⟩ := more
      obtain ⟨operand, atOperand, readsOperand⟩ := scan_operand_written part.operand (partsChars parts after)
        (started part List.mem_cons_self) (begins_parts parts after)
      have skipped := skip_blanks_written part.before _
        (sign_visible part.sign (part.between.chars ++ (part.operand.chars ++ partsChars parts after)))
      have behind := skip_blanks_written part.between _ (operand_visible part.operand (partsChars parts after))
      rw [parts_chars_cons, scan_parts_some _ (part.between.chars ++ (part.operand.chars ++ partsChars parts after))
        part.sign (by rw [skipped, scan_sign_symbol]), skipped, behind, atOperand, scanned, partsProblems]
      exact ⟨_, rfl, .cons ⟨rfl, readsOperand⟩ reads, congrArg (_ :: ·) starts⟩

theorem operand_found (text : List Char) (clear : (scanOperand text).problems = []) :
    ∃ operand : Operand, (∀ n ∈ operand.numbers, n.Proper) ∧ ReadsOperand operand (scanOperand text).value ∧
      text = operand.chars ++ (scanOperand text).rest := by
  unfold scanOperand at clear ⊢
  cases scanned : scanTerm text with
  | found written problems tried =>
      simp only [scanned] at clear
      subst clear
      obtain ⟨term, proper, reads, chars⟩ := term_found text tried written scanned
      exact ⟨.term term, proper, .term reads, chars⟩
  | noBase problems rest =>
      simp only [scanned] at clear
      obtain ⟨number, proper, word, chars⟩ := required_found text clear
      obtain ⟨value, found, same⟩ := Option.map_eq_some_iff.1 word
      refine ⟨.constant number, ?_, ?_, chars⟩
      · intro n member
        cases List.mem_singleton.1 member
        exact proper
      · simp only [Scanned.map, found]
        exact .constant same

theorem sign_found (text rest : List Char) (sign : Sign) (found : scanSign text = some (sign, rest)) :
    text = sign.symbol :: rest := by
  unfold scanSign at found
  split at found <;> cases found <;> rfl

def Blanks.taken (text : List Char) : Blanks :=
  ⟨text.takeWhile isBlank, fun c member => List.all_eq_true.1 List.all_takeWhile c member⟩

theorem blanks_found (text : List Char) : text = (Blanks.taken text).chars ++ skipBlanks text :=
  List.takeWhile_append_dropWhile.symm

theorem parts_found (text : List Char) (clear : (scanParts text).problems = []) :
    ∃ parts : List Part, (∀ part ∈ parts, ∀ n ∈ part.operand.numbers, n.Proper) ∧
      List.Forall₂ ReadsPart parts (scanParts text).value ∧
      text = parts.flatMap Part.chars ++ (scanParts text).rest := by
  induction text using scanParts.induct with
  | case1 text none =>
      rw [scan_parts_none text none]
      exact ⟨[], List.forall_mem_nil _, .nil, rfl⟩
  | case2 text sign rest found operand ih =>
      rw [scan_parts_some text rest sign found] at clear ⊢
      obtain ⟨operandClear, moreClear⟩ := List.append_eq_nil_iff.1 clear
      obtain ⟨tree, properOperand, readsOperand, operandChars⟩ := operand_found (skipBlanks rest) operandClear
      obtain ⟨parts, proper, reads, chars⟩ := ih moreClear
      refine ⟨⟨.taken text, sign, .taken rest, tree⟩ :: parts, ?_, .cons ⟨rfl, readsOperand⟩ reads, ?_⟩
      · intro part member
        cases member with
        | head => exact properOperand
        | tail _ member => exact proper part member
      · calc
          text = (Blanks.taken text).chars ++ skipBlanks text := blanks_found text
          _ = (Blanks.taken text).chars ++ sign.symbol :: rest := by rw [sign_found _ rest sign found]
          _ = (Blanks.taken text).chars ++ sign.symbol :: ((Blanks.taken rest).chars ++ skipBlanks rest) := by
            rw [← blanks_found rest]
          _ = (Blanks.taken text).chars ++ sign.symbol :: ((Blanks.taken rest).chars ++
              (tree.chars ++ (scanOperand (skipBlanks rest)).rest)) := by rw [← operandChars]
          _ = _ := by
            rw [List.flatMap_cons, Part.chars]
            simp only [List.append_assoc, List.cons_append]
            rw [← chars]

end DiceRoll.Notation
