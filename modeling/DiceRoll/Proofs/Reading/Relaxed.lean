import DiceRoll.Proofs.Notation.Canonical
import DiceRoll.Proofs.Notation.Pieces
import DiceRoll.Proofs.Reading.Located

set_option autoImplicit false

namespace DiceRoll.Notation

def oversizedErrors (s : String) (places : List (Nat × Numeral)) : List ParseError :=
  (places.filter fun place => maxWord < place.2.value).map fun place =>
    ⟨.invalid oversizedReason, 1, place.1 + 1, s⟩

def signErrors (s : String) (places : List (Nat × Sign)) : List ParseError :=
  places.map fun place => ⟨.unexpected place.2.symbol, 1, place.1 + 1, s⟩

def Expression.errors (tree : Expression) (s : String) : List ParseError :=
  oversizedErrors s (numberPlaces 0 tree.pieces) ++
    signErrors s (signPlaces (tree.before.chars.length + tree.first.chars.length) tree.parts)

-- In a text of one line, the column of a problem is counted by what stands in front of it, also in lower case.
theorem located_in_line (s : String) (fault : Fault) (front rest : List Char) (split : front ++ rest = lowercase s.toList)
    (line : '\n' ∉ lowercase s.toList) :
    ∃ before behind, lowercase behind = rest ∧
      Problem.locate s.toList ⟨fault, rest⟩ = ⟨(errorAt fault before behind).kind, 1, front.length + 1, s⟩ := by
  obtain ⟨before, behind, text, rfl, rfl⟩ := List.map_eq_append_iff.1 split.symm
  have unbroken : '\n' ∉ before := fun member =>
    line (split ▸ List.mem_append_left _ (List.mem_map_of_mem (f := Char.toLower) member))
  obtain ⟨first, column⟩ := first_line_place before unbroken
  have located := problem_at fault before behind
  have whole : String.ofList (before ++ behind) = s := by rw [← text, String.ofList_toList]
  refine ⟨before, behind, rfl, ?_⟩
  rw [text, List.length_map, ← column, ← first, ← whole]
  exact located

theorem oversized_located (s : String) (front rest : List Char) (split : front ++ rest = lowercase s.toList)
    (line : '\n' ∉ lowercase s.toList) :
    Problem.locate s.toList ⟨.oversized, rest⟩ = ⟨.invalid oversizedReason, 1, front.length + 1, s⟩ := by
  obtain ⟨before, behind, _, located⟩ := located_in_line s .oversized front rest split line
  exact located

theorem sign_located (s : String) (sign : Sign) (front rest : List Char)
    (split : front ++ sign.symbol :: rest = lowercase s.toList) (line : '\n' ∉ lowercase s.toList) :
    Problem.locate s.toList ⟨.unexpected, sign.symbol :: rest⟩ =
      ⟨.unexpected sign.symbol, 1, front.length + 1, s⟩ := by
  obtain ⟨before, behind, lower, located⟩ := located_in_line s .unexpected front (sign.symbol :: rest) split line
  obtain ⟨c, more, rfl, same, _⟩ := List.map_eq_cons_iff.1 lower
  rw [located, ← lowered_sign c sign same]
  rfl

theorem pieces_located (s : String) (pieces : List Piece) (front : List Char)
    (split : front ++ piecesChars pieces = lowercase s.toList) (line : '\n' ∉ lowercase s.toList) :
    (pieceProblems pieces []).map (Problem.locate s.toList) = oversizedErrors s (numberPlaces front.length pieces) := by
  -- The front takes in one piece after the other.
  induction pieces generalizing front with
  | nil => rfl
  | cons piece pieces ih =>
      have more := ih (front ++ piece.chars) ((List.append_assoc _ _ _).trans split)
      rw [List.length_append] at more
      cases piece with
      | other chars => exact more
      | number n =>
          rw [pieceProblems, List.map_append, List.append_nil, numberPlaces, Numeral.problems, oversizedAt]
          by_cases fits : n.value ≤ maxWord
          · rw [if_pos fits, oversizedErrors, List.filter_cons_of_neg (by simpa using fits)]
            exact more
          · have here := oversized_located s front (n.digits ++ piecesChars pieces) split line
            rw [if_neg fits, oversizedErrors, List.filter_cons_of_pos (by simpa using fits), List.map_cons,
              List.map_cons, List.map_nil, here]
            exact congrArg (_ :: ·) more

theorem signs_located (s : String) (parts : List Part) (after : Blanks) (found : List DiceRoll.Part)
    (reads : List.Forall₂ ReadsPart parts found) (starts : found.map DiceRoll.Part.start = partStarts parts after)
    (front : List Char) (split : front ++ partsChars parts after = lowercase s.toList)
    (line : '\n' ∉ lowercase s.toList) :
    (misplaced found).map (Problem.locate s.toList) = signErrors s (signPlaces front.length parts) := by
  induction reads generalizing front with
  | nil => rfl
  | @cons part found parts more read reads ih =>
      cases reads with
      | nil => rfl
      | @cons next foundNext parts more readNext reads =>
          obtain ⟨_, behind⟩ := List.cons.inj starts
          obtain ⟨start, _⟩ := List.cons.inj behind
          -- First the text is split behind the part, then before the next sign.
          rw [parts_chars_append, ← List.append_assoc] at split
          have others := ih behind (front ++ part.chars) split
          rw [parts_chars_cons, ← List.append_assoc] at split
          have here := sign_located s next.sign _ _ split line
          rw [List.length_append, List.length_append] at here
          rw [List.length_append] at others
          rw [misplaced_read part found foundNext _ read, sign_places_cons, List.map_append, others, start, signErrors,
            signErrors, List.map_append]
          split
          · rfl
          · rw [List.map_singleton, here]
            rfl

theorem errors_nodup {α : Type} (places : List (Nat × α)) (error : Nat × α → ParseError)
    (column : ∀ place, (error place).column = place.1 + 1) (ascending : places.Pairwise fun a b => a.1 < b.1) :
    (places.map error).Nodup := by
  refine List.pairwise_map.2 (ascending.imp fun {a b} before same => ?_)
  have columns := congrArg ParseError.column same
  rw [column, column] at columns
  omega

theorem tree_errors_nodup (tree : Expression) (s : String) : (tree.errors s).Nodup := by
  refine List.nodup_append.2 ⟨?_, ?_, ?_⟩
  · exact errors_nodup _ _ (fun _ => rfl) ((number_places_ascending 0 tree.pieces).filter _)
  · exact errors_nodup _ _ (fun _ => rfl) (sign_places_ascending _ tree.parts)
  · intro error oversized other sign same
    obtain ⟨number, _, rfl⟩ := List.mem_map.1 oversized
    obtain ⟨place, _, rfl⟩ := List.mem_map.1 sign
    cases same

theorem tree_problems (s : String) (tree : Expression) (started : ∀ n ∈ tree.numbers, n.Started)
    (chars : tree.chars = lowercase s.toList) :
    ∃ expr problems, readExpression (lowercase s.toList) s.toList = ⟨some expr, problems⟩ ∧
      problems.map (Problem.locate s.toList) = tree.errors s := by
  obtain ⟨first, found, _, reads, starts, read⟩ := tree_scanned tree s.toList started
  obtain ⟨pieces, problems⟩ := expression_pieces tree
  have line : '\n' ∉ lowercase s.toList := chars ▸ spelled_line tree.chars (spelled_chars tree)
  have split : (tree.before.chars ++ tree.first.chars) ++ partsChars tree.parts tree.after = lowercase s.toList :=
    (List.append_assoc _ _ _).trans chars
  have numbers := pieces_located s tree.pieces [] (pieces.trans chars) line
  have signs := signs_located s tree.parts tree.after found reads starts _ split line
  rw [List.length_append] at signs
  rw [chars] at read
  refine ⟨_, _, read, ?_⟩
  rw [← problems, List.map_append, numbers, signs]
  rfl

theorem relaxed_text_errors (s : String) (tree : Expression) (started : ∀ n ∈ tree.numbers, n.Started)
    (chars : tree.chars = lowercase s.toList) :
    (numberPlaces 0 tree.pieces).map Prod.snd = tree.numbers ∧
      ((∃ expr, parse s = .ok expr) ↔ tree.errors s = []) ∧
      (tree.errors s ≠ [] → parse s = .error (tree.errors s)) := by
  obtain ⟨expr, problems, read, located⟩ := tree_problems s tree started chars
  refine ⟨expression_numbers tree, ?_⟩
  rw [parse, read, ← located]
  cases problems with
  | nil => exact ⟨⟨fun _ => rfl, fun _ => ⟨expr, rfl⟩⟩, fun some => absurd rfl some⟩
  | cons problem problems =>
      have nodup := tree_errors_nodup tree s
      rw [← located] at nodup
      refine ⟨⟨?_, fun none => absurd none (List.cons_ne_nil _ _)⟩,
        fun _ => congrArg Except.error (erase_dups_self _ nodup)⟩
      rintro ⟨_, ok⟩
      cases ok

def plainTerm (count : Option Numeral) (sides : Nat) : Term :=
  ⟨count, .one, .number (.ofNat sides), none, none, none, none⟩

def relaxedTree : Expression where
  before := noBlanks
  first := plainTerm (some (.ofNat 4294967296)) 6
  parts :=
    [⟨oneBlank, .plus, oneBlank, .constant (.ofNat 5)⟩, ⟨oneBlank, .minus, oneBlank, .term (plainTerm none 4294967297)⟩,
      ⟨oneBlank, .minus, oneBlank, .constant (.ofNat 3)⟩, ⟨noBlanks, .plus, noBlanks, .constant (.ofNat 1)⟩]
  after := noBlanks

def relaxedText : String :=
  "4294967296D6 + 5 - d4294967297 - 3+1"

def relaxedErrors : List ParseError :=
  [⟨.invalid oversizedReason, 1, 1, relaxedText⟩, ⟨.invalid oversizedReason, 1, 21, relaxedText⟩,
    ⟨.unexpected '-', 1, 18, relaxedText⟩, ⟨.unexpected '+', 1, 35, relaxedText⟩]

theorem relaxed_text_rejected : (∀ n ∈ relaxedTree.numbers, n.Started) ∧
    relaxedTree.chars = lowercase relaxedText.toList ∧ parse relaxedText = .error relaxedErrors := by
  have numbers : relaxedTree.numbers = [4294967296, 6, 5, 4294967297, 3, 1].map Numeral.ofNat := rfl
  have started : ∀ n ∈ relaxedTree.numbers, n.Started := by
    rw [numbers]
    refine List.forall_mem_map.2 fun n member => started_of_nat n ?_
    revert n
    decide
  have chars : relaxedTree.chars = lowercase relaxedText.toList := rfl
  have errors : relaxedTree.errors relaxedText = relaxedErrors := rfl
  refine ⟨started, chars, ?_⟩
  rw [← errors]
  have some : relaxedTree.errors relaxedText ≠ [] := by
    rw [errors]
    exact List.cons_ne_nil _ _
  exact (relaxed_text_errors relaxedText relaxedTree started chars).2.2 some

end DiceRoll.Notation
