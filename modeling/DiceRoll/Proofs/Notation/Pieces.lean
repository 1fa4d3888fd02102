import DiceRoll.Proofs.Notation.Parts

set_option autoImplicit false

namespace DiceRoll.Notation

inductive Piece where
  | number (number : Numeral)
  | other (chars : List Char)
deriving DecidableEq, Repr

namespace Piece

def chars : Piece → List Char
  | number n => n.digits
  | other chars => chars

def number? : Piece → Option Numeral
  | number n => some n
  | other _ => none

end Piece

def piecesChars (pieces : List Piece) : List Char :=
  pieces.flatMap Piece.chars

def optionalPieces {α : Type} (pieces : α → List Piece) : Option α → List Piece
  | none => []
  | some a => pieces a

def Numeral.pieces (number : Numeral) : List Piece :=
  [.number number]

def Sides.pieces : Sides → List Piece
  | .number n => n.pieces
  | .percent => [.other ['%']]

namespace Term

def rerollPieces (low : Numeral) : List Piece :=
  .other ['r'] :: low.pieces

def keepPieces (keep : KeepRule × Numeral) : List Piece :=
  .other (ruleChars keep.1) :: keep.2.pieces

def explosionPieces (high : Option Numeral) : List Piece :=
  .other ['!'] :: optionalPieces Numeral.pieces high

def multiplyPieces (multiply : Times × Numeral) : List Piece :=
  .other [multiply.1.symbol] :: multiply.2.pieces

def pieces (term : Term) : List Piece :=
  optionalPieces Numeral.pieces term.count ++ .other [term.base.symbol] :: (term.sides.pieces ++
    (optionalPieces rerollPieces term.reroll ++ (optionalPieces keepPieces term.keep ++
      (optionalPieces explosionPieces term.explosion ++ optionalPieces multiplyPieces term.multiply))))

end Term

def Operand.pieces : Operand → List Piece
  | .term written => written.pieces
  | .constant number => number.pieces

def Part.pieces (part : Part) : List Piece :=
  .other part.before.chars :: .other [part.sign.symbol] :: .other part.between.chars :: part.operand.pieces

def partsPieces (parts : List Part) (after : Blanks) : List Piece :=
  parts.flatMap Part.pieces ++ [.other after.chars]

def Expression.pieces (tree : Expression) : List Piece :=
  .other tree.before.chars :: (tree.first.pieces ++ partsPieces tree.parts tree.after)

-- The numbers, each with how many characters stand before it.
def numberPlaces : Nat → List Piece → List (Nat × Numeral)
  | _, [] => []
  | before, .number n :: pieces => (before, n) :: numberPlaces (before + n.digits.length) pieces
  | before, .other chars :: pieces => numberPlaces (before + chars.length) pieces

def signPlaces : Nat → List Part → List (Nat × Sign)
  | _, [] => []
  | _, [_] => []
  | before, part :: next :: parts =>
      let stop := before + part.chars.length
      let others := signPlaces stop (next :: parts)
      if part.operand.isTerm then others else (stop + next.before.chars.length, next.sign) :: others

theorem number_place_least (before : Nat) (pieces : List Piece) :
    ∀ place ∈ numberPlaces before pieces, before ≤ place.1 := by
  induction pieces generalizing before with
  | nil => exact List.forall_mem_nil _
  | cons piece pieces ih =>
      cases piece with
      | number n =>
          refine List.forall_mem_cons.2 ⟨Nat.le_refl before, fun place member => ?_⟩
          exact Nat.le_trans (Nat.le_add_right before _) (ih _ place member)
      | other chars => exact fun place member => Nat.le_trans (Nat.le_add_right before _) (ih _ place member)

theorem number_places_ascending (before : Nat) (pieces : List Piece) :
    (numberPlaces before pieces).Pairwise fun a b => a.1 < b.1 := by
  induction pieces generalizing before with
  | nil => exact .nil
  | cons piece pieces ih =>
      cases piece with
      | other chars => exact ih _
      | number n =>
          refine .cons (fun place member => ?_) (ih _)
          have least := number_place_least _ pieces place member
          have pos := List.length_pos_iff.2 n.present
          omega

theorem number_places_numbers (before : Nat) (pieces : List Piece) :
    (numberPlaces before pieces).map Prod.snd = pieces.filterMap Piece.number? := by
  induction pieces generalizing before with
  | nil => rfl
  | cons piece pieces ih =>
      cases piece with
      | number n => exact congrArg (n :: ·) (ih _)
      | other chars => exact ih _

theorem optional_numbers {α : Type} (pieces : α → List Piece) (number : α → Option Numeral) (part : Option α)
    (same : ∀ a, (pieces a).filterMap Piece.number? = (number a).toList) :
    (optionalPieces pieces part).filterMap Piece.number? = (part.bind number).toList := by
  cases part with
  | none => rfl
  | some a => exact same a

theorem sides_numbers (sides : Sides) : sides.pieces.filterMap Piece.number? = sides.numbers := by
  cases sides <;> rfl

theorem term_numbers (term : Term) : term.pieces.filterMap Piece.number? = term.numbers := by
  have count := optional_numbers Numeral.pieces some term.count fun _ => rfl
  have reroll := optional_numbers Term.rerollPieces some term.reroll fun _ => rfl
  have keep := optional_numbers Term.keepPieces (some ∘ Prod.snd) term.keep fun _ => rfl
  have explosion := optional_numbers Term.explosionPieces id term.explosion fun high => by cases high <;> rfl
  have multiply := optional_numbers Term.multiplyPieces (some ∘ Prod.snd) term.multiply fun _ => rfl
  have base : Piece.number? (.other [term.base.symbol]) = none := rfl
  simp only [Term.pieces, Term.numbers, List.filterMap_append, List.filterMap_cons_none base, count, sides_numbers,
    reroll, keep, explosion, multiply, Option.map_eq_bind, Option.bind_fun_some, ← Option.bind_id_eq_join, List.append_assoc]

theorem part_numbers (part : Part) : part.pieces.filterMap Piece.number? = part.operand.numbers := by
  change part.operand.pieces.filterMap Piece.number? = _
  cases part.operand with
  | term written => exact term_numbers written
  | constant number => rfl

theorem expression_numbers (tree : Expression) : (numberPlaces 0 tree.pieces).map Prod.snd = tree.numbers := by
  have parts : (partsPieces tree.parts tree.after).filterMap Piece.number? =
      tree.parts.flatMap fun part => part.operand.numbers := by
    rw [partsPieces, List.filterMap_append, List.filterMap_flatMap]
    simp only [part_numbers]
    exact List.append_nil _
  have before : Piece.number? (.other tree.before.chars) = none := rfl
  rw [number_places_numbers, Expression.pieces, List.filterMap_cons_none before, List.filterMap_append, term_numbers,
    parts, Expression.numbers]

theorem sign_places_cons (before : Nat) (part next : Part) (parts : List Part) :
    signPlaces before (part :: next :: parts) =
      (if part.operand.isTerm then [] else [(before + part.chars.length + next.before.chars.length, next.sign)]) ++
        signPlaces (before + part.chars.length) (next :: parts) := by
  rw [signPlaces]
  split <;> rfl

theorem sign_inside (part : Part) : part.before.chars.length < part.chars.length := by
  rw [Part.chars, List.length_append, List.length_cons]
  omega

theorem sign_place_least (before : Nat) (part : Part) (parts : List Part) :
    ∀ place ∈ signPlaces before (part :: parts), before + part.chars.length ≤ place.1 := by
  induction parts generalizing before part with
  | nil => exact List.forall_mem_nil _
  | cons next parts ih =>
      rw [sign_places_cons]
      refine List.forall_mem_append.2 ⟨?_, fun place member => ?_⟩
      · split
        · exact List.forall_mem_nil _
        · exact List.forall_mem_singleton.2 (Nat.le_add_right _ _)
      · exact Nat.le_trans (Nat.le_add_right _ _) (ih _ next place member)

theorem sign_places_ascending (before : Nat) (parts : List Part) :
    (signPlaces before parts).Pairwise fun a b => a.1 < b.1 := by
  induction parts generalizing before with
  | nil => exact .nil
  | cons part parts ih =>
      cases parts with
      | nil => exact .nil
      | cons next parts =>
          rw [sign_places_cons]
          refine List.pairwise_append.2 ⟨?_, ih _, fun sign member place later => ?_⟩
          · split
            · exact .nil
            · exact List.pairwise_singleton _ _
          · have least := sign_place_least _ next parts place later
            have inside := sign_inside next
            split at member
            · cases member
            · cases List.mem_singleton.1 member
              simp only
              omega

def pieceProblems : List Piece → List Char → List Problem
  | [], _ => []
  | .number n :: pieces, rest => n.problems (piecesChars pieces ++ rest) ++ pieceProblems pieces rest
  | .other _ :: pieces, rest => pieceProblems pieces rest

theorem pieces_chars_append (a b : List Piece) : piecesChars (a ++ b) = piecesChars a ++ piecesChars b :=
  List.flatMap_append

theorem piece_problems_append (pieces more : List Piece) (rest : List Char) :
    pieceProblems (pieces ++ more) rest =
      pieceProblems pieces (piecesChars more ++ rest) ++ pieceProblems more rest := by
  induction pieces with
  | nil => rfl
  | cons piece pieces ih =>
      cases piece with
      | other chars => exact ih
      | number n =>
          rw [List.cons_append, pieceProblems, pieceProblems, ih]
          simp only [pieces_chars_append, List.append_assoc]

structure MadeOf (chars : List Char) (problems : List Char → List Problem) (pieces : List Piece) : Prop where
  chars : piecesChars pieces = chars
  problems : ∀ rest, pieceProblems pieces rest = problems rest

theorem made_of_other (chars : List Char) : MadeOf chars (fun _ => []) [.other chars] :=
  ⟨List.append_nil chars, fun _ => rfl⟩

theorem made_of_numeral (number : Numeral) : MadeOf number.digits number.problems number.pieces :=
  ⟨List.append_nil _, fun _ => List.append_nil _⟩

theorem made_of_append (first second : List Char) (problems more : List Char → List Problem) (a b : List Piece)
    (left : MadeOf first problems a) (right : MadeOf second more b) :
    MadeOf (first ++ second) (fun rest => problems (second ++ rest) ++ more rest) (a ++ b) where
  chars := by rw [pieces_chars_append, left.chars, right.chars]
  problems := fun rest => by rw [piece_problems_append, right.chars, left.problems, right.problems]

theorem made_of_cons (first second : List Char) (problems : List Char → List Problem) (pieces : List Piece)
    (behind : MadeOf second problems pieces) : MadeOf (first ++ second) problems (.other first :: pieces) :=
  made_of_append first second _ problems _ pieces (made_of_other first) behind

theorem made_of_optional {α : Type} (chars : α → List Char) (number : α → Option Numeral) (pieces : α → List Piece)
    (part : Option α) (made : ∀ a, MadeOf (chars a) (optionalProblems (number a)) (pieces a)) :
    MadeOf (optionalChars chars part) (optionalProblems (part.bind number)) (optionalPieces pieces part) := by
  cases part with
  | none => exact ⟨rfl, fun _ => rfl⟩
  | some a => exact made a

theorem made_of_numeral_or_none (number : Option Numeral) :
    MadeOf (optionalChars Numeral.digits number) (optionalProblems number) (optionalPieces Numeral.pieces number) := by
  cases number with
  | none => exact ⟨rfl, fun _ => rfl⟩
  | some number => exact made_of_numeral number

theorem made_of_sides (sides : Sides) : MadeOf sides.chars sides.problems sides.pieces := by
  cases sides with
  | number n => exact made_of_numeral n
  | percent => exact made_of_other ['%']

theorem made_of_term (term : Term) : MadeOf term.chars term.problems term.pieces := by
  have count := made_of_numeral_or_none term.count
  have reroll := made_of_optional Term.rerollChars some Term.rerollPieces term.reroll fun low =>
    made_of_cons ['r'] _ _ _ (made_of_numeral low)
  have keep := made_of_optional Term.keepChars (some ∘ Prod.snd) Term.keepPieces term.keep fun keep =>
    made_of_cons (Term.ruleChars keep.1) _ _ _ (made_of_numeral keep.2)
  have explosion := made_of_optional Term.explosionChars id Term.explosionPieces term.explosion fun high =>
    made_of_cons ['!'] _ _ _ (made_of_numeral_or_none high)
  have multiply := made_of_optional Term.multiplyChars (some ∘ Prod.snd) Term.multiplyPieces term.multiply
    fun multiply => made_of_cons [multiply.1.symbol] _ _ _ (made_of_numeral multiply.2)
  have behindKeep := made_of_append _ _ _ _ _ _ explosion multiply
  have behindReroll := made_of_append _ _ _ _ _ _ keep behindKeep
  have behindSides := made_of_append _ _ _ _ _ _ reroll behindReroll
  have behindBase := made_of_append _ _ _ _ _ _ (made_of_sides term.sides) behindSides
  have made := made_of_append _ _ _ _ _ _ count (made_of_cons [term.base.symbol] _ _ _ behindBase)
  refine ⟨made.chars, fun rest => (made.problems rest).trans ?_⟩
  simp only [Term.problems, Term.afterCount, Term.afterBase, Term.afterSides, Term.afterReroll, Term.afterKeep,
    Term.afterExplosion, Option.map_eq_bind, Option.bind_fun_some, ← Option.bind_id_eq_join, List.append_assoc,
    List.cons_append, List.nil_append]

theorem made_of_operand (operand : Operand) : MadeOf operand.chars operand.problems operand.pieces := by
  cases operand with
  | term written => exact made_of_term written
  | constant number => exact made_of_numeral number

theorem made_of_part (part : Part) : MadeOf part.chars part.operand.problems part.pieces :=
  made_of_cons _ _ _ _ (made_of_cons [_] _ _ _ (made_of_cons _ _ _ _ (made_of_operand part.operand)))

theorem parts_chars_append (part : Part) (parts : List Part) (after : Blanks) :
    partsChars (part :: parts) after = part.chars ++ partsChars parts after :=
  List.append_assoc _ _ _

theorem parts_pieces (parts : List Part) (after : Blanks) :
    piecesChars (partsPieces parts after) = partsChars parts after ∧
      pieceProblems (partsPieces parts after) [] = partsProblems parts after := by
  induction parts with
  | nil => exact ⟨List.append_nil _, rfl⟩
  | cons part parts ih =>
      have made := made_of_part part
      have split : partsPieces (part :: parts) after = part.pieces ++ partsPieces parts after :=
        List.append_assoc _ _ _
      constructor
      · rw [split, pieces_chars_append, made.chars, ih.1, parts_chars_append]
      · rw [split, piece_problems_append, made.problems, ih.1, ih.2, List.append_nil, partsProblems]

theorem expression_pieces (tree : Expression) :
    piecesChars tree.pieces = tree.chars ∧
      pieceProblems tree.pieces [] =
        tree.first.problems (partsChars tree.parts tree.after) ++ partsProblems tree.parts tree.after := by
  have first := made_of_term tree.first
  obtain ⟨chars, problems⟩ := parts_pieces tree.parts tree.after
  constructor
  · change _ ++ piecesChars (_ ++ _) = _
    rw [pieces_chars_append, first.chars, chars]
    rfl
  · change pieceProblems (_ ++ _) [] = _
    rw [piece_problems_append, first.problems, problems, chars, List.append_nil]

end DiceRoll.Notation
