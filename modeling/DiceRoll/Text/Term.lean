import DiceRoll.Dice.Draft
import DiceRoll.Text.Number
import DiceRoll.Text.Place

set_option autoImplicit false

namespace DiceRoll

-- Only the base is needed for there to be a term. What else is missing is noted, and counts as not said.
structure WrittenTerm where
  count : Option Positive
  base : Base
  sides : Option Positive
  rerollUpTo : Option Positive
  keep : Option (KeepRule × Positive)
  explosion : Option (Option Positive)
  multiply : Option Positive
  start : List Char
  stop : List Char
deriving DecidableEq, Repr

namespace WrittenTerm

def draft (term : WrittenTerm) : Draft where
  base := term.base
  sides := (term.sides.map Positive.value).getD 20
  count := (term.count.map Positive.value).getD 1
  rerollUpTo := term.rerollUpTo.map Positive.value
  keep := term.keep.map fun keep => ⟨keep.1, keep.2.value⟩
  explosion := term.explosion.map fun high =>
    match high with
    | none => .atSides
    | some high => .at high.value
  multiply := (term.multiply.map Positive.value).getD 1

theorem default_pos (number : Option Positive) (default : UInt32) (pos : 0 < default) :
    0 < (number.map Positive.value).getD default := by
  cases number with
  | none => exact pos
  | some number => exact number.pos

def clauses (term : WrittenTerm) : Clauses :=
  term.draft.clauses (default_pos term.sides 20 (by decide)) (default_pos term.count 1 (by decide))

-- The settings that are made for a term, in their order. A number of dice and a factor are always set.
def settings (term : WrittenTerm) (source : String) : List Setting :=
  let said : List (Option Setting) :=
    [term.sides.map fun sides => .sides sides.value, term.rerollUpTo.map fun low => .rerollUpTo low.value,
      term.keep.map fun keep => .keep ⟨keep.1, keep.2.value⟩,
      term.explosion.map fun high => .explode (high.elim .atSides fun high => .at high.value)]
  .source source :: .count ((term.count.map Positive.value).getD 1) :: .base term.base ::
    .multiply ((term.multiply.map Positive.value).getD 1) :: said.filterMap id

theorem settings_draft (term : WrittenTerm) (source : String) :
    Draft.ofSettings (term.settings source) = { term.draft with source := some source } := by
  obtain ⟨count, base, sides, reroll, keep, explosion, multiply, start, stop⟩ := term
  cases sides <;> cases reroll <;> cases keep <;> rcases explosion with _ | _ | _ <;> rfl

theorem settings_build (term : WrittenTerm) (source : String) :
    Dice.ofSettings (term.settings source) = .ok ⟨term.clauses, source⟩ := by
  rw [Dice.ofSettings, settings_draft]
  have sides : 0 < term.draft.sides := default_pos term.sides 20 (by decide)
  have count : 0 < term.draft.count := default_pos term.count 1 (by decide)
  rw [Draft.build, dif_pos sides, dif_pos count]
  rfl

-- What stands at the bytes of a term of `text` in the text as it was typed, or nothing if these are no characters
-- there.
def source (text typed : List Char) (term : WrittenTerm) : String :=
  String.ofList ((sliceBytes (byteOffset text term.start) (byteOffset text term.stop) typed).getD [])

def build (text typed : List Char) (term : WrittenTerm) : Except Problem Dice :=
  (Dice.ofSettings (term.settings (term.source text typed))).mapError fun error => ⟨.unbuilt error, term.start⟩

def dice (text typed : List Char) (term : WrittenTerm) : Dice where
  toClauses := term.clauses
  source := term.source text typed

theorem build_dice (text typed : List Char) (term : WrittenTerm) :
    term.build text typed = .ok (term.dice text typed) := by
  rw [build, settings_build]
  rfl

end WrittenTerm

def scanBase : List Char → Option (Base × List Char)
  | 'd' :: text => some (.one, text)
  | 'z' :: text => some (.zero, text)
  | _ => none

def scanSides : List Char → Option (Scanned Positive)
  | '%' :: text => some ⟨⟨100, by decide⟩, [], text⟩
  | text => scanNumber text

def scanReroll : List Char → Scanned (Option Positive)
  | 'r' :: text => .required scanNumber text
  | text => ⟨none, [], text⟩

def scanKeepRule : List Char → Option (KeepRule × List Char)
  | 'm' :: 'h' :: text => some (.middleHigh, text)
  | 'm' :: 'l' :: text => some (.middleLow, text)
  | 'h' :: text => some (.high, text)
  | 'l' :: text => some (.low, text)
  | _ => none

def scanKeep (text : List Char) : Scanned (Option (KeepRule × Positive)) :=
  match scanKeepRule text with
  | none => ⟨none, [], text⟩
  | some (rule, rest) => (Scanned.required scanNumber rest).map fun count => count.map fun count => (rule, count)

def scanExplosion : List Char → Scanned (Option (Option Positive))
  | '!' :: text => (Scanned.optional scanNumber text).map some
  | text => ⟨none, [], text⟩

def scanMultiply : List Char → Scanned (Option Positive)
  | '*' :: text => .required scanNumber text
  | 'x' :: text => .required scanNumber text
  | text => ⟨none, [], text⟩

-- What is left at the furthest character that was looked at. An `m` where a keep rule may stand has been taken for
-- its start, unless a number was missed there: then the `m` itself is what does not fit.
def lookedAt (noted : List Problem) (atKeep stop : List Char) : List Char :=
  match scanKeepRule atKeep, atKeep with
  | none, 'm' :: rest => if ⟨.unexpected, atKeep⟩ ∈ noted then stop else rest
  | _, _ => stop

inductive TermScan where
  | noBase (problems : List Problem) (rest : List Char)
  | found (term : WrittenTerm) (problems : List Problem) (tried : List Char)

def scanTerm (text : List Char) : TermScan :=
  let count := Scanned.optional scanNumber text
  match scanBase count.rest with
  | none => .noBase count.problems count.rest
  | some (base, rest) =>
      let sides := Scanned.required scanSides rest
      let reroll := scanReroll sides.rest
      let keep := scanKeep reroll.rest
      let explosion := scanExplosion keep.rest
      let multiply := scanMultiply explosion.rest
      .found
        { count := count.value
          base := base
          sides := sides.value
          rerollUpTo := reroll.value
          keep := keep.value
          explosion := explosion.value
          multiply := multiply.value
          start := text
          stop := multiply.rest }
        (count.problems ++ sides.problems ++ reroll.problems ++ keep.problems ++ explosion.problems ++
          multiply.problems)
        (lookedAt (sides.problems ++ reroll.problems) reroll.rest multiply.rest)

theorem scan_sides_number (text : List Char) (number : ¬∃ rest, text = '%' :: rest) :
    scanSides text = scanNumber text := by
  unfold scanSides
  split
  · exact absurd ⟨_, rfl⟩ number
  · rfl

theorem scan_base_suffix (text rest : List Char) (base : Base) (found : scanBase text = some (base, rest)) :
    rest <:+ text := by
  unfold scanBase at found
  split at found
  · cases found
    exact List.suffix_cons _ _
  · cases found
    exact List.suffix_cons _ _
  · contradiction

theorem scan_sides_suffix (text : List Char) (scanned : Scanned Positive)
    (found : scanSides text = some scanned) : scanned.rest <:+ text := by
  unfold scanSides at found
  split at found
  · cases found
    exact List.suffix_cons _ _
  · exact scan_number_suffix text scanned found

theorem required_number_suffix (c : Char) (text : List Char) :
    (Scanned.required scanNumber text).rest <:+ c :: text :=
  (Scanned.required_suffix scanNumber text (scan_number_suffix text)).trans (List.suffix_cons c text)

theorem scan_reroll_suffix (text : List Char) : (scanReroll text).rest <:+ text := by
  unfold scanReroll
  split
  · exact required_number_suffix _ _
  · exact List.suffix_refl text

theorem scan_keep_rule_suffix (text rest : List Char) (rule : KeepRule)
    (found : scanKeepRule text = some (rule, rest)) : rest <:+ text := by
  unfold scanKeepRule at found
  split at found
  · cases found
    exact (List.suffix_cons _ _).trans (List.suffix_cons _ _)
  · cases found
    exact (List.suffix_cons _ _).trans (List.suffix_cons _ _)
  · cases found
    exact List.suffix_cons _ _
  · cases found
    exact List.suffix_cons _ _
  · contradiction

theorem scan_keep_suffix (text : List Char) : (scanKeep text).rest <:+ text := by
  unfold scanKeep
  split
  · exact List.suffix_refl text
  · rename_i rule rest found
    exact (Scanned.required_suffix scanNumber rest (scan_number_suffix rest)).trans
      (scan_keep_rule_suffix text rest rule found)

theorem scan_explosion_suffix (text : List Char) : (scanExplosion text).rest <:+ text := by
  unfold scanExplosion
  split
  · exact (Scanned.optional_suffix scanNumber _ (scan_number_suffix _)).trans (List.suffix_cons _ _)
  · exact List.suffix_refl text

theorem scan_multiply_suffix (text : List Char) : (scanMultiply text).rest <:+ text := by
  unfold scanMultiply
  split
  · exact required_number_suffix _ _
  · exact required_number_suffix _ _
  · exact List.suffix_refl text

theorem scan_term_suffix (text : List Char) (term : WrittenTerm) (problems : List Problem)
    (tried : List Char) (found : scanTerm text = .found term problems tried) : term.stop <:+ text := by
  unfold scanTerm at found
  simp only at found
  split at found
  · contradiction
  · rename_i base rest atBase
    cases found
    have count := Scanned.optional_suffix scanNumber text (scan_number_suffix text)
    have sides := Scanned.required_suffix scanSides rest (scan_sides_suffix rest)
    exact (scan_multiply_suffix _).trans ((scan_explosion_suffix _).trans ((scan_keep_suffix _).trans
      ((scan_reroll_suffix _).trans (sides.trans ((scan_base_suffix _ rest base atBase).trans count)))))

end DiceRoll
