import DiceRoll.Dice.Draft
import Mathlib.Data.Finset.Max
import Mathlib.Data.Fintype.Basic

set_option autoImplicit false

namespace DiceRoll

inductive Property where
  | source
  | base
  | sides
  | count
  | rerollUpTo
  | keep
  | explosion
  | multiply
deriving DecidableEq, Repr

abbrev Property.Value : Property → Type
  | source => String
  | base => Base
  | sides => UInt32
  | count => UInt32
  | rerollUpTo => UInt32
  | keep => Keep
  | explosion => Explosion
  | multiply => UInt32

namespace Setting

-- To explode at the number of sides and to explode at a threshold is said about one property.
def property : Setting → Property
  | .source _ => .source
  | .base _ => .base
  | .sides _ => .sides
  | .count _ => .count
  | .rerollUpTo _ => .rerollUpTo
  | .keep _ => .keep
  | .explode _ => .explosion
  | .multiply _ => .multiply

def value : (setting : Setting) → setting.property.Value
  | .source text => text
  | .base lowest => lowest
  | .sides number => number
  | .count number => number
  | .rerollUpTo low => low
  | .keep kept => kept
  | .explode explosion => explosion
  | .multiply factor => factor

def said (property : Property) (setting : Setting) : Option property.Value :=
  if same : setting.property = property then some (same ▸ setting.value) else none

theorem said_other (property : Property) (setting : Setting) (other : setting.property ≠ property) :
    setting.said property = none :=
  dif_neg other

theorem said_present (property : Property) (setting : Setting) (same : setting.property = property) :
    ∃ value, setting.said property = some value :=
  ⟨same ▸ setting.value, dif_pos same⟩

end Setting

def lastSaid (property : Property) (settings : List Setting) : Option property.Value :=
  (settings.filterMap (Setting.said property)).getLast?

theorem last_said_snoc (property : Property) (settings : List Setting) (setting : Setting) :
    lastSaid property (settings ++ [setting]) = (setting.said property).or (lastSaid property settings) := by
  cases said : setting.said property with
  | none => simp [lastSaid, said]
  | some value => simp [lastSaid, said]

namespace Draft

def ofValues (values : (property : Property) → Option property.Value) : Draft where
  source := values .source
  base := (values .base).getD .one
  sides := (values .sides).getD 20
  count := (values .count).getD 1
  rerollUpTo := values .rerollUpTo
  keep := values .keep
  explosion := values .explosion
  multiply := (values .multiply).getD 1

theorem set_values (values : (property : Property) → Option property.Value) (setting : Setting) :
    (ofValues values).set setting = ofValues fun property => (setting.said property).or (values property) := by
  cases setting <;> rfl

theorem of_settings_last (settings : List Setting) :
    ofSettings settings = ofValues fun property => lastSaid property settings := by
  induction settings using List.reverseRecOn with
  | nil => rfl
  | append_singleton settings setting ih =>
      have step : ofSettings (settings ++ [setting]) = (ofSettings settings).set setting := by
        simp [ofSettings]
      simp only [step, ih, set_values, last_said_snoc]

theorem build_cases (draft : Draft) :
    (draft.sides = 0 ∧ draft.build = .error .noSides) ∨
      (draft.sides ≠ 0 ∧ draft.count = 0 ∧ draft.build = .error .noDice) ∨
      ∃ (sides : 0 < draft.sides) (count : 0 < draft.count),
        draft.build = .ok ⟨draft.clauses sides count, draft.source.getD (draft.clauses sides count).text⟩ := by
  by_cases sides : 0 < draft.sides
  · by_cases count : 0 < draft.count
    · exact .inr (.inr ⟨sides, count, by simp [build, sides, count]⟩)
    · have noDice : draft.count = 0 := UInt32.le_zero_iff.1 (UInt32.not_lt.1 count)
      exact .inr (.inl ⟨UInt32.pos_iff_ne_zero.1 sides, noDice, by simp [build, sides, noDice]⟩)
  · have noSides : draft.sides = 0 := UInt32.le_zero_iff.1 (UInt32.not_lt.1 sides)
    exact .inl ⟨noSides, by simp [build, noSides]⟩

end Draft

structure LastAt (property : Property) (settings : List Setting) (i : Fin settings.length) : Prop where
  about : (settings.get i).property = property
  last : ∀ j, i < j → (settings.get j).property ≠ property

theorem last_exists (property : Property) (settings : List Setting) :
    (∃ i, LastAt property settings i) ∨ ∀ i, (settings.get i).property ≠ property := by
  by_cases absent : ∀ i, (settings.get i).property ≠ property
  · exact .inr absent
  · obtain ⟨first, about⟩ := not_forall_not.1 absent
    let places : Finset (Fin settings.length) := {i | (settings.get i).property = property}
    obtain ⟨i, member, greatest⟩ :=
      places.exists_max_image id ⟨first, Finset.mem_filter.2 ⟨Finset.mem_univ first, about⟩⟩
    refine .inl ⟨i, (Finset.mem_filter.1 member).2, fun j later same => ?_⟩
    exact Nat.not_le_of_lt later (greatest j (Finset.mem_filter.2 ⟨Finset.mem_univ j, same⟩))

theorem last_at_said (property : Property) (settings : List Setting) (i : Fin settings.length)
    (last : LastAt property settings i) : lastSaid property settings = (settings.get i).said property := by
  obtain ⟨value, said⟩ := (settings.get i).said_present property last.about
  have later : (settings.drop (i + 1)).filterMap (Setting.said property) = [] := by
    refine List.filterMap_eq_nil_iff.2 fun setting member => ?_
    obtain ⟨k, bound, rfl⟩ := List.mem_drop_iff_getElem.1 member
    exact Setting.said_other property _ (last.last ⟨i + 1 + k, by omega⟩ (by simp [Fin.lt_def]; omega))
  have split : settings.take i ++ settings.get i :: settings.drop (i + 1) = settings := by simp
  calc
    lastSaid property settings = lastSaid property (settings.take i ++ settings.get i :: settings.drop (i + 1)) := by
      rw [split]
    _ = (settings.get i).said property := by
      rw [lastSaid, List.filterMap_append, List.filterMap_cons_some said, later, List.getLast?_concat, said]

theorem none_said (property : Property) (settings : List Setting)
    (absent : ∀ i, (settings.get i).property ≠ property) : lastSaid property settings = none := by
  have unsaid : settings.filterMap (Setting.said property) = [] := by
    refine List.filterMap_eq_nil_iff.2 fun setting member => ?_
    obtain ⟨i, rfl⟩ := List.get_of_mem member
    exact Setting.said_other property _ (absent i)
  rw [lastSaid, unsaid, List.getLast?_nil]

-- The settings of one list stand in another at other places, but those about one property in the same order.
structure Rearranged (settings other : List Setting) (place : Fin settings.length ≃ Fin other.length) : Prop where
  same : ∀ i, other.get (place i) = settings.get i
  ordered : ∀ i j, i < j → (settings.get i).property = (settings.get j).property → place i < place j

section

variable (settings other : List Setting) (place : Fin settings.length ≃ Fin other.length)
  (rearranged : Rearranged settings other place) (property : Property)

include rearranged

theorem rearranged_last (i : Fin settings.length) (last : LastAt property settings i) :
    LastAt property other (place i) := by
  refine ⟨by rw [rearranged.same, last.about], fun j later same => ?_⟩
  obtain ⟨k, rfl⟩ := place.surjective j
  rw [rearranged.same] at same
  -- It was no later setting, and an earlier one has stayed before the last.
  obtain before | rfl | after := lt_trichotomy k i
  · exact lt_asymm later (rearranged.ordered k i before (same.trans last.about.symm))
  · exact lt_irrefl _ later
  · exact last.last k after same

theorem rearranged_said : lastSaid property other = lastSaid property settings := by
  obtain ⟨i, last⟩ | absent := last_exists property settings
  · rw [last_at_said property settings i last,
      last_at_said property other (place i) (rearranged_last settings other place rearranged property i last),
      rearranged.same]
  · rw [none_said property settings absent, none_said property other]
    intro j
    obtain ⟨i, rfl⟩ := place.surjective j
    rw [rearranged.same]
    exact absent i

end

def finalSides (settings : List Setting) : UInt32 :=
  (lastSaid .sides settings).getD 20

def finalCount (settings : List Setting) : UInt32 :=
  (lastSaid .count settings).getD 1

structure ToldBy (settings : List Setting) (dice : Dice) : Prop where
  base : dice.base = (lastSaid .base settings).getD .one
  sides : dice.sides.value = finalSides settings
  count : dice.count.value = finalCount settings
  reroll : dice.rerollUpTo = lastSaid .rerollUpTo settings
  keep : dice.keep = (lastSaid .keep settings).getD ⟨.high, finalCount settings⟩
  explosion : dice.explodeFrom =
    match lastSaid .explosion settings with
    | none => none
    | some .atSides => some (finalSides settings)
    | some (.at high) => some high
  multiply : dice.multiply = (lastSaid .multiply settings).getD 1
  source : dice.source = (lastSaid .source settings).getD dice.toClauses.text

theorem settings_cases (settings : List Setting) :
    (finalSides settings = 0 ∧ Dice.ofSettings settings = .error .noSides) ∨
      (finalSides settings ≠ 0 ∧ finalCount settings = 0 ∧ Dice.ofSettings settings = .error .noDice) ∨
      (finalSides settings ≠ 0 ∧ finalCount settings ≠ 0 ∧
        ∃ dice, Dice.ofSettings settings = .ok dice ∧ ToldBy settings dice) := by
  rw [Dice.ofSettings, Draft.of_settings_last]
  obtain fails | fails | ⟨sides, count, built⟩ :=
    (Draft.ofValues fun property => lastSaid property settings).build_cases
  · exact .inl fails
  · exact .inr (.inl fails)
  · refine .inr (.inr ⟨UInt32.pos_iff_ne_zero.1 sides, UInt32.pos_iff_ne_zero.1 count, _, built, ?_⟩)
    refine ⟨rfl, rfl, rfl, rfl, rfl, ?_, rfl, rfl⟩
    change (lastSaid .explosion settings).map (Explosion.threshold (finalSides settings)) = _
    obtain _ | _ | high := lastSaid .explosion settings
    · rfl
    · rfl
    · rfl

theorem same_last_build (settings other : List Setting)
    (same : ∀ property, lastSaid property other = lastSaid property settings) :
    Dice.ofSettings other = Dice.ofSettings settings := by
  rw [Dice.ofSettings, Dice.ofSettings, Draft.of_settings_last, Draft.of_settings_last, funext same]

-- What depends on another property is settled when the dice are built, whenever that one was set.
theorem last_settings_build (settings : List Setting) :
    (∀ other : List Setting, (∀ property, lastSaid property other = lastSaid property settings) →
        Dice.ofSettings other = Dice.ofSettings settings) ∧
      (∀ (other : List Setting) (place : Fin settings.length ≃ Fin other.length), Rearranged settings other place →
        Dice.ofSettings other = Dice.ofSettings settings) ∧
      ((∃ error, Dice.ofSettings settings = .error error) ↔ finalSides settings = 0 ∨ finalCount settings = 0) ∧
      (Dice.ofSettings settings = .error .noSides ↔ finalSides settings = 0) ∧
      ∀ dice, Dice.ofSettings settings = .ok dice → ToldBy settings dice := by
  refine ⟨same_last_build settings, fun other place rearranged =>
    same_last_build settings other (rearranged_said settings other place rearranged), ?_⟩
  obtain ⟨noSides, fails⟩ | ⟨sides, noDice, fails⟩ | ⟨sides, count, dice, built, told⟩ := settings_cases settings
  · simp [fails, noSides]
  · simp [fails, sides, noDice]
  · simp [built, sides, count, told]

theorem late_sides_build :
    Dice.ofSettings [.sides 6, .sides 8, .count 3, .explode .atSides] =
        Dice.ofSettings [.explode .atSides, .sides 6, .sides 8, .count 3] ∧
      Dice.ofSettings [.explode .atSides, .sides 6, .sides 8, .count 3] =
        .ok ⟨⟨.one, 8, 3, none, ⟨.high, 3⟩, some 8, 1⟩, "3d8!"⟩ := by
  refine ⟨(last_settings_build _).2.1 _ ⟨fun i => i + 3, fun i => i + 1, ?_, ?_⟩ ⟨?_, ?_⟩, rfl⟩
  all_goals decide

end DiceRoll
