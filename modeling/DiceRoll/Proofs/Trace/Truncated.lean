import DiceRoll.Proofs.Keep
import DiceRoll.Proofs.Trace.Groups

set_option autoImplicit false

namespace DiceRoll

namespace Event

theorem text_begins (event : Event) : ∃ digit rest, digit.isDigit = true ∧ event.text.toList = digit :: rest := by
  have word : (toString event.value).toList = Nat.toDigits 10 event.value.toNat := Nat.toList_repr
  cases digits : Nat.toDigits 10 event.value.toNat with
  | nil => exact absurd digits Nat.toDigits_ne_nil
  | cons digit rest =>
      have only : digit.isDigit = true := by
        apply Nat.isDigit_of_mem_toDigits (b := 10) (n := event.value.toNat) (by decide) (by decide)
        rw [digits]
        exact List.mem_cons_self
      refine ⟨digit, rest ++ event.kind.mark.toList, only, ?_⟩
      rw [text, String.toList_append, word, digits]
      rfl

end Event

namespace Trace

def moreText (count : Nat) : String :=
  toString count ++ " more..."

-- The entries of a list up to a limit: the first rolls, and how many others there are if there are any.
def entries (limit : Nat) (events : List Event) : List String :=
  (events.take limit).map Event.text ++ if limit < events.length then [moreText (events.length - limit)] else []

def Labelled (list : List Event → String) (groups : List (List Event)) (texts : List String) : Prop :=
  List.Forall₂ (fun group text => ∀ event ∈ group, text = event.dice.source ++ "[" ++ list group ++ "]") groups texts

theorem description_labelled (trace : Trace) (limit : Option Nat) :
    ∃ texts, Labelled (listText limit) trace.groups texts ∧ trace.description limit = " ".intercalate texts := by
  refine ⟨trace.groups.map (groupText limit), ?_, rfl⟩
  refine List.forall₂_map_right_iff.2 (List.forall₂_same.2 fun group member event inside => ?_)
  exact group_text limit event.dice group (trace.groups_present group member)
    fun other among => trace.groups_alike group member other among event inside

theorem list_text_fits (limit : Nat) (events : List Event) (fits : events.length ≤ limit) :
    listText (some limit) events = listText none events := by
  simp [listText, List.take_of_length_le fits]

theorem list_text_cut (limit : Nat) (events : List Event) (cut : limit < events.length) :
    listText (some limit) events = ", ".intercalate ((events.take limit).map Event.text) ++ ", " ++
      moreText (events.length - limit) := by
  have shown : (events.take limit).length = limit := List.length_take_of_le (Nat.le_of_lt cut)
  simp only [listText, Option.getD_some, shown, if_pos cut, moreText, String.append_assoc]

theorem list_text_entries (limit : Nat) (events : List Event) (shown : 0 < limit) :
    listText (some limit) events = ", ".intercalate (entries limit events) := by
  by_cases cut : limit < events.length
  · have some_ : (events.take limit).map Event.text ≠ [] := by
      apply List.ne_nil_of_length_pos
      rw [List.length_map, List.length_take]
      omega
    rw [list_text_cut limit events cut, entries, if_pos cut,
      String.intercalate_append_of_ne_nil some_ (List.cons_ne_nil _ _), String.intercalate_singleton]
  · have fits := Nat.le_of_not_lt cut
    rw [list_text_fits limit events fits, list_text_whole, entries, if_neg cut, List.take_of_length_le fits,
      List.append_nil]

theorem list_text_zero (events : List Event) (present : events ≠ []) :
    listText (some 0) events = ", " ++ moreText events.length := by
  rw [list_text_cut 0 events (List.length_pos_iff.2 present)]
  rfl

theorem intercalate_begins (between first : String) (others : List String) :
    first.toList <+: (between.intercalate (first :: others)).toList := by
  cases others with
  | nil => exact ⟨[], by simp⟩
  | cons other others =>
      rw [String.intercalate_cons_cons, String.append_assoc, String.toList_append]
      exact List.prefix_append _ _

theorem entries_no_separator (limit : Nat) (events : List Event) (shown : 0 < limit) (present : events ≠ []) :
    ¬ ", ".toList <+: (", ".intercalate (entries limit events)).toList := by
  obtain ⟨event, events, rfl⟩ := List.exists_cons_of_ne_nil present
  obtain ⟨limit, rfl⟩ := Nat.exists_eq_succ_of_ne_zero (Nat.ne_of_gt shown)
  obtain ⟨digit, rest, isDigit, text⟩ := event.text_begins
  obtain ⟨later, whole⟩ := intercalate_begins ", " event.text
    ((events.take limit).map Event.text ++
      if limit + 1 < (event :: events).length then [moreText ((event :: events).length - (limit + 1))] else [])
  rw [entries, List.take_succ_cons, List.map_cons, List.cons_append, ← whole, text]
  rintro ⟨others, separated⟩
  obtain ⟨rfl, _⟩ := List.cons.inj separated
  cases isDigit

theorem description_fits (trace : Trace) (limit : Nat) (fits : ∀ group ∈ trace.groups, group.length ≤ limit) :
    trace.description (some limit) = trace.description none := by
  have same : trace.groups.map (groupText (some limit)) = trace.groups.map (groupText none) := by
    refine List.map_congr_left fun group member => ?_
    cases group with
    | nil => rfl
    | cons event events => rw [groupText, groupText, list_text_fits limit _ (fits _ member)]
  rw [description, description, same]

-- With the limit zero, what tells how many rolls are left out stands behind a separator with nothing before it.
theorem description_cut (trace : Trace) (limit : Nat) :
    (∀ bound, ∃ texts, Labelled (listText bound) trace.groups texts ∧
        trace.description bound = " ".intercalate texts) ∧
      (∀ group ∈ trace.groups, listText none group = ", ".intercalate (group.map Event.text)) ∧
      (∀ group ∈ trace.groups, 0 < limit → listText (some limit) group = ", ".intercalate (entries limit group) ∧
        ¬ ", ".toList <+: (listText (some limit) group).toList) ∧
      (∀ group ∈ trace.groups, limit = 0 → listText (some limit) group = ", " ++ moreText group.length) ∧
      ((∀ group ∈ trace.groups, group.length ≤ limit) → trace.description (some limit) = trace.description none) := by
  refine ⟨trace.description_labelled, fun group _ => list_text_whole group, ?_, ?_, trace.description_fits limit⟩
  · intro group member shown
    have list := list_text_entries limit group shown
    refine ⟨list, ?_⟩
    rw [list]
    exact entries_no_separator limit group shown (trace.groups_present group member)
  · rintro group member rfl
    exact list_text_zero group (trace.groups_present group member)

end Trace

def threeDice : Dice :=
  ⟨⟨.one, 6, 3, none, ⟨.high, 3⟩, none, 1⟩, "3d6"⟩

-- With no roll in it, the list should only tell that there are three.
theorem three_dice_unlisted : ∃ after, threeDice.roll ⟨.values [1, 2, 3], Trace.empty⟩ = .ok 6 after ∧
    after.sink.description (some 0) = "3d6[, 3 more...]" ∧
    after.sink.groups.map (Trace.listText (some 0)) = [", 3 more..."] ∧
    after.sink.groups.map (fun group => ", ".intercalate (Trace.entries 0 group)) = ["3 more..."] :=
  ⟨_, by simp only [Dice.roll, Dice.rollUnchecked, sort_insertion]; rfl, by decide +kernel, by decide +kernel,
    by decide +kernel⟩

end DiceRoll
