import DiceRoll.Proofs.Trace.Tally
import DiceRoll.Trace.Description
import Mathlib.Data.List.SplitBy

set_option autoImplicit false

namespace DiceRoll

theorem split_between_iff {α : Type} (r : α → α → Bool) (before : List α) (a b : α) (later : List α) :
    (∃ front back, (before ++ a :: b :: later).splitBy r = front ++ back ∧ front.flatten = before ++ [a]) ↔
      r a b = false := by
  have whole : before ++ a :: b :: later = (before ++ [a]) ++ b :: later := by simp
  constructor
  · rintro ⟨front, back, split, ends⟩
    have rest : back.flatten = b :: later := by
      have joined := List.flatten_splitBy r (before ++ a :: b :: later)
      rw [split, List.flatten_append, ends, whole] at joined
      exact List.append_cancel_left joined
    have frontFull : front ≠ [] := by
      rintro rfl
      simp at ends
    have backFull : back ≠ [] := by
      rintro rfl
      simp at rest
    have chain := List.isChain_getLast_head_splitBy r (before ++ a :: b :: later)
    rw [split, List.isChain_append] at chain
    obtain ⟨lastFull, firstFull, apart⟩ := chain.2.2 _ (List.getLast_mem_getLast? frontFull) _
      (List.head_mem_head? backFull)
    rw [List.getLast_getLast_eq_getLast_flatten, List.head_head_eq_head_flatten] at apart
    simpa only [ends, rest, List.getLast_append_singleton, List.head_cons] using apart
  · intro apart
    refine ⟨(before ++ [a]).splitBy r, (b :: later).splitBy r, ?_, List.flatten_splitBy r _⟩
    rw [whole]
    apply List.splitBy_append
    simpa using apart

namespace Trace

def EndsBehind (groups : List (List Event)) (events : List Event) : Prop :=
  ∃ front back, groups = front ++ back ∧ front.flatten = events

-- The groups of what was told: all rolls in order, and a new group exactly where the dice change or a term starts.
structure Grouped (notices : List Notice) (groups : List (List Event)) : Prop where
  all : groups.flatten = eventsTold notices
  present : ∀ group ∈ groups, group ≠ []
  alike : ∀ group ∈ groups, ∀ a ∈ group, ∀ b ∈ group, a.dice = b.dice
  apart : ∀ before a starts b later, notices = before ++ .rolled a :: (starts.map .started ++ .rolled b :: later) →
    (EndsBehind groups (eventsTold before ++ [a]) ↔ a.dice ≠ b.dice ∨ starts ≠ [])

def rollsText (dice : Dice) (events : List Event) : String :=
  dice.source ++ "[" ++ ", ".intercalate (events.map Event.text) ++ "]"

def GroupTexts (groups : List (List Event)) (texts : List String) : Prop :=
  List.Forall₂ (fun group text => ∀ event ∈ group, text = rollsText event.dice group) groups texts

def indexed (trace : Trace) : List (List (Event × Nat)) :=
  trace.events.toList.zipIdx.splitBy trace.together

theorem groups_indexed (trace : Trace) : trace.groups = trace.indexed.map fun group => group.map Prod.fst :=
  rfl

theorem groups_flatten (trace : Trace) : trace.groups.flatten = trace.events.toList := by
  rw [groups_indexed, ← List.map_flatten, indexed, List.flatten_splitBy, List.zipIdx_map_fst]

theorem groups_present (trace : Trace) (group : List Event) (member : group ∈ trace.groups) : group ≠ [] := by
  obtain ⟨pairs, inside, rfl⟩ := List.mem_map.1 member
  exact List.map_eq_nil_iff.not.2 (List.ne_nil_of_mem_splitBy inside)

theorem groups_alike (trace : Trace) (group : List Event) (member : group ∈ trace.groups) :
    ∀ a ∈ group, ∀ b ∈ group, a.dice = b.dice := by
  obtain ⟨pairs, inside, rfl⟩ := List.mem_map.1 member
  have neighbours : (pairs.map fun pair => pair.1.dice).IsChain (· = ·) := by
    refine (List.isChain_map _).2 ((List.isChain_of_mem_splitBy inside).imp fun a b together => ?_)
    rw [Trace.together, Bool.and_eq_true, beq_iff_eq] at together
    exact together.2
  have same := List.Pairwise.forall_of_forall (fun _ _ => rfl) neighbours.pairwise
  intro a first b second
  obtain ⟨x, here, rfl⟩ := List.mem_map.1 first
  obtain ⟨y, there, rfl⟩ := List.mem_map.1 second
  exact same (List.mem_map_of_mem here) (List.mem_map_of_mem there)

theorem events_told_started (starts : List Sign) : eventsTold (starts.map .started) = [] := by
  induction starts with
  | nil => rfl
  | cons sign starts ih => exact ih

theorem starts_told_started (index : Nat) (starts : List Sign) (later : List Notice) :
    startsTold index (starts.map .started ++ later) = starts.map (⟨·, index⟩) ++ startsTold index later := by
  induction starts with
  | nil => rfl
  | cons sign starts ih => exact congrArg (List.cons ⟨sign, index⟩) ih

theorem starts_at_told (notices : List Notice) (index : Nat) :
    (notifyAll empty notices).startsAt index = (startsTold 0 notices).any fun start => start.index == index := by
  rw [notified, startsAt]
  simp [empty]

theorem starts_between (before : List Notice) (a : Event) (starts : List Sign) (b : Event) (later : List Notice) :
    (notifyAll empty (before ++ .rolled a :: (starts.map .started ++ .rolled b :: later))).startsAt
      ((eventsTold before).length + 1) = true ↔ starts ≠ [] := by
  rw [starts_at_told, starts_told_append, Nat.zero_add, startsTold, starts_told_started, startsTold, List.any_eq_true]
  constructor
  · rintro ⟨start, member, here⟩ rfl
    have index := eq_of_beq here
    rcases List.mem_append.1 member with early | late
    · have until_ := starts_told_until 0 before start early
      omega
    · have from_ := starts_told_later _ later start late
      omega
  · intro started
    obtain ⟨sign, others, rfl⟩ := List.exists_cons_of_ne_nil started
    exact ⟨⟨sign, (eventsTold before).length + 1⟩, by simp, beq_self_eq_true _⟩

theorem ends_behind_iff (trace : Trace) (before : List Event) (a b : Event) (later : List Event)
    (events : trace.events.toList = before ++ a :: b :: later) :
    EndsBehind trace.groups (before ++ [a]) ↔ trace.together (a, before.length) (b, before.length + 1) = false := by
  have pairs : trace.events.toList.zipIdx = before.zipIdx ++ (a, before.length) :: (b, before.length + 1) ::
      later.zipIdx (before.length + 2) := by
    rw [events, List.zipIdx_append, Nat.zero_add, List.zipIdx_cons, List.zipIdx_cons]
  rw [← split_between_iff trace.together before.zipIdx (a, before.length) (b, before.length + 1)
    (later.zipIdx (before.length + 2)), ← pairs]
  -- Groups that hold the same rolls hold them with the same indices, as there are as many of them.
  constructor
  · rintro ⟨front, back, split, ends⟩
    obtain ⟨first, last, cut, rfl, rfl⟩ := List.map_eq_append_iff.1 split
    refine ⟨first, last, cut, ?_⟩
    have joined : first.flatten ++ last.flatten = (before.zipIdx ++ [(a, before.length)]) ++
        (b, before.length + 1) :: later.zipIdx (before.length + 2) := by
      rw [← List.flatten_append, ← cut, List.flatten_splitBy, pairs, List.append_assoc]
      rfl
    have length : first.flatten.length = (before.zipIdx ++ [(a, before.length)]).length := by
      rw [← List.length_map Prod.fst, List.map_flatten, ends, List.length_append, List.length_append,
        List.length_zipIdx]
      rfl
    exact (List.append_inj joined length).1
  · rintro ⟨first, last, cut, ends⟩
    refine ⟨first.map (List.map Prod.fst), last.map (List.map Prod.fst), ?_, ?_⟩
    · rw [groups_indexed, indexed, cut, List.map_append]
    · rw [← List.map_flatten, ends, List.map_append, List.zipIdx_map_fst, List.map_singleton]

theorem told_grouped (notices : List Notice) : Grouped notices (notifyAll empty notices).groups where
  all := by rw [groups_flatten, told_events]
  present := groups_present _
  alike := groups_alike _
  apart := by
    rintro before a starts b later rfl
    have events : eventsTold (before ++ .rolled a :: (starts.map .started ++ .rolled b :: later)) =
        eventsTold before ++ a :: b :: eventsTold later := by
      rw [events_told_append, eventsTold, events_told_append, events_told_started, List.nil_append, eventsTold]
    rw [ends_behind_iff _ (eventsTold before) a b (eventsTold later) ((told_events _).trans events),
      ← starts_between before a starts b later, together, Bool.and_eq_false_iff, Bool.not_eq_false',
      beq_eq_false_iff_ne]
    exact or_comm

theorem list_text_whole (events : List Event) : listText none events = ", ".intercalate (events.map Event.text) := by
  simp [listText]

theorem group_text (limit : Option Nat) (dice : Dice) (group : List Event) (present : group ≠ [])
    (alike : ∀ event ∈ group, event.dice = dice) :
    groupText limit group = dice.source ++ "[" ++ listText limit group ++ "]" := by
  obtain ⟨event, events, rfl⟩ := List.exists_cons_of_ne_nil present
  rw [groupText, alike event List.mem_cons_self]

theorem group_text_none (dice : Dice) (group : List Event) (present : group ≠ [])
    (alike : ∀ event ∈ group, event.dice = dice) : groupText none group = rollsText dice group := by
  rw [group_text none dice group present alike, list_text_whole, rollsText]

theorem description_texts (trace : Trace) : ∃ texts, GroupTexts trace.groups texts ∧
    trace.description none = " ".intercalate texts := by
  refine ⟨trace.groups.map (groupText none), ?_, rfl⟩
  refine List.forall₂_map_right_iff.2 (List.forall₂_same.2 fun group member event inside => ?_)
  exact group_text_none event.dice group (trace.groups_present group member)
    fun other among => trace.groups_alike group member other among event inside

end Trace

end DiceRoll
