import DiceRoll.Proofs.Evaluation.Turns
import DiceRoll.Proofs.Trace.Groups

set_option autoImplicit false

namespace DiceRoll

theorem dice_events_dice (dice : Dice) (phase : Phase) (dies : List Die) :
    ∀ event ∈ diceEvents dice phase dies, event.dice = dice := by
  intro event member
  obtain ⟨die, _, inside⟩ := List.mem_flatMap.1 member
  rcases List.mem_append.1 inside with rerolled | accepted
  · obtain ⟨value, _, rfl⟩ := List.mem_map.1 rerolled
    rfl
  · rw [List.mem_singleton.1 accepted]

namespace Course

theorem events_dice (dice : Dice) (course : Course) : ∀ event ∈ course.events dice, event.dice = dice := by
  intro event member
  rcases List.mem_append.1 member with first | explosion
  · rcases List.mem_append.1 first with initial | dropped
    · exact dice_events_dice dice .initial course.initial event initial
    · obtain ⟨value, _, rfl⟩ := List.mem_map.1 dropped
      rfl
  · exact dice_events_dice dice .explosion course.chains.flatten event explosion

theorem events_present (dice : Dice) (course : Course) (follows : course.Follows dice) : course.events dice ≠ [] := by
  have some : 0 < course.initial.length := by
    rw [follows.count]
    exact UInt32.lt_iff_toNat_lt.1 dice.count.pos
  obtain ⟨die, dies, initial⟩ := List.exists_cons_of_length_pos some
  rw [events, initial]
  simp [diceEvents, Die.events]

end Course

namespace TermRoll

structure Told (roll : TermRoll) : Prop where
  present : roll.events ≠ []
  alike : ∀ event ∈ roll.events, event.dice = roll.term.dice

theorem told_alone (roll : TermRoll) (roller next : Roller)
    (alone : roll.term.dice.roll ⟨roller, Trace.empty⟩ = .ok roll.total ⟨next, .ofEvents roll.events⟩) : roll.Told := by
  obtain ⟨course, follows, passes, _⟩ := roll_total_course roll.term.dice _ _ _ alone
  have events : roll.events = course.events roll.term.dice := by
    have told := passes.told
    rw [tell_all_notices, Trace.told_rolled] at told
    exact congrArg (fun trace : Trace => trace.events.toList) told
  exact ⟨events ▸ course.events_present roll.term.dice follows, events ▸ course.events_dice roll.term.dice⟩

theorem told_in_turn (roller last : Roller) (rolls : List TermRoll) (turns : InTurn roller rolls last) :
    ∀ roll ∈ rolls, roll.Told := by
  induction turns with
  | nothing roller => nofun
  | term roller next last roll more alone rest ih => exact List.forall_mem_cons.2 ⟨roll.told_alone roller next alone, ih⟩

end TermRoll

theorem starts_from_least (index : Nat) (records : List TermRecord) :
    ∀ start ∈ startsFrom index records, index ≤ start.index := by
  rw [← Trace.starts_told_terms]
  exact starts_told_later index _

namespace Trace

theorem one_group (trace : Trace) (n : Nat) (dice : Dice) (events : List Event) (present : events ≠ [])
    (alike : ∀ event ∈ events, event.dice = dice)
    (quiet : ∀ index, n < index → index < n + events.length → trace.startsAt index = false) :
    (events.zipIdx n).splitBy trace.together = [events.zipIdx n] := by
  apply List.splitBy_of_isChain (mt List.zipIdx_eq_nil_iff.1 present)
  rw [List.isChain_iff_getElem]
  intro i within
  rw [List.length_zipIdx] at within
  have same : events[i].dice = events[i + 1].dice :=
    (alike _ (List.getElem_mem _)).trans (alike _ (List.getElem_mem _)).symm
  rw [List.getElem_zipIdx, List.getElem_zipIdx, together, quiet (n + (i + 1)) (by omega) (by omega)]
  simpa using same

def StartsAre (trace : Trace) (n : Nat) (rolls : List TermRoll) : Prop :=
  ∀ index, n ≤ index →
    (trace.startsAt index = true ↔ ∃ start ∈ startsFrom n (rolls.map TermRoll.record), start.index = index)

theorem starts_quiet (trace : Trace) (n : Nat) (roll : TermRoll) (rolls : List TermRoll)
    (starts : trace.StartsAre n (roll :: rolls)) (index : Nat) (after : n < index)
    (before : index < n + roll.events.length) : trace.startsAt index = false := by
  rw [← Bool.not_eq_true, starts index (Nat.le_of_lt after)]
  rintro ⟨start, member, rfl⟩
  rcases List.mem_cons.1 member with rfl | later
  · exact Nat.lt_irrefl n after
  · have least := starts_from_least _ _ start later
    exact Nat.not_lt.2 least before

theorem starts_next (trace : Trace) (n : Nat) (roll next : TermRoll) (rolls : List TermRoll)
    (starts : trace.StartsAre n (roll :: next :: rolls)) : trace.startsAt (n + roll.events.length) = true :=
  (starts _ (Nat.le_add_right n _)).2 ⟨⟨next.term.sign, _⟩, .tail _ (.head _), rfl⟩

theorem starts_later (trace : Trace) (n : Nat) (roll : TermRoll) (rolls : List TermRoll) (told : roll.Told)
    (starts : trace.StartsAre n (roll :: rolls)) : trace.StartsAre (n + roll.events.length) rolls := by
  intro index least
  have some := List.length_pos_iff.2 told.present
  rw [starts index (by omega), List.map_cons, startsFrom, List.exists_mem_cons_iff]
  exact or_iff_right (by omega : n ≠ index)

theorem groups_from (trace : Trace) (n : Nat) (rolls : List TermRoll) (told : ∀ roll ∈ rolls, roll.Told)
    (starts : trace.StartsAre n rolls) :
    (((rolls.flatMap TermRoll.events).zipIdx n).splitBy trace.together).map (List.map Prod.fst) =
      rolls.map TermRoll.events := by
  induction rolls generalizing n with
  | nil => rfl
  | cons roll rolls ih =>
      obtain ⟨toldHere, toldLater⟩ := List.forall_mem_cons.1 told
      have here := one_group trace n roll.term.dice roll.events toldHere.present toldHere.alike
        (trace.starts_quiet n roll rolls starts)
      have rest := ih (n + roll.events.length) toldLater (trace.starts_later n roll rolls toldHere starts)
      -- Whatever comes next is the first roll of another term.
      have apart : ∀ x ∈ (roll.events.zipIdx n).getLast?,
          ∀ y ∈ ((rolls.flatMap TermRoll.events).zipIdx (n + roll.events.length)).head?,
            trace.together x y = false := by
        intro x _ y first
        cases rolls with
        | nil => cases first
        | cons next rolls =>
            rw [List.head?_zipIdx] at first
            obtain ⟨event, _, rfl⟩ := Option.map_eq_some_iff.1 first
            rw [together, trace.starts_next n roll next rolls starts]
            rfl
      rw [List.flatMap_cons, List.zipIdx_append, List.splitBy_append apart, here, List.map_append, rest,
        List.map_singleton, List.zipIdx_map_fst]
      rfl

theorem groups_of_terms (rolls : List TermRoll) (told : ∀ roll ∈ rolls, roll.Told) :
    (ofTerms (rolls.map TermRoll.record)).groups = rolls.map TermRoll.events := by
  have events : (ofTerms (rolls.map TermRoll.record)).events.toList = rolls.flatMap TermRoll.events :=
    List.flatMap_map TermRoll.record TermRecord.events rolls
  rw [groups, events]
  refine groups_from _ 0 rolls told fun index _ => ?_
  simp [startsAt, ofTerms]

end Trace

structure DescribedInTurn (rolls : List TermRoll) (trace : Trace) : Prop where
  groups : trace.groups = rolls.map TermRoll.events
  text : trace.description none = " ".intercalate (rolls.map fun roll => Trace.rollsText roll.term.dice roll.events)

theorem terms_described (rolls : List TermRoll) (told : ∀ roll ∈ rolls, roll.Told) :
    DescribedInTurn rolls (.ofTerms (rolls.map TermRoll.record)) := by
  have groups := Trace.groups_of_terms rolls told
  refine ⟨groups, congrArg (" ".intercalate ·) ?_⟩
  rw [groups, List.map_map]
  refine List.map_congr_left fun roll member => ?_
  exact Trace.group_text_none roll.term.dice roll.events (told roll member).present (told roll member).alike

theorem traces_described :
    (∀ notices : List Notice, ∃ groups texts, (notifyAll Trace.empty notices).groups = groups ∧
      Trace.Grouped notices groups ∧ Trace.GroupTexts groups texts ∧
      (notifyAll Trace.empty notices).description none = " ".intercalate texts) ∧
    (∀ (expr : Expression) (roller : Roller) (evaluation : Evaluation) (after : Table Trace),
      expr.eval ⟨roller, Trace.empty⟩ = .ok evaluation after →
      ∃ rolls, rolls.map TermRoll.term = expr.terms ∧ InTurn roller rolls after.roller ∧
        DescribedInTurn rolls after.sink) := by
  constructor
  · intro notices
    obtain ⟨texts, written, whole⟩ := (notifyAll Trace.empty notices).description_texts
    exact ⟨_, texts, rfl, Trace.told_grouped notices, written, whole⟩
  · intro expr roller evaluation after ran
    have checked := eval_ok_checked expr ⟨roller, Trace.empty⟩ after evaluation ran
    have turns := unchecked_in_turns expr roller ((Expression.check_terms_ok_iff roller expr.terms).1 checked)
    rw [← eval_checked expr ⟨roller, Trace.empty⟩ checked, ran] at turns
    cases turns with
    | finished rolls last total all turns fit exact_ =>
        exact ⟨rolls, all, turns, terms_described rolls (TermRoll.told_in_turn roller last rolls turns)⟩

def sixSides : Dice :=
  ⟨⟨.one, 6, 1, none, ⟨.high, 1⟩, none, 1⟩, "1d6"⟩

theorem equal_terms_described : ∃ after : Table Trace,
    (Expression.plus (.ofDice sixSides) sixSides).eval ⟨.values [3, 4], Trace.empty⟩ =
      .ok ⟨(Expression.ofDice sixSides).plus sixSides, [3, 4], 7⟩ after ∧
    (∃ rolls, rolls.map TermRoll.term = [⟨.plus, sixSides⟩, ⟨.plus, sixSides⟩] ∧
      InTurn (.values [3, 4]) rolls after.roller ∧ DescribedInTurn rolls after.sink) ∧
    after.sink.description none = "1d6[3] 1d6[4]" := by
  have ran : ∃ after : Table Trace, (Expression.plus (.ofDice sixSides) sixSides).eval ⟨.values [3, 4], Trace.empty⟩ =
      .ok ⟨(Expression.ofDice sixSides).plus sixSides, [3, 4], 7⟩ after ∧
        after.sink.description none = "1d6[3] 1d6[4]" := by
    refine ⟨?after, ?ran, ?written⟩
    case ran =>
      simp only [Expression.plus, Expression.ofDice, Expression.andThen, List.nil_append, Expression.eval,
        Expression.evalUnchecked, Expression.terms, Expression.rollTerms, Dice.roll, Dice.rollUnchecked, sort_insertion]
      rfl
    case written => decide +kernel
  obtain ⟨after, ran, written⟩ := ran
  exact ⟨after, ran,
    traces_described.2 (.plus (.ofDice sixSides) sixSides) (.values [3, 4]) ⟨_, [3, 4], 7⟩ after ran, written⟩

end DiceRoll
