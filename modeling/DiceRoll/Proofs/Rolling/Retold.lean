import DiceRoll.Proofs.Rolling.Faces
import DiceRoll.Proofs.Rolling.Observed

set_option autoImplicit false

namespace DiceRoll

namespace RollError

def withSource (source : String) : RollError → RollError
  | endlessExplosions _ threshold => .endlessExplosions source threshold
  | endlessRerolls _ threshold => .endlessRerolls source threshold
  | overflow _ => .overflow source

end RollError

namespace Notice

def retold (dice : Dice) : Notice → Notice
  | rolled event => .rolled { event with dice := dice }
  | started sign => .started sign

end Notice

namespace Report

variable {α : Type}

def retold (dice : Dice) (report : Report RollError α) : Report RollError α :=
  { report.mapError (RollError.withSource dice.source) with notices := report.notices.map (Notice.retold dice) }

theorem retold_after (dice : Dice) (told : List Notice) (report : Report RollError α) :
    (report.after told).retold dice = (report.retold dice).after (told.map (Notice.retold dice)) := by
  rw [retold, retold, after, after, List.map_append]
  rfl

end Report

namespace Roller

def ShowsFaces (dice : Dice) : Roller → Prop
  | values left => ∀ value ∈ left, dice.HasFace value
  | seeded _ => True
  | constant value => dice.HasFace value
  | lowest => True
  | highest => True

theorem draw_face (dice : Dice) (roller next : Roller) (value : UInt32) (faces : roller.ShowsFaces dice)
    (drawn : roller.draw dice.base dice.sides.value = some (value, next)) :
    dice.HasFace value ∧ next.ShowsFaces dice := by
  have ordered := UInt32.le_iff_toNat_le.2 dice.faces_ordered
  cases roller with
  | values left =>
      cases left with
      | nil => cases drawn
      | cons first left =>
          cases drawn
          exact List.forall_mem_cons.1 faces
  | seeded generator =>
      obtain ⟨after, rfl⟩ := draw_seeded generator next _ _ value drawn
      exact ⟨dice.seeded_draw_face _ _ value rfl drawn, trivial⟩
  | constant same =>
      cases drawn
      exact ⟨faces, faces⟩
  | lowest =>
      cases drawn
      exact ⟨⟨UInt32.le_refl _, ordered⟩, trivial⟩
  | highest =>
      cases drawn
      exact ⟨⟨ordered, UInt32.le_refl _⟩, trivial⟩

theorem fixed_face (dice : Dice) (roller : Roller) (value : UInt32) (faces : roller.ShowsFaces dice)
    (fixed : roller.fixedValue dice.base dice.sides.value = some value) : dice.HasFace value :=
  (roller.draw_face dice roller value faces (roller.fixed_draw _ _ value fixed)).1

end Roller

structure Alike (dice other : Dice) : Prop where
  base : other.base = dice.base
  sides : other.sides = dice.sides
  count : other.count = dice.count
  multiply : other.multiply = dice.multiply
  rerolls : ∀ value, dice.HasFace value → other.rerolls value = dice.rerolls value
  explodes : ∀ value, dice.HasFace value → other.explodes value = dice.explodes value
  split : ∀ rolls : List UInt32, rolls.length = dice.count.value.toNat → other.keep.split rolls = dice.keep.split rolls

section

variable {α β : Type}

-- For every observer, the second rolling is the first one told of other dice. What it gives has a property, and the
-- roller goes on to show faces.
def Retold (dice other : Dice) (gives : α → Prop) (roller : Roller)
    (first second : (σ : Type) → [Sink σ] → Rolling σ RollError α) : Prop :=
  ∃ report : Report RollError α,
    (∀ a, report.outcome = .ok a → gives a ∧ report.roller.ShowsFaces dice) ∧
    (∀ (σ : Type) [Sink σ] (sink : σ), first σ ⟨roller, sink⟩ = report.on sink) ∧
    ∀ (σ : Type) [Sink σ] (sink : σ), second σ ⟨roller, sink⟩ = (report.retold other).on sink

variable {dice other : Dice}

theorem retold_pure (gives : α → Prop) (roller : Roller) (a : α) (given : gives a) (faces : roller.ShowsFaces dice) :
    Retold dice other gives roller (fun _ => pure a) fun _ => pure a := by
  refine ⟨⟨.ok a, roller, []⟩, ?_, fun _ _ _ => rfl, fun _ _ _ => rfl⟩
  rintro _ ⟨⟩
  exact ⟨given, faces⟩

theorem retold_stop (gives : α → Prop) (roller : Roller) (stop : Stop RollError) :
    Retold dice other gives roller (fun _ => throw stop)
      fun _ => throw (stop.map (RollError.withSource other.source)) :=
  ⟨⟨.error stop, roller, []⟩, by rintro _ ⟨⟩, fun _ _ _ => rfl, fun _ _ _ => rfl⟩

theorem retold_tell (roller : Roller) (kind : EventKind) (value : UInt32) (faces : roller.ShowsFaces dice) :
    Retold dice other (fun _ => True) roller (fun _ => Rolling.tell (.rolled ⟨kind, dice, value⟩))
      fun _ => Rolling.tell (.rolled ⟨kind, other, value⟩) :=
  ⟨⟨.ok (), roller, [.rolled ⟨kind, dice, value⟩]⟩, fun _ _ => ⟨trivial, faces⟩, fun _ _ _ => rfl, fun _ _ _ => rfl⟩

theorem retold_states (roller : Roller) (faces : roller.ShowsFaces dice) :
    Retold dice other (fun _ => True) roller (fun _ => Rolling.states) fun _ => Rolling.states :=
  ⟨⟨.ok roller.states, roller, []⟩, fun _ _ => ⟨trivial, faces⟩, fun _ _ _ => rfl, fun _ _ _ => rfl⟩

theorem retold_draw (roller : Roller) (faces : roller.ShowsFaces dice) :
    Retold dice other dice.HasFace roller (fun _ => Rolling.draw dice.base dice.sides.value)
      fun _ => Rolling.draw dice.base dice.sides.value := by
  cases drawn : roller.draw dice.base dice.sides.value with
  | none =>
      have runs (σ : Type) [Sink σ] (sink : σ) : Rolling.draw (ε := RollError) dice.base dice.sides.value
          ⟨roller, sink⟩ = .error .exhausted ⟨roller, sink⟩ := by
        rw [Rolling.draw, drawn]
      exact ⟨⟨.error .exhausted, roller, []⟩, by rintro _ ⟨⟩, fun σ _ sink => runs σ sink, fun σ _ sink => runs σ sink⟩
  | some next =>
      obtain ⟨value, after⟩ := next
      have runs (σ : Type) [Sink σ] (sink : σ) : Rolling.draw (ε := RollError) dice.base dice.sides.value
          ⟨roller, sink⟩ = .ok value ⟨after, sink⟩ := by
        rw [Rolling.draw, drawn]
      refine ⟨⟨.ok value, after, []⟩, ?_, fun σ _ sink => runs σ sink, fun σ _ sink => runs σ sink⟩
      rintro _ ⟨⟩
      exact roller.draw_face dice after value faces drawn

theorem retold_bind (gives : α → Prop) (comes : β → Prop) (roller : Roller)
    (first second : (σ : Type) → [Sink σ] → Rolling σ RollError α)
    (next after : (σ : Type) → [Sink σ] → α → Rolling σ RollError β)
    (here : Retold dice other gives roller first second)
    (there : ∀ a last, gives a → last.ShowsFaces dice →
      Retold dice other comes last (fun σ => next σ a) fun σ => after σ a) :
    Retold dice other comes roller (fun σ => first σ >>= next σ) fun σ => second σ >>= after σ := by
  obtain ⟨⟨outcome, last, notices⟩, ends, runs, again⟩ := here
  cases outcome with
  | error stop =>
      exact ⟨⟨.error stop, last, notices⟩, by rintro _ ⟨⟩, fun σ _ sink => Rolling.bind_error _ _ _ _ _ (runs σ sink),
        fun σ _ sink => Rolling.bind_error _ _ _ _ _ (again σ sink)⟩
  | ok a =>
      obtain ⟨given, faces⟩ := ends a rfl
      obtain ⟨later, comesTo, runsOn, againOn⟩ := there a last given faces
      refine ⟨later.after notices, comesTo, fun σ _ sink => ?_, fun σ _ sink => ?_⟩
      · rw [Report.after_on, ← runsOn]
        exact Rolling.bind_ok _ _ _ _ _ (runs σ sink)
      · rw [Report.retold_after, Report.after_on, ← againOn]
        exact Rolling.bind_ok _ _ _ _ _ (again σ sink)

end

namespace Dice

variable {dice other : Dice}

theorem die_retold (alike : Alike dice other) (phase : Phase) (times : Nat) (roller : Roller)
    (faces : roller.ShowsFaces dice) :
    Retold dice other dice.HasFace roller (fun _ => dice.rollDie phase times) fun _ => other.rollDie phase times := by
  induction times generalizing roller with
  | zero => exact retold_stop _ roller .endless
  | succ times ih =>
      simp only [rollDie, alike.base, alike.sides]
      refine retold_bind _ _ roller _ _ _ _ (retold_draw roller faces) fun value last face shows => ?_
      rw [alike.rerolls value face]
      cases dice.rerolls value with
      | true =>
          exact retold_bind _ _ last _ _ _ _ (retold_tell last phase.rerolled value shows) fun _ after _ showsOn =>
            ih after showsOn
      | false =>
          exact retold_bind _ _ last _ _ _ _ (retold_tell last phase.accepted value shows) fun _ after _ showsOn =>
            retold_pure _ after value face showsOn

structure FaceRolls (dice : Dice) (number : Nat) (rolls : List UInt32) : Prop where
  length : rolls.length = number
  faces : ∀ value ∈ rolls, dice.HasFace value

theorem dice_retold (alike : Alike dice other) (limit number already : Nat) (rolls : List UInt32) (roller : Roller)
    (fallen : FaceRolls dice already rolls) (faces : roller.ShowsFaces dice) :
    Retold dice other (FaceRolls dice (already + number)) roller (fun _ => dice.rollDice limit number rolls)
      fun _ => other.rollDice limit number rolls := by
  induction number generalizing already rolls roller with
  | zero => exact retold_pure _ roller rolls fallen faces
  | succ number ih =>
      simp only [rollDice]
      refine retold_bind _ _ roller _ _ _ _ (die_retold alike .initial limit roller faces)
        fun value last face shows => ?_
      have more : FaceRolls dice (already + 1) (value :: rolls) :=
        ⟨congrArg Nat.succ fallen.length, List.forall_mem_cons.2 ⟨face, fallen.faces⟩⟩
      rw [Nat.add_comm number, ← Nat.add_assoc]
      exact ih (already + 1) (value :: rolls) last more shows

theorem dropped_retold (values : List UInt32) (roller : Roller) (faces : roller.ShowsFaces dice) :
    Retold dice other (fun _ => True) roller (fun _ => dice.tellDropped values) fun _ => other.tellDropped values := by
  induction values generalizing roller with
  | nil => exact retold_pure _ roller () trivial faces
  | cons value values ih =>
      simp only [tellDropped]
      exact retold_bind _ _ roller _ _ _ _ (retold_tell roller .dropped value faces) fun _ last _ shows => ih last shows

theorem chain_retold (alike : Alike dice other) (limit times : Nat) (explosions : List UInt32) (roller : Roller)
    (faces : roller.ShowsFaces dice) :
    Retold dice other (fun _ => True) roller (fun _ => dice.rollChain limit times explosions)
      fun _ => other.rollChain limit times explosions := by
  induction times generalizing explosions roller with
  | zero => exact retold_stop _ roller .endless
  | succ times ih =>
      simp only [rollChain]
      refine retold_bind _ _ roller _ _ _ _ (die_retold alike .explosion limit roller faces)
        fun value last face shows => ?_
      rw [alike.explodes value face]
      cases dice.explodes value with
      | true => exact ih (value :: explosions) last shows
      | false => exact retold_pure _ last (value :: explosions) trivial shows

theorem chains_retold (alike : Alike dice other) (limit : Nat) (kept explosions : List UInt32) (roller : Roller)
    (fallen : ∀ value ∈ kept, dice.HasFace value) (faces : roller.ShowsFaces dice) :
    Retold dice other (fun _ => True) roller (fun _ => dice.rollChains limit kept explosions)
      fun _ => other.rollChains limit kept explosions := by
  induction kept generalizing explosions roller with
  | nil => exact retold_pure _ roller explosions trivial faces
  | cons value kept ih =>
      obtain ⟨face, others⟩ := List.forall_mem_cons.1 fallen
      simp only [rollChains]
      rw [alike.explodes value face]
      cases dice.explodes value with
      | true =>
          exact retold_bind _ _ roller _ _ _ _ (chain_retold alike limit limit explosions roller faces)
            fun more last _ shows => ih more last others shows
      | false => exact ih explosions roller others faces

theorem kept_retold (alike : Alike dice other) (limit : Nat) (kept : List UInt32) (roller : Roller)
    (fallen : ∀ value ∈ kept, dice.HasFace value) (faces : roller.ShowsFaces dice) :
    Retold dice other (fun _ => True) roller (fun _ => dice.rollKept limit kept)
      fun _ => other.rollKept limit kept := by
  simp only [rollKept]
  refine retold_bind _ _ roller _ _ _ _ (chains_retold alike limit kept [] roller fallen faces)
    fun explosions last _ shows => ?_
  have same : other.total? kept explosions = dice.total? kept explosions := by rw [total?, total?, alike.multiply]
  rw [same]
  cases dice.total? kept explosions with
  | none => exact retold_stop _ last _
  | some total => exact retold_pure _ last total trivial shows

theorem rolls_retold (alike : Alike dice other) (limit : Nat) (rolls : List UInt32) (roller : Roller)
    (fallen : FaceRolls dice dice.count.value.toNat rolls) (faces : roller.ShowsFaces dice) :
    Retold dice other (fun _ => True) roller (fun _ => dice.rollOn limit rolls) fun _ => other.rollOn limit rolls := by
  -- Sorting keeps the number of rolls, so that both terms split them alike.
  have sorted := List.mergeSort_perm rolls (· ≤ ·)
  have same := alike.split (rolls.mergeSort (· ≤ ·)) (sorted.length_eq.trans fallen.length)
  have kept : ∀ value ∈ (dice.keep.split (rolls.mergeSort (· ≤ ·))).1, dice.HasFace value := fun value member =>
    fallen.faces value (sorted.mem_iff.1 ((Keep.split_sublist dice.keep _).subset member))
  simp only [rollOn, same]
  exact retold_bind _ _ roller _ _ _ _ (dropped_retold _ roller faces) fun _ last _ shows =>
    kept_retold alike limit _ last kept shows

theorem unchecked_retold (alike : Alike dice other) (roller : Roller) (faces : roller.ShowsFaces dice) :
    Retold dice other (fun _ => True) roller (fun _ => dice.rollUnchecked) fun _ => other.rollUnchecked := by
  refine retold_bind _ _ roller _ _ _ _ (retold_states roller faces) fun limit last _ shows => ?_
  have none : FaceRolls dice 0 [] := ⟨rfl, List.forall_mem_nil _⟩
  have number := Nat.zero_add dice.count.value.toNat
  have initial := dice_retold alike limit dice.count.value.toNat 0 [] last none shows
  rw [number] at initial
  rw [alike.count]
  exact retold_bind _ _ last _ _ _ _ initial fun rolls after fallen showsOn =>
    rolls_retold alike limit rolls after fallen showsOn

theorem roll_retold (alike : Alike dice other) (roller : Roller) (faces : roller.ShowsFaces dice)
    (checks : roller.check other = (roller.check dice).mapError (RollError.withSource other.source)) :
    Retold dice other (fun _ => True) roller (fun _ => dice.roll) fun _ => other.roll := by
  cases checked : roller.check dice with
  | error error =>
      rw [checked] at checks
      exact ⟨⟨.error (.failed error), roller, []⟩, by rintro _ ⟨⟩,
        fun _ _ sink => roll_refused dice ⟨roller, sink⟩ error checked,
        fun _ _ sink => roll_refused other ⟨roller, sink⟩ _ checks⟩
  | ok _ =>
      rw [checked] at checks
      obtain ⟨report, ends, runs, again⟩ := unchecked_retold alike roller faces
      exact ⟨report, ends, fun σ _ sink => (roll_checked dice ⟨roller, sink⟩ checked).trans (runs σ sink),
        fun σ _ sink => (roll_checked other ⟨roller, sink⟩ checks).trans (again σ sink)⟩

end Dice

end DiceRoll
