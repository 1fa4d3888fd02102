import DiceRoll.Proofs.Rolling.Checked
import DiceRoll.Proofs.Trace.Tally

set_option autoImplicit false

namespace DiceRoll

namespace Notice

def IsRolled (notice : Notice) : Prop :=
  ∃ event, notice = .rolled event

end Notice

-- A run as it is for every observer.
structure Report (ε α : Type) where
  outcome : Except (Stop ε) α
  roller : Roller
  notices : List Notice

namespace Report

variable {ε α : Type}

def on {σ : Type} [Sink σ] (report : Report ε α) (sink : σ) : EStateM.Result (Stop ε) (Table σ) α :=
  match report.outcome with
  | .ok a => .ok a ⟨report.roller, notifyAll sink report.notices⟩
  | .error stop => .error stop ⟨report.roller, notifyAll sink report.notices⟩

def after (told : List Notice) (report : Report ε α) : Report ε α :=
  { report with notices := told ++ report.notices }

theorem after_on {σ : Type} [Sink σ] (told : List Notice) (report : Report ε α) (sink : σ) :
    (report.after told).on sink = report.on (notifyAll sink told) := by
  rw [on, on, after, notify_all_append]

def mapError {ε' : Type} (f : ε → ε') (report : Report ε α) : Report ε' α :=
  { report with outcome := report.outcome.mapError (Stop.map f) }

theorem map_error_on {ε' σ : Type} [Sink σ] (f : ε → ε') (rolling : Rolling σ ε α) (report : Report ε α)
    (roller : Roller) (sink : σ) (runs : rolling ⟨roller, sink⟩ = report.on sink) :
    rolling.mapError f ⟨roller, sink⟩ = (report.mapError f).on sink := by
  obtain ⟨outcome, last, notices⟩ := report
  rw [Rolling.mapError, runs]
  cases outcome <;> rfl

end Report

section

variable {ε α β : Type}

-- Rolling with this roller has one report for all observers, and no notices in it but of this kind.
def Observed (tells : Notice → Prop) (roller : Roller) (rolling : (σ : Type) → [Sink σ] → Rolling σ ε α) : Prop :=
  ∃ report : Report ε α, (∀ notice ∈ report.notices, tells notice) ∧
    ∀ (σ : Type) [Sink σ] (sink : σ), rolling σ ⟨roller, sink⟩ = report.on sink

theorem observed_pure (tells : Notice → Prop) (roller : Roller) (a : α) :
    Observed (ε := ε) tells roller fun _ => pure a :=
  ⟨⟨.ok a, roller, []⟩, List.forall_mem_nil _, fun _ _ _ => rfl⟩

theorem observed_stop (tells : Notice → Prop) (roller : Roller) (stop : Stop ε) :
    Observed (α := α) tells roller fun _ => throw stop :=
  ⟨⟨.error stop, roller, []⟩, List.forall_mem_nil _, fun _ _ _ => rfl⟩

theorem observed_tell (tells : Notice → Prop) (roller : Roller) (notice : Notice) (told : tells notice) :
    Observed (ε := ε) tells roller fun _ => Rolling.tell notice :=
  ⟨⟨.ok (), roller, [notice]⟩, List.forall_mem_singleton.2 told, fun _ _ _ => rfl⟩

theorem observed_states (tells : Notice → Prop) (roller : Roller) :
    Observed (ε := ε) tells roller fun _ => Rolling.states :=
  ⟨⟨.ok roller.states, roller, []⟩, List.forall_mem_nil _, fun _ _ _ => rfl⟩

theorem observed_draw (tells : Notice → Prop) (roller : Roller) (base : Base) (sides : UInt32) :
    Observed (ε := ε) tells roller fun _ => Rolling.draw base sides := by
  cases drawn : roller.draw base sides with
  | none =>
      refine ⟨⟨.error .exhausted, roller, []⟩, List.forall_mem_nil _, fun σ _ sink => ?_⟩
      change Rolling.draw base sides ⟨roller, sink⟩ = .error .exhausted ⟨roller, sink⟩
      rw [Rolling.draw, drawn]
  | some next =>
      obtain ⟨value, after⟩ := next
      refine ⟨⟨.ok value, after, []⟩, List.forall_mem_nil _, fun σ _ sink => ?_⟩
      change Rolling.draw base sides ⟨roller, sink⟩ = .ok value ⟨after, sink⟩
      rw [Rolling.draw, drawn]

theorem observed_bind (tells : Notice → Prop) (roller : Roller) (first : (σ : Type) → [Sink σ] → Rolling σ ε α)
    (next : (σ : Type) → [Sink σ] → α → Rolling σ ε β) (here : Observed tells roller first)
    (there : ∀ a after, Observed tells after fun σ => next σ a) :
    Observed tells roller fun σ => first σ >>= next σ := by
  obtain ⟨⟨outcome, last, notices⟩, told, runs⟩ := here
  cases outcome with
  | error stop =>
      exact ⟨⟨.error stop, last, notices⟩, told, fun σ _ sink => Rolling.bind_error _ _ _ _ _ (runs σ sink)⟩
  | ok a =>
      obtain ⟨later, more, goesOn⟩ := there a last
      refine ⟨later.after notices, List.forall_mem_append.2 ⟨told, more⟩, fun σ _ sink => ?_⟩
      rw [Report.after_on, ← goesOn]
      exact Rolling.bind_ok _ _ _ _ _ (runs σ sink)

theorem observed_map_error {ε' : Type} (f : ε → ε') (tells : Notice → Prop) (roller : Roller)
    (rolling : (σ : Type) → [Sink σ] → Rolling σ ε α) (observed : Observed tells roller rolling) :
    Observed tells roller fun σ => (rolling σ).mapError f := by
  obtain ⟨report, told, runs⟩ := observed
  exact ⟨report.mapError f, told, fun σ _ sink => Report.map_error_on f (rolling σ) report roller sink (runs σ sink)⟩

theorem observed_weaken (tells more : Notice → Prop) (roller : Roller)
    (rolling : (σ : Type) → [Sink σ] → Rolling σ ε α) (within : ∀ notice, tells notice → more notice)
    (observed : Observed tells roller rolling) : Observed more roller rolling := by
  obtain ⟨report, told, runs⟩ := observed
  exact ⟨report, fun notice member => within notice (told notice member), runs⟩

end

namespace Dice

variable {ε : Type}

theorem die_observed (dice : Dice) (phase : Phase) (times : Nat) (roller : Roller) :
    Observed (ε := ε) Notice.IsRolled roller fun _ => dice.rollDie phase times := by
  induction times generalizing roller with
  | zero => exact observed_stop _ roller .endless
  | succ times ih =>
      simp only [rollDie]
      refine observed_bind _ roller _ _ (observed_draw _ roller _ _) fun value after => ?_
      cases again : dice.rerolls value with
      | true => exact observed_bind _ after _ _ (observed_tell _ after _ ⟨_, rfl⟩) fun _ later => ih later
      | false =>
          exact observed_bind _ after _ _ (observed_tell _ after _ ⟨_, rfl⟩) fun _ later => observed_pure _ later value

theorem dice_observed (dice : Dice) (limit number : Nat) (rolls : List UInt32) (roller : Roller) :
    Observed (ε := ε) Notice.IsRolled roller fun _ => dice.rollDice limit number rolls := by
  induction number generalizing rolls roller with
  | zero => exact observed_pure _ roller rolls
  | succ number ih =>
      simp only [rollDice]
      exact observed_bind _ roller _ _ (dice.die_observed .initial limit roller) fun value after =>
        ih (value :: rolls) after

theorem dropped_observed (dice : Dice) (values : List UInt32) (roller : Roller) :
    Observed (ε := ε) Notice.IsRolled roller fun _ => dice.tellDropped values := by
  induction values generalizing roller with
  | nil => exact observed_pure _ roller ()
  | cons value values ih =>
      simp only [tellDropped]
      exact observed_bind _ roller _ _ (observed_tell _ roller _ ⟨_, rfl⟩) fun _ after => ih after

theorem chain_observed (dice : Dice) (limit times : Nat) (explosions : List UInt32) (roller : Roller) :
    Observed (ε := ε) Notice.IsRolled roller fun _ => dice.rollChain limit times explosions := by
  induction times generalizing explosions roller with
  | zero => exact observed_stop _ roller .endless
  | succ times ih =>
      simp only [rollChain]
      refine observed_bind _ roller _ _ (dice.die_observed .explosion limit roller) fun value after => ?_
      cases explodes : dice.explodes value with
      | true => exact ih (value :: explosions) after
      | false => exact observed_pure _ after (value :: explosions)

theorem chains_observed (dice : Dice) (limit : Nat) (kept explosions : List UInt32) (roller : Roller) :
    Observed (ε := ε) Notice.IsRolled roller fun _ => dice.rollChains limit kept explosions := by
  induction kept generalizing explosions roller with
  | nil => exact observed_pure _ roller explosions
  | cons value kept ih =>
      cases explodes : dice.explodes value with
      | true =>
          simp only [rollChains, explodes, if_true]
          exact observed_bind _ roller _ _ (dice.chain_observed limit limit explosions roller) fun more after =>
            ih more after
      | false =>
          simp only [rollChains, explodes, Bool.false_eq_true, if_false]
          exact ih explosions roller

def rollKept {σ : Type} [Sink σ] (dice : Dice) (limit : Nat) (kept : List UInt32) : Rolling σ RollError Total := do
  let explosions ← dice.rollChains limit kept []
  match dice.total? kept explosions with
  | none => Rolling.fail (.overflow dice.source)
  | some total => return total

def rollOn {σ : Type} [Sink σ] (dice : Dice) (limit : Nat) (rolls : List UInt32) : Rolling σ RollError Total := do
  let split := dice.keep.split (rolls.mergeSort (· ≤ ·))
  dice.tellDropped split.2
  dice.rollKept limit split.1

theorem roll_unchecked_limit {σ : Type} [Sink σ] (dice : Dice) (table : Table σ) :
    dice.rollUnchecked table =
      (dice.rollDice table.roller.states dice.count.value.toNat [] >>= dice.rollOn table.roller.states) table :=
  rfl

theorem kept_observed (dice : Dice) (limit : Nat) (kept : List UInt32) (roller : Roller) :
    Observed Notice.IsRolled roller fun _ => dice.rollKept limit kept := by
  simp only [rollKept]
  refine observed_bind _ roller _ _ (dice.chains_observed limit kept [] roller) fun explosions last => ?_
  cases dice.total? kept explosions with
  | none => exact observed_stop _ last _
  | some total => exact observed_pure _ last total

theorem rolls_observed (dice : Dice) (limit : Nat) (rolls : List UInt32) (roller : Roller) :
    Observed Notice.IsRolled roller fun _ => dice.rollOn limit rolls := by
  simp only [rollOn]
  exact observed_bind _ roller _ _ (dice.dropped_observed _ roller) fun _ told => dice.kept_observed limit _ told

theorem unchecked_observed (dice : Dice) (roller : Roller) :
    Observed Notice.IsRolled roller fun _ => dice.rollUnchecked :=
  observed_bind _ roller _ _ (observed_states _ roller) fun limit after =>
    observed_bind _ after _ _ (dice.dice_observed limit _ [] after) fun rolls fallen =>
      dice.rolls_observed limit rolls fallen

theorem roll_observed (dice : Dice) (roller : Roller) : Observed Notice.IsRolled roller fun _ => dice.roll := by
  cases checked : roller.check dice with
  | error error =>
      exact ⟨⟨.error (.failed error), roller, []⟩, List.forall_mem_nil _,
        fun _ _ sink => roll_refused dice ⟨roller, sink⟩ error checked⟩
  | ok _ =>
      obtain ⟨report, told, runs⟩ := dice.unchecked_observed roller
      exact ⟨report, told, fun σ _ sink => (roll_checked dice ⟨roller, sink⟩ checked).trans (runs σ sink)⟩

end Dice

end DiceRoll
