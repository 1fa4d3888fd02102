import DiceRoll.Proofs.Rolling.EventOrder
import DiceRoll.Proofs.Rolling.Observed
import DiceRoll.Proofs.Rolling.Rerun

set_option autoImplicit false

namespace DiceRoll

section

variable {ε α β : Type}

inductive Prolonged (given more : List UInt32) : Report ε α → Report ε α → Prop where
  | ended (outcome : Except ε α) (left : List UInt32) (notices : List Notice)
      (used : given = fallen (eventsTold notices) ++ left) :
      Prolonged given more ⟨outcome.mapError .failed, .values left, notices⟩
        ⟨outcome.mapError .failed, .values (left ++ more), notices⟩
  | spent (notices : List Notice) (later : Report ε α) (used : given = fallen (eventsTold notices)) :
      Prolonged given more ⟨.error .exhausted, .values [], notices⟩ (later.after notices)

theorem prolonged_after (told : List Notice) (left more : List UInt32) (short long : Report ε α)
    (prolonged : Prolonged left more short long) :
    Prolonged (fallen (eventsTold told) ++ left) more (short.after told) (long.after told) := by
  cases prolonged with
  | ended outcome rest notices used =>
      refine .ended outcome rest (told ++ notices) ?_
      rw [events_told_append, fallen_append, List.append_assoc, ← used]
  | spent notices later used =>
      have whole : Prolonged (fallen (eventsTold told) ++ left) more
          (⟨.error .exhausted, .values [], told ++ notices⟩ : Report ε α) (later.after (told ++ notices)) :=
        .spent (told ++ notices) later (by rw [events_told_append, fallen_append, ← used])
      simpa only [Report.after, List.append_assoc] using whole

theorem prolonged_map_error {ε' : Type} (f : ε → ε') (given more : List UInt32) (short long : Report ε α)
    (prolonged : Prolonged given more short long) :
    Prolonged given more (short.mapError f) (long.mapError f) := by
  cases prolonged with
  | ended outcome left notices used =>
      cases outcome with
      | error error => exact .ended (.error (f error)) left notices used
      | ok a => exact .ended (.ok a) left notices used
  | spent notices later used => exact .spent notices (later.mapError f) used

-- The second rolling with more values prolongs the first one, for every observer.
def Prolongs (given more : List UInt32) (short long : (σ : Type) → [Sink σ] → Rolling σ ε α) : Prop :=
  ∃ first second : Report ε α, Prolonged given more first second ∧
    (∀ (σ : Type) [Sink σ] (sink : σ), short σ ⟨.values given, sink⟩ = first.on sink) ∧
    ∀ (σ : Type) [Sink σ] (sink : σ), long σ ⟨.values (given ++ more), sink⟩ = second.on sink

theorem prolongs_pure (given more : List UInt32) (a : α) :
    Prolongs (ε := ε) given more (fun _ => pure a) fun _ => pure a :=
  ⟨_, _, .ended (.ok a) given [] rfl, fun _ _ _ => rfl, fun _ _ _ => rfl⟩

theorem prolongs_fail (given more : List UInt32) (error : ε) :
    Prolongs (α := α) given more (fun _ => Rolling.fail error) fun _ => Rolling.fail error :=
  ⟨_, _, .ended (.error error) given [] rfl, fun _ _ _ => rfl, fun _ _ _ => rfl⟩

theorem prolongs_start (given more : List UInt32) (sign : Sign) :
    Prolongs (ε := ε) given more (fun _ => Rolling.tell (.started sign)) fun _ => Rolling.tell (.started sign) :=
  ⟨_, _, .ended (.ok ()) given [.started sign] rfl, fun _ _ _ => rfl, fun _ _ _ => rfl⟩

theorem prolongs_map_error {ε' : Type} (f : ε → ε') (given more : List UInt32)
    (short long : (σ : Type) → [Sink σ] → Rolling σ ε α) (prolongs : Prolongs given more short long) :
    Prolongs given more (fun σ => (short σ).mapError f) fun σ => (long σ).mapError f := by
  obtain ⟨first, second, prolonged, runs, goesOn⟩ := prolongs
  exact ⟨first.mapError f, second.mapError f, prolonged_map_error f given more first second prolonged,
    fun σ _ sink => Report.map_error_on f (short σ) first _ sink (runs σ sink),
    fun σ _ sink => Report.map_error_on f (long σ) second _ sink (goesOn σ sink)⟩

-- The second run goes on alone where the first one has run out, so what follows has to be the same for all observers.
theorem prolongs_bind (tells : Notice → Prop) (given more : List UInt32)
    (short long : (σ : Type) → [Sink σ] → Rolling σ ε α) (next after : (σ : Type) → [Sink σ] → α → Rolling σ ε β)
    (here : Prolongs given more short long)
    (there : ∀ a left, left <:+ given → short Unit ⟨.values given, ()⟩ = .ok a ⟨.values left, ()⟩ →
      Prolongs left more (fun σ => next σ a) fun σ => after σ a)
    (observed : ∀ a roller, Observed tells roller fun σ => after σ a) :
    Prolongs given more (fun σ => short σ >>= next σ) fun σ => long σ >>= after σ := by
  obtain ⟨first, second, prolonged, runs, goesOn⟩ := here
  cases prolonged with
  | ended outcome left notices used =>
      cases outcome with
      | error error =>
          exact ⟨_, _, .ended (.error error) left notices used,
            fun σ _ sink => Rolling.bind_error _ _ _ _ _ (runs σ sink),
            fun σ _ sink => Rolling.bind_error _ _ _ _ _ (goesOn σ sink)⟩
      | ok a =>
          -- Both runs stand at the same values, and the second one has more of them behind.
          obtain ⟨third, fourth, rest, runsOn, goesFurther⟩ :=
            there a left ⟨_, used.symm⟩ (runs Unit ())
          have whole := prolonged_after notices left more third fourth rest
          rw [← used] at whole
          refine ⟨_, _, whole, fun σ _ sink => ?_, fun σ _ sink => ?_⟩
          · rw [Report.after_on, ← runsOn]
            exact Rolling.bind_ok _ _ _ _ _ (runs σ sink)
          · rw [Report.after_on, ← goesFurther]
            exact Rolling.bind_ok _ _ _ _ _ (goesOn σ sink)
  | spent notices later used =>
      obtain ⟨outcome, roller, events⟩ := later
      have stops : ∀ (σ : Type) [Sink σ] (sink : σ), (short σ >>= next σ) ⟨.values given, sink⟩ =
          Report.on ⟨.error .exhausted, .values [], notices⟩ sink := fun σ _ sink =>
        Rolling.bind_error _ _ _ _ _ (runs σ sink)
      cases outcome with
      | error stop =>
          exact ⟨_, _, .spent notices ⟨.error stop, roller, events⟩ used, stops,
            fun σ _ sink => Rolling.bind_error _ _ _ _ _ (goesOn σ sink)⟩
      | ok a =>
          obtain ⟨report, _, runsOn⟩ := observed a roller
          refine ⟨_, _, .spent notices (report.after events) used, stops, fun σ _ sink => ?_⟩
          rw [Report.after_on, Report.after_on, ← runsOn, ← notify_all_append]
          exact Rolling.bind_ok _ _ _ _ _ (goesOn σ sink)

end

namespace Dice

variable {ε : Type}

theorem die_shortens (dice : Dice) (phase : Phase) (times : Nat) (given left : List UInt32) (value : UInt32)
    (rolled : dice.rollDie (ε := ε) phase times ⟨.values given, ()⟩ = .ok value ⟨.values left, ()⟩) :
    left.length < given.length := by
  have run := roll_die_run (ε := ε) dice phase times ⟨.values given, ()⟩
  rw [rolled] at run
  cases run with
  | accepted die _ _ passes =>
      obtain ⟨rest, used, same⟩ := passes_given dice given _ () _ _ passes
      cases same
      rw [used, Die.values, List.length_append, List.length_append, List.length_singleton]
      omega

theorem die_prolonged (dice : Dice) (phase : Phase) (given more : List UInt32) (times longer : Nat)
    (short : given.length < times) (long : given.length < longer) :
    Prolongs (ε := ε) given more (fun _ => dice.rollDie phase times) fun _ => dice.rollDie phase longer := by
  induction given generalizing times longer with
  | nil =>
      obtain ⟨times, rfl⟩ := Nat.exists_eq_add_one.2 short
      obtain ⟨report, _, runs⟩ := dice.die_observed (ε := ε) phase longer (.values more)
      exact ⟨_, _, .spent [] report rfl, fun _ _ _ => Rolling.bind_error _ _ _ _ _ rfl, runs⟩
  | cons value given ih =>
      obtain ⟨times, rfl⟩ := Nat.exists_eq_add_one.2 (Nat.zero_lt_of_lt short)
      obtain ⟨longer, rfl⟩ := Nat.exists_eq_add_one.2 (Nat.zero_lt_of_lt long)
      cases again : dice.rerolls value with
      | false =>
          have used : value :: given = fallen (eventsTold [.rolled ⟨phase.accepted, dice, value⟩]) ++ given := by
            cases phase <;> rfl
          exact ⟨_, _, .ended (.ok value) given [.rolled ⟨phase.accepted, dice, value⟩] used,
            fun _ _ _ => die_accepted dice phase times _ value _ rfl again,
            fun _ _ _ => die_accepted dice phase longer _ value _ rfl again⟩
      | true =>
          obtain ⟨first, second, prolonged, runs, goesOn⟩ :=
            ih times longer (Nat.lt_of_succ_lt_succ short) (Nat.lt_of_succ_lt_succ long)
          have whole := prolonged_after [.rolled ⟨phase.rerolled, dice, value⟩] given more first second prolonged
          have used : fallen (eventsTold [.rolled ⟨phase.rerolled, dice, value⟩]) ++ given = value :: given := by
            cases phase <;> rfl
          rw [used] at whole
          refine ⟨_, _, whole, fun σ _ sink => ?_, fun σ _ sink => ?_⟩
          · rw [Report.after_on, ← runs]
            exact die_again dice phase times ⟨.values (value :: given), sink⟩ value (.values given) rfl again
          · rw [Report.after_on, ← goesOn]
            exact die_again dice phase longer ⟨.values (value :: given ++ more), sink⟩ value
              (.values (given ++ more)) rfl again

theorem dice_prolonged (dice : Dice) (given more : List UInt32) (limit further number : Nat) (rolls : List UInt32)
    (short : given.length < limit) (long : given.length < further) :
    Prolongs (ε := ε) given more (fun _ => dice.rollDice limit number rolls)
      fun _ => dice.rollDice further number rolls := by
  induction number generalizing given rolls with
  | zero => exact prolongs_pure given more rolls
  | succ number ih =>
      simp only [rollDice]
      exact prolongs_bind _ given more _ _ _ _ (dice.die_prolonged .initial given more limit further short long)
        (fun value left within _ => ih left (value :: rolls) (Nat.lt_of_le_of_lt within.length_le short)
          (Nat.lt_of_le_of_lt within.length_le long))
        fun value roller => dice.dice_observed further number (value :: rolls) roller

theorem dropped_prolonged (dice : Dice) (given more values : List UInt32) :
    Prolongs (ε := ε) given more (fun _ => dice.tellDropped values) fun _ => dice.tellDropped values := by
  let told : List Notice := (values.map fun value => Event.mk .dropped dice value).map .rolled
  have nothing : fallen (eventsTold told) = [] := by
    rw [events_told_rolled]
    exact fallen_dropped dice values
  have runs : ∀ (σ : Type) [Sink σ] (sink : σ) (roller : Roller), dice.tellDropped (ε := ε) values ⟨roller, sink⟩ =
      .ok () ⟨roller, notifyAll sink told⟩ := by
    intro σ _ sink roller
    rw [drops_told, tell_all_notices]
  have used : given = fallen (eventsTold told) ++ given := by rw [nothing, List.nil_append]
  exact ⟨_, _, .ended (.ok ()) given told used, fun σ _ sink => runs σ sink _, fun σ _ sink => runs σ sink _⟩

theorem chain_prolonged (dice : Dice) (given more : List UInt32) (limit further times longer : Nat)
    (explosions : List UInt32) (short : given.length < limit) (long : given.length < further)
    (enough : given.length < times) (plenty : given.length < longer) :
    Prolongs (ε := ε) given more (fun _ => dice.rollChain limit times explosions)
      fun _ => dice.rollChain further longer explosions := by
  induction times generalizing given longer explosions with
  | zero => cases enough
  | succ times ih =>
      obtain ⟨longer, rfl⟩ := Nat.exists_eq_add_one.2 (Nat.zero_lt_of_lt plenty)
      simp only [rollChain]
      refine prolongs_bind Notice.IsRolled given more _ _ _ _
        (dice.die_prolonged .explosion given more limit further short long) (fun value left _ rolled => ?_)
        fun value roller => ?_
      · have fewer := dice.die_shortens .explosion limit given left value rolled
        cases explodes : dice.explodes value with
        | true =>
            exact ih left longer (value :: explosions) (Nat.lt_trans fewer short) (Nat.lt_trans fewer long)
              (by omega) (by omega)
        | false => exact prolongs_pure left more (value :: explosions)
      · cases explodes : dice.explodes value with
        | true => exact dice.chain_observed further longer (value :: explosions) roller
        | false => exact observed_pure _ roller (value :: explosions)

theorem chains_prolonged (dice : Dice) (given more : List UInt32) (limit further : Nat)
    (kept explosions : List UInt32) (short : given.length < limit) (long : given.length < further) :
    Prolongs (ε := ε) given more (fun _ => dice.rollChains limit kept explosions)
      fun _ => dice.rollChains further kept explosions := by
  induction kept generalizing given explosions with
  | nil => exact prolongs_pure given more explosions
  | cons value kept ih =>
      cases explodes : dice.explodes value with
      | true =>
          simp only [rollChains, explodes, if_true]
          exact prolongs_bind _ given more _ _ _ _
            (dice.chain_prolonged given more limit further limit further explosions short long short long)
            (fun explosions left within _ => ih left explosions (Nat.lt_of_le_of_lt within.length_le short)
              (Nat.lt_of_le_of_lt within.length_le long))
            fun explosions roller => dice.chains_observed further kept explosions roller
      | false =>
          simp only [rollChains, explodes, Bool.false_eq_true, if_false]
          exact ih given explosions short long

theorem kept_prolonged (dice : Dice) (given more : List UInt32) (limit further : Nat) (kept : List UInt32)
    (short : given.length < limit) (long : given.length < further) :
    Prolongs given more (fun _ => dice.rollKept limit kept) fun _ => dice.rollKept further kept := by
  simp only [rollKept]
  refine prolongs_bind Notice.IsRolled given more _ _ _ _
    (dice.chains_prolonged given more limit further kept [] short long) (fun explosions left _ _ => ?_)
    fun explosions last => ?_
  · cases dice.total? kept explosions with
    | none => exact prolongs_fail left more _
    | some total => exact prolongs_pure left more total
  · cases dice.total? kept explosions with
    | none => exact observed_stop _ last _
    | some total => exact observed_pure _ last total

theorem rolls_prolonged (dice : Dice) (given more : List UInt32) (limit further : Nat) (rolls : List UInt32)
    (short : given.length < limit) (long : given.length < further) :
    Prolongs given more (fun _ => dice.rollOn limit rolls) fun _ => dice.rollOn further rolls := by
  simp only [rollOn]
  exact prolongs_bind _ given more _ _ _ _ (dice.dropped_prolonged given more _)
    (fun _ left within _ => dice.kept_prolonged left more limit further _
      (Nat.lt_of_le_of_lt within.length_le short) (Nat.lt_of_le_of_lt within.length_le long))
    fun _ told => dice.kept_observed further _ told

theorem unchecked_prolonged (dice : Dice) (given more : List UInt32) :
    Prolongs given more (fun _ => dice.rollUnchecked) fun _ => dice.rollUnchecked := by
  have short : given.length < (Roller.values given).states := Nat.lt_succ_self _
  have long : given.length < (Roller.values (given ++ more)).states := by
    simp only [Roller.states, List.length_append]
    omega
  obtain ⟨first, second, prolonged, runs, goesOn⟩ := prolongs_bind _ given more _ _ _ _
    (dice.dice_prolonged given more _ _ dice.count.value.toNat [] short long)
    (fun rolls left within _ => dice.rolls_prolonged left more _ _ rolls
      (Nat.lt_of_le_of_lt within.length_le short) (Nat.lt_of_le_of_lt within.length_le long))
    fun rolls fallen => dice.rolls_observed _ rolls fallen
  exact ⟨first, second, prolonged, fun σ _ sink => (dice.roll_unchecked_limit _).trans (runs σ sink),
    fun σ _ sink => (dice.roll_unchecked_limit _).trans (goesOn σ sink)⟩

theorem roll_prolonged (dice : Dice) (given more : List UInt32) :
    Prolongs given more (fun _ => dice.roll) fun _ => dice.roll := by
  cases checked : dice.check with
  | error error =>
      have refused (values : List UInt32) : (Roller.values values).check dice = .error error := by
        rw [Roller.check, checked]
      exact ⟨_, _, .ended (.error error) given [] rfl, fun _ _ _ => roll_refused dice _ error (refused given),
        fun _ _ _ => roll_refused dice _ error (refused _)⟩
  | ok _ =>
      obtain ⟨first, second, prolonged, runs, goesOn⟩ := dice.unchecked_prolonged given more
      exact ⟨first, second, prolonged,
        fun σ _ sink => (roll_checked dice _ (check_given dice given checked)).trans (runs σ sink),
        fun σ _ sink => (roll_checked dice _ (check_given dice _ checked)).trans (goesOn σ sink)⟩

end Dice

end DiceRoll
