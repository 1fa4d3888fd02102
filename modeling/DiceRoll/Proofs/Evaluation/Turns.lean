import DiceRoll.Proofs.Evaluation.Checked
import DiceRoll.Proofs.Rolling.Fixed
import DiceRoll.Proofs.Rolling.Observed

set_option autoImplicit false

namespace DiceRoll

structure TermRecord where
  sign : Sign
  events : List Event
deriving DecidableEq, Repr

def TermRecord.notices (record : TermRecord) : List Notice :=
  .started record.sign :: record.events.map .rolled

def startsFrom (index : Nat) : List TermRecord → List TermStart
  | [] => []
  | record :: records => ⟨record.sign, index⟩ :: startsFrom (index + record.events.length) records

namespace Trace

def ofEvents (events : List Event) : Trace :=
  ⟨events.toArray, #[]⟩

def ofTerms (records : List TermRecord) : Trace :=
  ⟨(records.flatMap TermRecord.events).toArray, (startsFrom 0 records).toArray⟩

end Trace

structure TermRoll where
  term : Term
  total : Total
  events : List Event

namespace TermRoll

def record (roll : TermRoll) : TermRecord :=
  ⟨roll.term.sign, roll.events⟩

def signedTotal (roll : TermRoll) : Int :=
  roll.term.sign.exact roll.total.toInt

end TermRoll

def rollSum (rolls : List TermRoll) : Int :=
  (rolls.map TermRoll.signedTotal).sum

-- Terms rolled one after the other, each on its own and told to an empty trace.
inductive InTurn : Roller → List TermRoll → Roller → Prop where
  | nothing (roller : Roller) : InTurn roller [] roller
  | term (roller next last : Roller) (roll : TermRoll) (more : List TermRoll)
      (alone : roll.term.dice.roll ⟨roller, Trace.empty⟩ = .ok roll.total ⟨next, .ofEvents roll.events⟩)
      (rest : InTurn next more last) : InTurn roller (roll :: more) last

def Total.Fits (n : Int) : Prop :=
  least ≤ n ∧ n ≤ greatest

def SumsFit (sum : Int) (rolls : List TermRoll) : Prop :=
  ∀ before, before <+: rolls → Total.Fits (sum + rollSum before)

-- What can keep a term that is not refused from its total.
inductive Cause (dice : Dice) (roller : Roller) : Stop RollError → Prop where
  | overflow : Cause dice roller (.failed (.overflow dice.source))
  | exhausted (given : roller.kind = .given) : Cause dice roller .exhausted
  | endless (seeded : roller.kind = .seeded) : Cause dice roller .endless

structure TermStop (roller : Roller) (rolls : List TermRoll) (term : Term) (events : List Event) (middle after : Roller)
    (stop : Stop RollError) : Prop where
  turns : InTurn roller rolls middle
  alone : term.dice.roll ⟨middle, Trace.empty⟩ = .error stop ⟨after, .ofEvents events⟩
  cause : Cause term.dice roller stop

inductive EvalTurns (expr : Expression) (roller : Roller) :
    EStateM.Result (Stop EvalError) (Table Trace) Evaluation → Prop where
  | finished (rolls : List TermRoll) (after : Roller) (total : Total) (all : rolls.map TermRoll.term = expr.terms)
      (turns : InTurn roller rolls after) (fit : SumsFit 0 rolls)
      (exact_ : total.toInt = rollSum rolls + expr.adjustment.toInt) :
      EvalTurns expr roller
        (.ok ⟨expr, rolls.map TermRoll.total, total⟩ ⟨after, .ofTerms (rolls.map TermRoll.record)⟩)
  | adjusted (rolls : List TermRoll) (after : Roller) (all : rolls.map TermRoll.term = expr.terms)
      (turns : InTurn roller rolls after) (fit : SumsFit 0 rolls)
      (large : ¬Total.Fits (rollSum rolls + expr.adjustment.toInt)) :
      EvalTurns expr roller (.error (.failed (.overflow expr)) ⟨after, .ofTerms (rolls.map TermRoll.record)⟩)
  | sum (rolls : List TermRoll) (last : TermRoll) (later : List Term) (after : Roller)
      (split : expr.terms = (rolls ++ [last]).map TermRoll.term ++ later)
      (turns : InTurn roller (rolls ++ [last]) after) (fit : SumsFit 0 rolls)
      (large : ¬Total.Fits (rollSum (rolls ++ [last]))) :
      EvalTurns expr roller
        (.error (.failed (.overflow expr)) ⟨after, .ofTerms ((rolls ++ [last]).map TermRoll.record)⟩)
  | term (rolls : List TermRoll) (term : Term) (later : List Term) (events : List Event) (middle after : Roller)
      (stop : Stop RollError) (split : expr.terms = rolls.map TermRoll.term ++ term :: later) (fit : SumsFit 0 rolls)
      (stopped : TermStop roller rolls term events middle after stop) :
      EvalTurns expr roller (.error (stop.map (EvalError.dice term.dice))
        ⟨after, .ofTerms (rolls.map TermRoll.record ++ [⟨term.sign, events⟩])⟩)

theorem rolled_notices (notices : List Notice) (rolled : ∀ notice ∈ notices, notice.IsRolled) :
    (eventsTold notices).map .rolled = notices := by
  induction notices with
  | nil => rfl
  | cons notice notices ih =>
      obtain ⟨⟨event, rfl⟩, others⟩ := List.forall_mem_cons.1 rolled
      exact congrArg (List.cons (.rolled event)) (ih others)

theorem starts_told_rolled (index : Nat) (events : List Event) (later : List Notice) :
    startsTold index (events.map .rolled ++ later) = startsTold (index + events.length) later := by
  induction events generalizing index with
  | nil => rfl
  | cons event events ih =>
      change startsTold (index + 1) (events.map .rolled ++ later) = _
      rw [ih, List.length_cons, Nat.add_assoc, Nat.add_comm 1]

namespace Trace

theorem told_rolled (events : List Event) : notifyAll empty (events.map .rolled) = ofEvents events := by
  have starts := starts_told_rolled 0 events []
  rw [List.append_nil] at starts
  rw [notified, events_told_rolled]
  simp only [empty, Array.empty_append, Array.size_empty, starts]
  rfl

theorem starts_told_terms (index : Nat) (records : List TermRecord) :
    startsTold index (records.flatMap TermRecord.notices) = startsFrom index records := by
  induction records generalizing index with
  | nil => rfl
  | cons record records ih =>
      rw [List.flatMap_cons, startsFrom, ← ih, ← starts_told_rolled]
      rfl

theorem events_told_terms (records : List TermRecord) :
    eventsTold (records.flatMap TermRecord.notices) = records.flatMap TermRecord.events := by
  induction records with
  | nil => rfl
  | cons record records ih =>
      have here : eventsTold record.notices = record.events := events_told_rolled record.events
      rw [List.flatMap_cons, List.flatMap_cons, events_told_append, here, ih]

theorem told_terms (records : List TermRecord) :
    notifyAll empty (records.flatMap TermRecord.notices) = ofTerms records := by
  rw [notified, events_told_terms]
  simp only [empty, Array.empty_append, Array.size_empty, starts_told_terms]
  rfl

end Trace

theorem roll_sum_cons (roll : TermRoll) (rolls : List TermRoll) :
    rollSum (roll :: rolls) = roll.signedTotal + rollSum rolls :=
  List.sum_cons

theorem sums_fit_nil (sum : Total) : SumsFit sum.toInt [] := by
  intro before inside
  rw [List.prefix_nil.1 inside]
  exact ⟨(Int.add_zero _).symm ▸ sum.least_le, (Int.add_zero _).symm ▸ sum.le_greatest⟩

theorem sums_fit_cons (sum next : Total) (roll : TermRoll) (rolls : List TermRoll)
    (added : next.toInt = sum.toInt + roll.signedTotal) (fit : SumsFit next.toInt rolls) :
    SumsFit sum.toInt (roll :: rolls) := by
  intro before inside
  cases before with
  | nil => exact sums_fit_nil sum [] List.nil_prefix
  | cons first before =>
      obtain ⟨rfl, within⟩ := List.cons_prefix_cons.1 inside
      have rest := fit before within
      rw [added, Int.add_assoc] at rest
      exact rest

theorem not_fits (n : Int) (none : Total.ofInt? n = none) : ¬Total.Fits n := by
  rintro ⟨low, high⟩
  have outside := (Total.of_int_none_iff n).1 none
  omega

theorem Cause.back {dice : Dice} {roller next : Roller} {stop : Stop RollError} (same : next.kind = roller.kind)
    (cause : Cause dice next stop) : Cause dice roller stop := by
  cases cause with
  | overflow => exact .overflow
  | exhausted given => exact .exhausted (same.symm.trans given)
  | endless seeded => exact .endless (same.symm.trans seeded)

theorem roll_cause {σ : Type} [Sink σ] (dice : Dice) (table after : Table σ) (stop : Stop RollError)
    (checked : table.roller.check dice = .ok ()) (ran : dice.roll table = .error stop after) :
    Cause dice table.roller stop := by
  rcases roll_stop_cause dice table after stop checked ran with rfl | ⟨rfl, given⟩ | ⟨rfl, seeded⟩
  · exact .overflow
  · exact .exhausted given
  · exact .endless seeded

variable {σ : Type} [Sink σ]

def tableAfter (roller : Roller) (sink : σ) (records : List TermRecord) : Table σ :=
  ⟨roller, notifyAll sink (records.flatMap TermRecord.notices)⟩

theorem table_after_one (roller : Roller) (sink : σ) (record : TermRecord) :
    tableAfter roller sink [record] = ⟨roller, notifyAll sink record.notices⟩ := by
  rw [tableAfter, List.flatMap_singleton]

theorem table_after_cons (roller : Roller) (sink : σ) (record : TermRecord) (records : List TermRecord) :
    tableAfter roller sink (record :: records) = tableAfter roller (notifyAll sink record.notices) records := by
  rw [tableAfter, List.flatMap_cons, notify_all_append]
  rfl

inductive TurnsRun (expr : Expression) (roller : Roller) (sink : σ) (terms : List Term) (totals : List Total)
    (sum : Total) : EStateM.Result (Stop EvalError) (Table σ) (List Total × Total) → Prop where
  | finished (rolls : List TermRoll) (after : Roller) (last : Total) (all : rolls.map TermRoll.term = terms)
      (turns : InTurn roller rolls after) (fit : SumsFit sum.toInt rolls)
      (exact_ : last.toInt = sum.toInt + rollSum rolls) :
      TurnsRun expr roller sink terms totals sum
        (.ok ((rolls.map TermRoll.total).reverse ++ totals, last) (tableAfter after sink (rolls.map TermRoll.record)))
  | overflow (rolls : List TermRoll) (last : TermRoll) (later : List Term) (after : Roller)
      (split : terms = (rolls ++ [last]).map TermRoll.term ++ later) (turns : InTurn roller (rolls ++ [last]) after)
      (fit : SumsFit sum.toInt rolls) (large : ¬Total.Fits (sum.toInt + rollSum (rolls ++ [last]))) :
      TurnsRun expr roller sink terms totals sum
        (.error (.failed (.overflow expr)) (tableAfter after sink ((rolls ++ [last]).map TermRoll.record)))
  | stopped (rolls : List TermRoll) (term : Term) (later : List Term) (events : List Event) (middle after : Roller)
      (stop : Stop RollError) (split : terms = rolls.map TermRoll.term ++ term :: later) (fit : SumsFit sum.toInt rolls)
      (stopped : TermStop roller rolls term events middle after stop) :
      TurnsRun expr roller sink terms totals sum (.error (stop.map (EvalError.dice term.dice))
        (tableAfter after sink (rolls.map TermRoll.record ++ [⟨term.sign, events⟩])))

theorem turns_run_term (expr : Expression) (roller next : Roller) (sink : σ) (terms : List Term) (totals : List Total)
    (sum reached : Total) (roll : TermRoll) (result : EStateM.Result (Stop EvalError) (Table σ) (List Total × Total))
    (alone : roll.term.dice.roll ⟨roller, Trace.empty⟩ = .ok roll.total ⟨next, .ofEvents roll.events⟩)
    (kind : next.kind = roller.kind) (added : reached.toInt = sum.toInt + roll.signedTotal)
    (rest : TurnsRun expr next (notifyAll sink roll.record.notices) terms (roll.total :: totals) reached result) :
    TurnsRun expr roller sink (roll.term :: terms) totals sum result := by
  cases rest with
  | finished rolls after last all turns fit sums =>
      rw [← table_after_cons]
      have whole : TurnsRun expr roller sink (roll.term :: terms) totals sum
          (.ok (((roll :: rolls).map TermRoll.total).reverse ++ totals, last)
            (tableAfter after sink ((roll :: rolls).map TermRoll.record))) :=
        .finished (roll :: rolls) after last (congrArg (List.cons roll.term) all) (.term _ _ _ roll rolls alone turns)
          (sums_fit_cons sum reached roll rolls added fit) (by rw [sums, added, roll_sum_cons, Int.add_assoc])
      simpa only [List.map_cons, List.reverse_cons, List.append_assoc, List.singleton_append] using whole
  | overflow rolls last later after split turns fit large =>
      rw [← table_after_cons]
      refine .overflow (roll :: rolls) last later after (congrArg (List.cons roll.term) split)
        (.term _ _ _ roll _ alone turns) (sums_fit_cons sum reached roll rolls added fit) ?_
      rw [added, Int.add_assoc] at large
      rw [List.cons_append, roll_sum_cons]
      exact large
  | stopped rolls stopper later events middle after stop split fit stopped =>
      rw [← table_after_cons]
      exact .stopped (roll :: rolls) stopper later events middle after stop (congrArg (List.cons roll.term) split)
        (sums_fit_cons sum reached roll rolls added fit)
        ⟨.term _ _ _ roll rolls alone stopped.turns, stopped.alone, stopped.cause.back kind⟩

theorem turns_run_overflow (expr : Expression) (roller next : Roller) (sink : σ) (terms : List Term)
    (totals : List Total) (sum : Total) (roll : TermRoll)
    (alone : roll.term.dice.roll ⟨roller, Trace.empty⟩ = .ok roll.total ⟨next, .ofEvents roll.events⟩)
    (large : Total.ofInt? (sum.toInt + roll.signedTotal) = none) :
    TurnsRun expr roller sink (roll.term :: terms) totals sum
      (.error (.failed (.overflow expr)) ⟨next, notifyAll sink roll.record.notices⟩) := by
  have outside : ¬Total.Fits (sum.toInt + rollSum [roll]) := by
    rw [roll_sum_cons, rollSum, List.map_nil, List.sum_nil, Int.add_zero]
    exact not_fits _ large
  rw [← table_after_one]
  exact .overflow [] roll terms next rfl (.term _ _ _ roll [] alone (.nothing next)) (sums_fit_nil sum) outside

theorem turns_run_stopped (expr : Expression) (roller next : Roller) (sink : σ) (term : Term) (terms : List Term)
    (totals : List Total) (sum : Total) (events : List Event) (stop : Stop RollError)
    (checked : roller.check term.dice = .ok ())
    (alone : term.dice.roll ⟨roller, Trace.empty⟩ = .error stop ⟨next, .ofEvents events⟩) :
    TurnsRun expr roller sink (term :: terms) totals sum (.error (stop.map (EvalError.dice term.dice))
      ⟨next, notifyAll sink (TermRecord.notices ⟨term.sign, events⟩)⟩) := by
  have cause := roll_cause term.dice ⟨roller, Trace.empty⟩ _ stop checked alone
  rw [← table_after_one]
  exact .stopped [] term terms events roller next stop rfl (sums_fit_nil sum) ⟨.nothing roller, alone, cause⟩

theorem roll_terms_turns (expr : Expression) (roller : Roller) (sink : σ) (terms : List Term) (totals : List Total)
    (sum : Total) (checked : ∀ term ∈ terms, roller.check term.dice = .ok ()) :
    TurnsRun expr roller sink terms totals sum (expr.rollTerms terms totals sum ⟨roller, sink⟩) := by
  induction terms generalizing roller sink totals sum with
  | nil => exact .finished [] roller sum rfl (.nothing roller) (sums_fit_nil sum) (by simp [rollSum])
  | cons term terms ih =>
      obtain ⟨checkedHere, checkedLater⟩ := List.forall_mem_cons.1 checked
      obtain ⟨report, rolled, runs⟩ := term.dice.roll_observed roller
      have same := rolled_notices report.notices rolled
      -- The term has one report, for a trace of its own and for whoever is told of the others.
      have alone := runs Trace Trace.empty
      have here := runs σ (Sink.notify sink (.started term.sign))
      rw [Report.on, ← same, Trace.told_rolled] at alone
      rw [Report.on, ← same] at here
      cases outcome : report.outcome with
      | error stop =>
          simp only [outcome] at alone here
          rw [roll_terms_stopped expr term terms totals sum ⟨roller, sink⟩ _ stop here]
          exact turns_run_stopped expr roller report.roller sink term terms totals sum _ stop checkedHere alone
      | ok total =>
          simp only [outcome] at alone here
          obtain ⟨course, _, passes, fits⟩ := roll_total_course term.dice ⟨roller, Trace.empty⟩ _ total alone
          let roll : TermRoll := ⟨term, total, eventsTold report.notices⟩
          have nonneg := term.dice.total_nonneg _ _ _ fits
          rw [roll_terms_added expr term terms totals sum total ⟨roller, sink⟩ _ here nonneg]
          cases next : Total.ofInt? (sum.toInt + term.sign.exact total.toInt) with
          | none => exact turns_run_overflow expr roller report.roller sink terms totals sum roll alone next
          | some reached =>
              have kind : report.roller.kind = roller.kind := Roller.draws_kind _ _ _ _ _ passes.drawn
              have checks : ∀ later ∈ terms, report.roller.check later.dice = .ok () := fun later member =>
                (Roller.draws_check _ _ _ _ _ passes.drawn later.dice).trans (checkedLater later member)
              exact turns_run_term expr roller report.roller sink terms totals sum reached roll _ alone kind
                ((Total.of_int_some_iff _ reached).1 next)
                (ih report.roller (notifyAll sink roll.record.notices) (total :: totals) reached checks)

theorem unchecked_in_turns (expr : Expression) (roller : Roller)
    (checked : ∀ term ∈ expr.terms, roller.check term.dice = .ok ()) :
    EvalTurns expr roller (expr.evalUnchecked ⟨roller, Trace.empty⟩) := by
  have terms := roll_terms_turns expr roller Trace.empty expr.terms [] 0 checked
  rw [Expression.evalUnchecked]
  have zero := Total.to_int_zero
  generalize ran : expr.rollTerms expr.terms [] 0 ⟨roller, Trace.empty⟩ = result at terms
  cases terms with
  | finished rolls after last all turns fit sums =>
      rw [zero] at fit sums
      rw [Rolling.bind_ok _ _ _ _ _ ran]
      simp only [List.append_nil, List.reverse_reverse, Total.add?, tableAfter, Trace.told_terms]
      rw [Int.zero_add] at sums
      rw [sums]
      cases added : Total.ofInt? (rollSum rolls + expr.adjustment.toInt) with
      | none => exact .adjusted rolls after all turns fit (not_fits _ added)
      | some total => exact .finished rolls after total all turns fit ((Total.of_int_some_iff _ total).1 added)
  | overflow rolls last later after split turns fit large =>
      rw [zero] at fit large
      rw [Int.zero_add] at large
      rw [Rolling.bind_error _ _ _ _ _ ran, tableAfter, Trace.told_terms]
      exact .sum rolls last later after split turns fit large
  | stopped rolls term later events middle after stop split fit stopped =>
      rw [zero] at fit
      rw [Rolling.bind_error _ _ _ _ _ ran, tableAfter, Trace.told_terms]
      exact .term rolls term later events middle after stop split fit stopped

-- Each term is rolled as on its own, by the roller that the one before it has left.
theorem evaluation_in_turns (expr : Expression) (roller : Roller)
    (checked : ∀ term ∈ expr.terms, roller.check term.dice = .ok ()) :
    EvalTurns expr roller (expr.eval ⟨roller, Trace.empty⟩) := by
  rw [eval_checked expr ⟨roller, Trace.empty⟩ ((Expression.check_terms_ok_iff roller expr.terms).2 checked)]
  exact unchecked_in_turns expr roller checked

def halfOfRange (sign : Sign) : Term :=
  ⟨sign, ⟨⟨.one, ⟨4294967295, by decide⟩, 1, none, ⟨.high, 1⟩, none, 4294967295⟩, "d4294967295x4294967295"⟩⟩

-- Either of the two large terms fits, but not their sum, and so the last term is not rolled.
def twoHalves : Expression :=
  ⟨(halfOfRange .plus).dice, [halfOfRange .plus, ⟨.minus, ⟨⟨.one, 6, 1, none, ⟨.high, 1⟩, none, 1⟩, "d6"⟩⟩], 0⟩

theorem two_halves_in_turns :
    (∀ term ∈ twoHalves.terms, (Roller.values [2147483648, 2147483648, 3]).check term.dice = .ok ()) ∧
      EvalTurns twoHalves (.values [2147483648, 2147483648, 3])
        (.error (.failed (.overflow twoHalves))
          ⟨.values [3], .ofTerms (List.replicate 2 ⟨.plus, [⟨.initial, (halfOfRange .plus).dice, 2147483648⟩]⟩)⟩) := by
  have checked : ∀ term ∈ twoHalves.terms,
      (Roller.values [2147483648, 2147483648, 3]).check term.dice = .ok () := by
    simp [twoHalves, Expression.terms, halfOfRange, Roller.check, Dice.check, Dice.checkRerolls, Dice.checkExplosions,
      Roller.fixedValue]
  have ran : twoHalves.eval ⟨.values [2147483648, 2147483648, 3], Trace.empty⟩ =
      .error (.failed (.overflow twoHalves))
        ⟨.values [3], .ofTerms (List.replicate 2 ⟨.plus, [⟨.initial, (halfOfRange .plus).dice, 2147483648⟩]⟩)⟩ := by
    simp only [twoHalves, Expression.eval, Expression.evalUnchecked, Expression.terms, Expression.rollTerms,
      Dice.roll, Dice.rollUnchecked, sort_insertion]
    rfl
  exact ⟨checked, ran ▸ evaluation_in_turns twoHalves (.values [2147483648, 2147483648, 3]) checked⟩

end DiceRoll
