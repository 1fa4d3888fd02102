import DiceRoll.Evaluation
import DiceRoll.Proofs.Rolling.Checked
import DiceRoll.Proofs.Trace.Course

set_option autoImplicit false

namespace DiceRoll

structure RolledTerm where
  term : Term
  course : Course
  total : Total

namespace RolledTerm

structure Counts (rolled : RolledTerm) : Prop where
  follows : rolled.course.Follows rolled.term.dice
  fits : rolled.term.dice.total? (rolled.course.kept rolled.term.dice) rolled.course.explosions = some rolled.total

def signedTotal (rolled : RolledTerm) : Int :=
  rolled.term.sign.exact rolled.total.toInt

def events (rolled : RolledTerm) : List Event :=
  rolled.course.events rolled.term.dice

def notices (rolled : RolledTerm) : List Notice :=
  .started rolled.term.sign :: rolled.events.map .rolled

end RolledTerm

def signedSum (rolled : List RolledTerm) : Int :=
  (rolled.map RolledTerm.signedTotal).sum

def termNotices (rolled : List RolledTerm) : List Notice :=
  rolled.flatMap RolledTerm.notices

variable {σ : Type} [Sink σ]

def Table.starts (table : Table σ) (sign : Sign) : Table σ :=
  ⟨table.roller, Sink.notify table.sink (.started sign)⟩

def RolledTerm.Passes (rolled : RolledTerm) (before after : Table σ) : Prop :=
  DiceRoll.Passes rolled.term.dice (before.starts rolled.term.sign) rolled.course.values rolled.events after

inductive TermsPass : Table σ → Total → List RolledTerm → Table σ → Total → Prop where
  | nothing (table : Table σ) (sum : Total) : TermsPass table sum [] table sum
  | term (table middle after : Table σ) (sum next last : Total) (rolled : RolledTerm) (more : List RolledTerm)
      (counts : rolled.Counts) (passes : rolled.Passes table middle)
      (added : next.toInt = sum.toInt + rolled.signedTotal) (rest : TermsPass middle next more after last) :
      TermsPass table sum (rolled :: more) after last

theorem terms_pass_sum (table after : Table σ) (sum last : Total) (rolled : List RolledTerm)
    (passes : TermsPass table sum rolled after last) : last.toInt = sum.toInt + signedSum rolled := by
  induction passes with
  | nothing => simp [signedSum]
  | term table middle after sum next last rolled more counts passes added rest ih =>
      have split : signedSum (rolled :: more) = rolled.signedTotal + signedSum more := by simp [signedSum]
      rw [ih, added, split, Int.add_assoc]

theorem terms_pass_told (table after : Table σ) (sum last : Total) (rolled : List RolledTerm)
    (passes : TermsPass table sum rolled after last) : after.sink = notifyAll table.sink (termNotices rolled) := by
  induction passes with
  | nothing => rfl
  | term table middle after sum next last rolled more counts passes added rest ih =>
      have first : middle.sink = notifyAll table.sink rolled.notices := by
        rw [passes.told, tell_all_notices]
        rfl
      change after.sink = notifyAll table.sink (rolled.notices ++ termNotices more)
      rw [ih, first, notify_all_append]

theorem terms_pass_check (table after : Table σ) (sum last : Total) (rolled : List RolledTerm)
    (passes : TermsPass table sum rolled after last) (dice : Dice) :
    after.roller.check dice = table.roller.check dice := by
  induction passes with
  | nothing => rfl
  | term table middle after sum next last rolled more counts passes added rest ih =>
      rw [ih]
      exact Roller.draws_check _ _ _ _ _ passes.drawn dice

theorem terms_pass_counts (table after : Table σ) (sum last : Total) (rolled : List RolledTerm)
    (passes : TermsPass table sum rolled after last) : ∀ each ∈ rolled, each.Counts := by
  induction passes with
  | nothing => exact List.forall_mem_nil _
  | term table middle after sum next last rolled more counts passes added rest ih =>
      exact List.forall_mem_cons.2 ⟨counts, ih⟩

-- The sum does not fit once the last of the terms is added.
structure SumOverflow (before : List RolledTerm) (last : RolledTerm) (table middle after : Table σ)
    (sum reached : Total) : Prop where
  passed : TermsPass table sum before middle reached
  counts : last.Counts
  passes : last.Passes middle after
  large : Total.ofInt? (reached.toInt + last.signedTotal) = none

inductive TermsRun (expr : Expression) (table : Table σ) (terms : List Term) (totals : List Total) (sum : Total) :
    EStateM.Result (Stop EvalError) (Table σ) (List Total × Total) → Prop where
  | finished (rolled : List RolledTerm) (after : Table σ) (last : Total) (all : rolled.map RolledTerm.term = terms)
      (passed : TermsPass table sum rolled after last) :
      TermsRun expr table terms totals sum (.ok ((rolled.map RolledTerm.total).reverse ++ totals, last) after)
  | stopped (rolled : List RolledTerm) (term : Term) (later : List Term) (middle after : Table σ) (reached : Total)
      (stop : Stop RollError) (split : terms = rolled.map RolledTerm.term ++ term :: later)
      (passed : TermsPass table sum rolled middle reached)
      (run : term.dice.roll (middle.starts term.sign) = .error stop after) :
      TermsRun expr table terms totals sum (.error (stop.map (EvalError.dice term.dice)) after)
  | overflow (rolled : List RolledTerm) (last : RolledTerm) (later : List Term) (middle after : Table σ)
      (reached : Total) (split : terms = rolled.map RolledTerm.term ++ last.term :: later)
      (overflows : SumOverflow rolled last table middle after sum reached) :
      TermsRun expr table terms totals sum (.error (.failed (.overflow expr)) after)

-- A total that is not negative has its negative, so only the sum may fail to fit.
theorem add_signed_exact (sign : Sign) (value sum : Total) (nonneg : 0 ≤ value.toInt) :
    (sign.signed? value).bind sum.add? = Total.ofInt? (sum.toInt + sign.exact value.toInt) := by
  have most := Total.le_greatest value
  have fits := sign.exact_fits value.toInt.toNat (by omega)
  rw [Int.toNat_of_nonneg nonneg] at fits
  obtain ⟨signed, applied, exact_⟩ := Total.of_int_fits _ fits.1 fits.2
  rw [sign.signed_exact, applied, Option.bind_some, Total.add?, exact_]

theorem roll_terms_stopped (expr : Expression) (term : Term) (terms : List Term) (totals : List Total) (sum : Total)
    (table after : Table σ) (stop : Stop RollError)
    (run : term.dice.roll (table.starts term.sign) = .error stop after) :
    expr.rollTerms (term :: terms) totals sum table = .error (stop.map (EvalError.dice term.dice)) after := by
  have told : Rolling.tell (ε := EvalError) (.started term.sign) table = .ok () (table.starts term.sign) := rfl
  rw [Expression.rollTerms, Rolling.bind_ok _ _ _ _ _ told,
    Rolling.bind_error _ _ _ _ _ (Rolling.map_error_stopped _ _ _ _ _ run)]

theorem roll_terms_added (expr : Expression) (term : Term) (terms : List Term) (totals : List Total) (sum value : Total)
    (table middle : Table σ) (run : term.dice.roll (table.starts term.sign) = .ok value middle)
    (nonneg : 0 ≤ value.toInt) :
    expr.rollTerms (term :: terms) totals sum table =
      match Total.ofInt? (sum.toInt + term.sign.exact value.toInt) with
      | none => .error (.failed (.overflow expr)) middle
      | some next => expr.rollTerms terms (value :: totals) next middle := by
  have told : Rolling.tell (ε := EvalError) (.started term.sign) table = .ok () (table.starts term.sign) := rfl
  rw [Expression.rollTerms, Rolling.bind_ok _ _ _ _ _ told,
    Rolling.bind_ok _ _ _ _ _ (Rolling.map_error_ok _ _ _ _ _ run), add_signed_exact term.sign value sum nonneg]
  cases Total.ofInt? (sum.toInt + term.sign.exact value.toInt) with
  | none => rfl
  | some next => rfl

theorem roll_terms_run (expr : Expression) (table : Table σ) (terms : List Term) (totals : List Total) (sum : Total) :
    TermsRun expr table terms totals sum (expr.rollTerms terms totals sum table) := by
  induction terms generalizing table totals sum with
  | nil => exact .finished [] table sum rfl (.nothing table sum)
  | cons term terms ih =>
      cases run : term.dice.roll (table.starts term.sign) with
      | error stop after =>
          rw [roll_terms_stopped expr term terms totals sum table after stop run]
          exact .stopped [] term terms table after sum stop rfl (.nothing table sum) run
      | ok value middle =>
          obtain ⟨course, follows, passes, fits⟩ := roll_total_course term.dice _ middle value run
          have counts : RolledTerm.Counts ⟨term, course, value⟩ := ⟨follows, fits⟩
          rw [roll_terms_added expr term terms totals sum value table middle run (term.dice.total_nonneg _ _ _ fits)]
          cases next : Total.ofInt? (sum.toInt + term.sign.exact value.toInt) with
          | none =>
              exact .overflow [] ⟨term, course, value⟩ terms table middle sum rfl
                ⟨.nothing table sum, counts, passes, next⟩
          | some reached =>
              have exact_ := (Total.of_int_some_iff _ reached).1 next
              have rest := ih middle (value :: totals) reached
              change TermsRun expr table (term :: terms) totals sum
                (expr.rollTerms terms (value :: totals) reached middle)
              generalize expr.rollTerms terms (value :: totals) reached middle = result at rest ⊢
              cases rest with
              | finished rolled after last all passed =>
                  have whole : TermsRun expr table (term :: terms) totals sum
                      (.ok (((⟨term, course, value⟩ :: rolled).map RolledTerm.total).reverse ++ totals, last) after) :=
                    .finished (⟨term, course, value⟩ :: rolled) after last (congrArg (List.cons term) all)
                      (.term table middle after sum reached last _ rolled counts passes exact_ passed)
                  simpa only [List.map_cons, List.reverse_cons, List.append_assoc, List.singleton_append] using whole
              | stopped rolled stopper later between after final stop split passed run =>
                  exact .stopped (⟨term, course, value⟩ :: rolled) stopper later between after final stop
                    (congrArg (List.cons term) split)
                    (.term table middle between sum reached final _ rolled counts passes exact_ passed) run
              | overflow rolled last later between after final split overflows =>
                  exact .overflow (⟨term, course, value⟩ :: rolled) last later between after final
                    (congrArg (List.cons term) split)
                    ⟨.term table middle between sum reached final _ rolled counts passes exact_ overflows.passed,
                      overflows.counts, overflows.passes, overflows.large⟩

end DiceRoll
