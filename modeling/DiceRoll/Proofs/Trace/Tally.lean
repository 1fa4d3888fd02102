import DiceRoll.Proofs.Rolling.Table
import DiceRoll.Trace

set_option autoImplicit false

namespace DiceRoll

def notifyAll {σ : Type} [Sink σ] (sink : σ) (notices : List Notice) : σ :=
  notices.foldl Sink.notify sink

def eventsTold : List Notice → List Event
  | [] => []
  | .started _ :: notices => eventsTold notices
  | .rolled event :: notices => event :: eventsTold notices

-- The starts among notices, the first of which follows this many events.
def startsTold (index : Nat) : List Notice → List TermStart
  | [] => []
  | .started sign :: notices => ⟨sign, index⟩ :: startsTold index notices
  | .rolled _ :: notices => startsTold (index + 1) notices

theorem notify_all_append {σ : Type} [Sink σ] (sink : σ) (notices more : List Notice) :
    notifyAll sink (notices ++ more) = notifyAll (notifyAll sink notices) more :=
  List.foldl_append

theorem tell_all_notices {σ : Type} [Sink σ] (sink : σ) (events : List Event) :
    tellAll sink events = notifyAll sink (events.map .rolled) :=
  List.foldl_map.symm

theorem events_told_append (notices later : List Notice) :
    eventsTold (notices ++ later) = eventsTold notices ++ eventsTold later := by
  induction notices with
  | nil => rfl
  | cons notice notices ih =>
      cases notice with
      | started sign => exact ih
      | rolled event => exact congrArg (List.cons event) ih

theorem events_told_rolled (events : List Event) : eventsTold (events.map .rolled) = events := by
  induction events with
  | nil => rfl
  | cons event events ih => simp [eventsTold, ih]

theorem starts_told_later (index : Nat) (notices : List Notice) :
    ∀ start ∈ startsTold index notices, index ≤ start.index := by
  induction notices generalizing index with
  | nil => nofun
  | cons notice notices ih =>
      cases notice with
      | started sign => exact List.forall_mem_cons.2 ⟨Nat.le_refl index, ih index⟩
      | rolled event => exact fun start member => Nat.le_of_succ_le (ih (index + 1) start member)

theorem starts_told_until (index : Nat) (notices : List Notice) :
    ∀ start ∈ startsTold index notices, start.index ≤ index + (eventsTold notices).length := by
  induction notices generalizing index with
  | nil => nofun
  | cons notice notices ih =>
      cases notice with
      | started sign => exact List.forall_mem_cons.2 ⟨Nat.le_add_right index _, ih index⟩
      | rolled event =>
          intro start member
          have upper := ih (index + 1) start member
          rwa [Nat.add_assoc, Nat.add_comm 1] at upper

theorem starts_told_append (index : Nat) (notices later : List Notice) :
    startsTold index (notices ++ later) =
      startsTold index notices ++ startsTold (index + (eventsTold notices).length) later := by
  induction notices generalizing index with
  | nil => rfl
  | cons notice notices ih =>
      cases notice with
      | started sign => exact congrArg (List.cons ⟨sign, index⟩) (ih index)
      | rolled event =>
          have rest := ih (index + 1)
          rw [Nat.add_assoc, Nat.add_comm 1] at rest
          exact rest

namespace Trace

theorem notified (trace : Trace) (notices : List Notice) :
    notifyAll trace notices =
      ⟨trace.events ++ (eventsTold notices).toArray, trace.starts ++ (startsTold trace.events.size notices).toArray⟩ := by
  induction notices generalizing trace with
  | nil => simp [notifyAll, eventsTold, startsTold]
  | cons notice notices ih =>
      cases notice with
      | started sign =>
          change notifyAll (trace.start sign) notices = _
          rw [ih]
          simp [start, eventsTold, startsTold]
      | rolled event =>
          change notifyAll (trace.record event) notices = _
          rw [ih]
          simp [record, eventsTold, startsTold]

theorem told_events (notices : List Notice) : (notifyAll empty notices).events.toList = eventsTold notices := by
  rw [notified]
  simp [empty]

def tally? : Sign → Total → List Notice → Option Total
  | _, sum, [] => some sum
  | _, sum, .started sign :: notices => tally? sign sum notices
  | sign, sum, .rolled event :: notices => (addEvent? sign sum event).bind fun sum => tally? sign sum notices

theorem pass_later (index : Nat) (sign : Sign) (starts : List TermStart)
    (later : ∀ start ∈ starts, index < start.index) : passStarts index sign starts = (sign, starts) := by
  cases starts with
  | nil => rfl
  | cons start starts =>
      have first := later start (by simp)
      rw [passStarts, if_neg (by omega)]

theorem total_from_started (index : Nat) (old sign : Sign) (starts : List TermStart) (sum : Total)
    (events : List Event) :
    totalFrom? index old (⟨sign, index⟩ :: starts) sum events = totalFrom? index sign starts sum events := by
  cases events with
  | nil => rfl
  | cons event events => simp only [totalFrom?, passStarts, Nat.le_refl, if_true]

theorem total_from_told (index : Nat) (sign : Sign) (sum : Total) (notices : List Notice) :
    totalFrom? index sign (startsTold index notices) sum (eventsTold notices) = tally? sign sum notices := by
  induction notices generalizing index sign sum with
  | nil => rfl
  | cons notice notices ih =>
      cases notice with
      | started next =>
          rw [startsTold, eventsTold, total_from_started, ih]
          rfl
      | rolled event =>
          have later := pass_later index sign (startsTold (index + 1) notices)
            (starts_told_later (index + 1) notices)
          rw [startsTold, eventsTold, totalFrom?, later]
          exact congrArg (Option.bind _) (funext fun sum => ih (index + 1) sign sum)

theorem total_told (notices : List Notice) : (notifyAll empty notices).total? = tally? .plus 0 notices := by
  have told := notified empty notices
  simp only [empty, Array.empty_append, Array.size_empty] at told
  rw [empty, told, total?]
  exact total_from_told 0 .plus 0 notices

end Trace

end DiceRoll
