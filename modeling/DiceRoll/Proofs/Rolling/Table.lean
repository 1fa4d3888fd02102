import DiceRoll.Roll

set_option autoImplicit false

namespace DiceRoll

namespace Rolling

variable {σ ε α β : Type}

theorem bind_ok (first : Rolling σ ε α) (next : α → Rolling σ ε β) (table middle : Table σ) (a : α)
    (run : first table = .ok a middle) : (first >>= next) table = next a middle := by
  change EStateM.bind first next table = _
  simp only [EStateM.bind, run]

theorem bind_error (first : Rolling σ ε α) (next : α → Rolling σ ε β) (table middle : Table σ) (stop : Stop ε)
    (run : first table = .error stop middle) : (first >>= next) table = .error stop middle := by
  change EStateM.bind first next table = _
  simp only [EStateM.bind, run]

theorem map_error_ok {ε' : Type} (f : ε → ε') (rolling : Rolling σ ε α) (table after : Table σ) (a : α)
    (run : rolling table = .ok a after) : rolling.mapError f table = .ok a after := by
  rw [mapError, run]

theorem map_error_stopped {ε' : Type} (f : ε → ε') (rolling : Rolling σ ε α) (table after : Table σ) (stop : Stop ε)
    (run : rolling table = .error stop after) : rolling.mapError f table = .error (stop.map f) after := by
  rw [mapError, run]

end Rolling

inductive Draws (base : Base) (sides : UInt32) : Roller → List UInt32 → Roller → Prop where
  | nothing (roller : Roller) : Draws base sides roller [] roller
  | value (roller next last : Roller) (value : UInt32) (values : List UInt32)
      (drawn : roller.draw base sides = some (value, next)) (rest : Draws base sides next values last) :
      Draws base sides roller (value :: values) last

theorem draws_append (base : Base) (sides : UInt32) (roller middle last : Roller) (values more : List UInt32)
    (first : Draws base sides roller values middle) (second : Draws base sides middle more last) :
    Draws base sides roller (values ++ more) last := by
  induction first with
  | nothing => exact second
  | value roller next _ value values drawn _ ih => exact .value roller next last value _ drawn (ih second)

theorem draws_given (base : Base) (sides : UInt32) (given values : List UInt32) (last : Roller)
    (draws : Draws base sides (.values given) values last) :
    ∃ left, given = values ++ left ∧ last = .values left := by
  induction values generalizing given with
  | nil =>
      cases draws
      exact ⟨given, rfl, rfl⟩
  | cons value values ih =>
      cases draws with
      | value _ next _ _ _ drawn rest =>
          cases given with
          | nil => cases drawn
          | cons first given =>
              simp only [Roller.draw, Option.some.injEq, Prod.mk.injEq] at drawn
              obtain ⟨rfl, rfl⟩ := drawn
              obtain ⟨left, split, final⟩ := ih given rest
              exact ⟨left, by rw [split]; rfl, final⟩

section

variable {σ : Type} [Sink σ]

def tellAll (sink : σ) (events : List Event) : σ :=
  events.foldl (fun sink event => Sink.notify sink (.rolled event)) sink

theorem tell_all_append (sink : σ) (events more : List Event) :
    tellAll sink (events ++ more) = tellAll (tellAll sink events) more :=
  List.foldl_append

def Table.tell (table : Table σ) (roller : Roller) (event : Event) : Table σ :=
  ⟨roller, Sink.notify table.sink (.rolled event)⟩

-- From one table to another, dice of a term show these values, and an observer is told of these events.
structure Passes (dice : Dice) (before : Table σ) (values : List UInt32) (events : List Event) (after : Table σ) :
    Prop where
  drawn : Draws dice.base dice.sides.value before.roller values after.roller
  told : after.sink = tellAll before.sink events

theorem passes_nothing (dice : Dice) (table : Table σ) : Passes dice table [] [] table :=
  ⟨.nothing table.roller, rfl⟩

theorem passes_append (dice : Dice) (before middle after : Table σ) (values more : List UInt32)
    (events later : List Event) (first : Passes dice before values events middle)
    (second : Passes dice middle more later after) :
    Passes dice before (values ++ more) (events ++ later) after :=
  ⟨draws_append _ _ _ _ _ _ _ first.drawn second.drawn, by rw [second.told, first.told, tell_all_append]⟩

theorem passes_event (dice : Dice) (table : Table σ) (event : Event) :
    Passes dice table [] [event] (table.tell table.roller event) :=
  ⟨.nothing table.roller, rfl⟩

theorem passes_attempt (dice : Dice) (table : Table σ) (roller : Roller) (value : UInt32) (event : Event)
    (drawn : table.roller.draw dice.base dice.sides.value = some (value, roller)) :
    Passes dice table [value] [event] (table.tell roller event) :=
  ⟨.value _ _ _ _ _ drawn (.nothing roller), rfl⟩

end

end DiceRoll
