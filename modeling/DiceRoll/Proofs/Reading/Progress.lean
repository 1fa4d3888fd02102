import DiceRoll.Proofs.Reading.Automaton
import DiceRoll.Proofs.Reading.Placed

set_option autoImplicit false

namespace DiceRoll

def NoDigitAhead (text : List Char) : Prop :=
  ∀ c ∈ text.head?, c.isDigit = false

def Clean (problems : List Problem) : Prop :=
  ∀ problem ∈ problems, problem.fault = .oversized

-- The first unexpected place of a text, as far as its problems go.
structure Blames (state : ReadState) (text : List Char) (problems : List Problem) (place : List Char) : Prop where
  reached : ∃ last, Reach state text last place ∧ Faulty last place
  noted : ⟨.unexpected, place⟩ ∈ problems
  first : ∀ problem ∈ problems, problem.fault = .unexpected → problem.rest <:+ place

inductive Reads (state : ReadState) (text : List Char) (problems : List Problem) (rest : List Char)
    (fits : ReadState → Prop) : Prop where
  | on (last : ReadState) (clean : Clean problems) (reach : Reach state text last rest) (good : fits last) :
      Reads state text problems rest fits
  | off (place : List Char) (blames : Blames state text problems place) (left : rest <:+ place) :
      Reads state text problems rest fits

theorem blames_here (state : ReadState) (text : List Char) (faulty : Faulty state text) :
    Blames state text [⟨.unexpected, text⟩] text where
  reached := ⟨state, .here state text, faulty⟩
  noted := List.mem_singleton_self _
  first := List.forall_mem_singleton.2 fun _ => List.suffix_refl text

theorem blames_then (state : ReadState) (text place : List Char) (problems more : List Problem)
    (blames : Blames state text problems place) (inside : Inside more place) :
    Blames state text (problems ++ more) place where
  reached := blames.reached
  noted := List.mem_append_left _ blames.noted
  first := List.forall_mem_append.2 ⟨blames.first, fun problem member _ => inside problem member⟩

theorem blames_after (state middle : ReadState) (text between place : List Char) (problems more : List Problem)
    (clean : Clean problems) (reach : Reach state text middle between) (blames : Blames middle between more place) :
    Blames state text (problems ++ more) place where
  reached := by
    obtain ⟨last, further, faulty⟩ := blames.reached
    exact ⟨last, reach_trans state middle last text between place reach further, faulty⟩
  noted := List.mem_append_right _ blames.noted
  first := by
    refine List.forall_mem_append.2 ⟨fun problem member unexpected => ?_, blames.first⟩
    rw [clean problem member] at unexpected
    cases unexpected

theorem reads_then (state : ReadState) (text between rest : List Char) (problems more : List Problem)
    (fits good : ReadState → Prop) (first : Reads state text problems between fits) (inside : Inside more between)
    (left : rest <:+ between) (second : ∀ middle, fits middle → Reads middle between more rest good) :
    Reads state text (problems ++ more) rest good := by
  cases first with
  | off place blames before =>
      have further := inside_weaken more between place inside before
      exact .off place (blames_then state text place problems more blames further) (left.trans before)
  | on middle clean reach fitting =>
      cases second middle fitting with
      | on last cleanMore further fittingLast =>
          exact .on last (List.forall_mem_append.2 ⟨clean, cleanMore⟩)
            (reach_trans state middle last text between rest reach further) fittingLast
      | off place blames before =>
          exact .off place (blames_after state middle text between place problems more clean reach blames) before

theorem run_read (kind : Char → Bool) (state : ReadState)
    (goes : ∀ c, kind c = true → state.step (.char c) = some state) (text : List Char) :
    Reach state text state (text.dropWhile kind) := by
  induction text with
  | nil => exact .here state []
  | cons c text ih =>
      by_cases more : kind c = true
      · rw [List.dropWhile_cons_of_pos more]
        exact .next state state state (.char c) _ text _ (.char c text) (goes c more) ih
      · rw [List.dropWhile_cons_of_neg more]
        exact .here state _

theorem oversized_clean (text : List Char) (n : Nat) : Clean (oversizedAt text n) := by
  rw [oversizedAt]
  split
  · exact List.forall_mem_nil _
  · exact List.forall_mem_singleton.2 rfl

theorem number_read (state last : ReadState) (text : List Char) (scanned : Scanned Positive)
    (first : ∀ c, startsNumber c = true → state.step (.char c) = some last)
    (more : ∀ c, c.isDigit = true → last.step (.char c) = some last) (found : scanNumber text = some scanned) :
    Clean scanned.problems ∧ Reach state text last scanned.rest ∧ NoDigitAhead scanned.rest := by
  obtain ⟨c, rest, start, rfl, rfl⟩ := scan_number_found text scanned found
  have digits := run_read Char.isDigit last more rest
  exact ⟨oversized_clean _ _, .next state last last (.char c) _ rest _ (.char c rest) (first c start) digits,
    Notation.run_stops Char.isDigit rest⟩

theorem no_number (text : List Char) (none : scanNumber text = none) : ∀ c ∈ text.head?, startsNumber c = false := by
  intro c member
  cases text with
  | nil => cases member
  | cons first text =>
      cases member
      by_cases start : startsNumber c = true
      · rw [scanNumber, dif_pos start] at none
        cases none
      · exact Bool.eq_false_iff.2 start

theorem front_char (text more : List Char) (c : Char) (front : Front text (.char c) more) : c ∈ text.head? := by
  cases front
  rfl

theorem marker_letter (c : Char) (clause : Clause) (marks : marker (.char c) = some clause) :
    (c, clause) ∈ [('r', .reroll), ('h', .keep), ('l', .keep), ('!', .explosion), ('*', .multiply),
      ('x', .multiply)] := by
  unfold marker at marks
  split at marks <;> simp_all

theorem marker_plain (c : Char) (plain : c.isDigit = true ∨ isBlank c = true ∨ isSign c = true) :
    marker (.char c) = none := by
  cases marks : marker (.char c) with
  | none => rfl
  | some clause =>
      have letter := marker_letter c clause marks
      simp only [List.mem_cons, Prod.mk.injEq, List.not_mem_nil, or_false] at letter
      rcases letter with ⟨rfl, _⟩ | ⟨rfl, _⟩ | ⟨rfl, _⟩ | ⟨rfl, _⟩ | ⟨rfl, _⟩ | ⟨rfl, _⟩ <;>
        exact absurd plain (by decide)

def Between (symbol : Symbol) : Prop :=
  ∃ c, symbol = .char c ∧ (isBlank c = true ∨ isSign c = true)

-- A term up to one of its clauses has been read. Only later clauses may still come.
structure Waits (handled : Clause) (rest : List Char) (state : ReadState) : Prop where
  behind : ∃ clause digits, state = .after clause digits ∧ clause.rank ≤ handled.rank
  goes : ∀ symbol more next, Front rest symbol more → state.step symbol = some next →
    Between symbol ∨ ∃ later, marker symbol = some later ∧ handled.rank < later.rank

theorem step_marker (clause next : Clause) (digits : MoreDigits) (symbol : Symbol) (marks : marker symbol = some next) :
    (ReadState.after clause digits).step symbol = if clause.rank < next.rank then some next.entered else none := by
  simp only [ReadState.step, marks]

theorem step_plain (clause : Clause) (digits : MoreDigits) (c : Char) (marks : marker (.char c) = none) :
    (ReadState.after clause digits).step (.char c) =
      if digits.allows c then some (.after clause .more) else ReadState.between c := by
  simp only [ReadState.step, marks]

theorem between_goes (c : Char) (next : ReadState) (goes : ReadState.between c = some next) :
    isBlank c = true ∨ isSign c = true := by
  rw [ReadState.between] at goes
  by_cases blank : isBlank c = true
  · exact .inl blank
  · rw [if_neg blank] at goes
    by_cases sign : isSign c = true
    · exact .inr sign
    · rw [if_neg sign] at goes
      cases goes

theorem after_waits (clause : Clause) (digits : MoreDigits) (rest : List Char)
    (ends : ∀ c ∈ rest.head?, digits.allows c = false) : Waits clause rest (.after clause digits) where
  behind := ⟨clause, digits, rfl, Nat.le_refl _⟩
  goes := by
    intro symbol more next front steps
    cases marks : marker symbol with
    | some later =>
        rw [step_marker clause later digits symbol marks] at steps
        by_cases further : clause.rank < later.rank
        · exact .inr ⟨later, rfl, further⟩
        · rw [if_neg further] at steps
          cases steps
    | none =>
        cases symbol with
        | middleHigh => cases marks
        | middleLow => cases marks
        | char c =>
            rw [step_plain clause digits c marks, ends c (front_char rest more c front)] at steps
            exact .inl ⟨c, rfl, between_goes c next steps⟩

theorem rank_eq (a b : Clause) (same : a.rank = b.rank) : a = b := by
  cases a <;> cases b <;> first | rfl | cases same

theorem waits_on (handled next : Clause) (rest : List Char) (state : ReadState) (follows : next.rank = handled.rank + 1)
    (waits : Waits handled rest state)
    (absent : ∀ symbol more, Front rest symbol more → marker symbol ≠ some next) : Waits next rest state where
  behind := by
    obtain ⟨clause, digits, same, rank⟩ := waits.behind
    exact ⟨clause, digits, same, by omega⟩
  goes := by
    intro symbol more last front steps
    rcases waits.goes symbol more last front steps with between | ⟨later, marks, rank⟩
    · exact .inl between
    · have apart : later.rank ≠ next.rank := fun same => absent symbol more front (rank_eq later next same ▸ marks)
      exact .inr ⟨later, marks, by omega⟩

theorem waits_enters (handled next : Clause) (rest : List Char) (state : ReadState) (symbol : Symbol)
    (follows : next.rank = handled.rank + 1) (waits : Waits handled rest state) (marks : marker symbol = some next) :
    state.step symbol = some next.entered := by
  obtain ⟨clause, digits, rfl, rank⟩ := waits.behind
  rw [step_marker clause next digits symbol marks, if_pos (by omega)]

theorem needs_faulty (clause : Clause) (text : List Char) (number : ∀ c ∈ text.head?, startsNumber c = false)
    (percent : clause = .sides → ∀ c ∈ text.head?, c ≠ '%') : Faulty (.needs clause) text where
  early := fun _ => rfl
  unfit := by
    intro symbol more front
    cases symbol with
    | middleHigh => rfl
    | middleLow => rfl
    | char c =>
        have head := front_char text more c front
        have noPercent : ¬(clause = .sides ∧ c = '%') := fun both => percent both.1 c head both.2
        rw [ReadState.step, number c head, if_neg Bool.false_ne_true, if_neg noPercent]

theorem needs_first (clause : Clause) (c : Char) (start : startsNumber c = true) :
    (ReadState.needs clause).step (.char c) = some (.after clause .more) :=
  if_pos start

theorem after_more (clause : Clause) (c : Char) (digit : c.isDigit = true) :
    (ReadState.after clause .more).step (.char c) = some (.after clause .more) := by
  rw [step_plain clause .more c (marker_plain c (.inl digit))]
  exact if_pos digit

theorem explosion_first (c : Char) (start : startsNumber c = true) :
    (ReadState.after .explosion .first).step (.char c) = some (.after .explosion .more) := by
  rw [step_plain .explosion .first c (marker_plain c (.inl (start_digit c start)))]
  exact if_pos start

theorem required_read (clause : Clause) (text : List Char) (percent : clause = .sides → ∀ c ∈ text.head?, c ≠ '%') :
    Reads (.needs clause) text (Scanned.required scanNumber text).problems (Scanned.required scanNumber text).rest
      (Waits clause (Scanned.required scanNumber text).rest) := by
  rw [Scanned.required]
  cases found : scanNumber text with
  | none =>
      have faulty := needs_faulty clause text (no_number text found) percent
      exact .off text (blames_here _ text faulty) (List.suffix_refl text)
  | some scanned =>
      obtain ⟨clean, reach, noDigit⟩ := number_read (.needs clause) (.after clause .more) text scanned
        (needs_first clause) (after_more clause) found
      exact .on (.after clause .more) clean reach (after_waits clause .more scanned.rest noDigit)

theorem sides_read (text : List Char) :
    Reads (.needs .sides) text (Scanned.required scanSides text).problems (Scanned.required scanSides text).rest
      (Waits .sides (Scanned.required scanSides text).rest) := by
  by_cases percent : ∃ rest, text = '%' :: rest
  · obtain ⟨rest, rfl⟩ := percent
    exact .on (.after .sides .none) (List.forall_mem_nil _)
      (.next _ _ _ (.char '%') _ rest rest (.char '%' rest) rfl (.here _ rest))
      (after_waits .sides .none rest fun _ _ => rfl)
  · have noPercent : ∀ c ∈ text.head?, c ≠ '%' := by
      rintro c member rfl
      obtain ⟨rest, same⟩ := List.head?_eq_some_iff.1 member
      exact percent ⟨rest, same⟩
    have read := required_read .sides text fun _ => noPercent
    rw [Scanned.required] at read ⊢
    rw [scan_sides_number text percent]
    exact read

inductive ClauseScan (clause : Clause) (text : List Char) : List Problem → List Char → Prop where
  | absent (none : ∀ symbol more, Front text symbol more → marker symbol ≠ some clause) : ClauseScan clause text [] text
  | found (symbol : Symbol) (more rest : List Char) (problems : List Problem) (marks : marker symbol = some clause)
      (front : Front text symbol more) (reads : Reads clause.entered more problems rest (Waits clause rest)) :
      ClauseScan clause text problems rest

theorem clause_absent (clause : Clause) (text : List Char) (plain : clause ≠ .keep)
    (letter : ∀ c ∈ text.head?, marker (.char c) ≠ some clause) :
    ∀ symbol more, Front text symbol more → marker symbol ≠ some clause := by
  intro symbol more front marks
  cases symbol with
  | middleHigh => exact plain (Option.some.inj marks).symm
  | middleLow => exact plain (Option.some.inj marks).symm
  | char c => exact letter c (front_char text more c front) marks

theorem clause_read (handled clause : Clause) (text rest : List Char) (problems : List Problem) (state : ReadState)
    (follows : clause.rank = handled.rank + 1) (waits : Waits handled text state)
    (scan : ClauseScan clause text problems rest) : Reads state text problems rest (Waits clause rest) := by
  cases scan with
  | absent none =>
      exact .on state (List.forall_mem_nil _) (.here state text) (waits_on handled clause text state follows waits none)
  | found symbol more _ _ marks front reads =>
      have enters := waits_enters handled clause text state symbol follows waits marks
      have marked : Reach state text clause.entered more :=
        .next state clause.entered clause.entered symbol text more more front enters (.here _ more)
      cases reads with
      | on last clean reach good => exact .on last clean (reach_trans _ _ _ _ _ _ marked reach) good
      | off place blames left =>
          exact .off place (blames_after _ _ text more place [] problems (List.forall_mem_nil _) marked blames) left

theorem clause_then (first : ReadState) (text between rest : List Char) (problems more : List Problem)
    (handled clause : Clause) (before : Reads first text problems between (Waits handled between))
    (follows : clause.rank = handled.rank + 1) (placed : AllPlaced between more) (left : rest <:+ between)
    (scan : ClauseScan clause between more rest) : Reads first text (problems ++ more) rest (Waits clause rest) :=
  reads_then first text between rest problems more _ _ before (all_placed_inside between more placed) left
    fun middle waits => clause_read handled clause between rest more middle follows waits scan

end DiceRoll
