set_option autoImplicit false

namespace DiceRoll

-- Every step adds an odd number, so that the states come in one cycle through all of them.
structure Generator where
  state : UInt64
deriving DecidableEq, Repr

namespace Generator

def increment : UInt64 := 0x2d358dccaa6c78a5

def mask : UInt64 := 0x8bb84b93962eacc9

def stateCount : Nat := 18446744073709551616

def wordCount : Nat := 4294967296

-- The random word of a state: the halves of its product with its masked self, one on top of the other.
def mix (state : UInt64) : UInt64 :=
  let product := state.toNat * (state ^^^ mask).toNat
  UInt64.ofNat product ^^^ UInt64.ofNat (product / stateCount)

def word (state : UInt64) : Nat :=
  (mix state).toNat % wordCount

def scale (bound : UInt32) (word : Nat) : UInt32 :=
  UInt32.ofNat (word * bound.toNat / wordCount)

-- Without the products that leave less than this, every result below the bound has the same number of words.
def excess (bound : Nat) : Nat :=
  (wordCount - bound) % bound

def rejects (bound word : Nat) : Prop :=
  word * bound % wordCount < excess bound

instance (bound word : Nat) : Decidable (rejects bound word) :=
  inferInstanceAs (Decidable (_ < _))

-- A state whose word is 1, which no bound rejects.
def haven : UInt64 := 2713328213

def inverse : UInt64 := 3666594518771085101

def distance (state : UInt64) : Nat :=
  ((haven - state) * inverse).toNat

theorem word_haven : word haven = 1 := by
  decide +kernel

theorem word_lt (state : UInt64) : word state < wordCount :=
  Nat.mod_lt _ (by decide)

theorem not_rejects_one (bound : Nat) (pos : 0 < bound) (fits : bound < wordCount) : ¬rejects bound 1 := by
  unfold rejects excess
  rw [Nat.one_mul, Nat.mod_eq_of_lt fits]
  have := Nat.mod_lt (wordCount - bound) pos
  omega

theorem distance_step (state : UInt64) (away : state ≠ haven) :
    distance (state + increment) < distance state := by
  unfold distance
  have step : (haven - (state + increment)) * inverse = (haven - state) * inverse - 1 := by
    unfold increment inverse
    grind
  have back : (haven - state) * inverse * increment = haven - state := by
    unfold increment inverse
    grind
  have apart : (haven - state) * inverse ≠ 0 := by
    intro zero
    rw [zero] at back
    grind
  generalize (haven - state) * inverse = steps at step apart
  have positive : 1 ≤ steps.toNat := by
    have : steps.toNat ≠ 0 := fun zero => apart (UInt64.toNat_inj.1 zero)
    omega
  rw [step, UInt64.toNat_sub_of_le steps 1 (UInt64.le_iff_toNat_le.2 positive)]
  exact Nat.sub_lt positive (by decide)

theorem scale_lt (bound : UInt32) (pos : 0 < bound) (word : Nat) (small : word < wordCount) :
    scale bound word < bound := by
  have positive : 0 < bound.toNat := UInt32.lt_iff_toNat_lt.1 pos
  have below : word * bound.toNat / wordCount < bound.toNat := by
    rw [Nat.div_lt_iff_lt_mul (by decide), Nat.mul_comm]
    exact Nat.mul_lt_mul_of_pos_left small positive
  rw [scale, UInt32.lt_iff_toNat_lt, UInt32.toNat_ofNat_of_lt' (Nat.lt_trans below bound.toNat_lt)]
  exact below

def settle (bound : UInt32) (pos : 0 < bound) (state : UInt64) : UInt64 :=
  if _rejected : rejects bound.toNat (word state) then settle bound pos (state + increment)
  else state
termination_by distance state
decreasing_by
  apply distance_step
  intro here
  subst here
  rw [word_haven] at _rejected
  exact not_rejects_one bound.toNat pos bound.toNat_lt _rejected

theorem settle_passes (bound : UInt32) (pos : 0 < bound) (state : UInt64)
    (passes : ¬rejects bound.toNat (word state)) : settle bound pos state = state := by
  unfold settle
  exact dif_neg passes

def below (bound : UInt32) (pos : 0 < bound) (generator : Generator) : UInt32 × Generator :=
  let state := settle bound pos (generator.state + increment)
  (scale bound (word state), ⟨state⟩)

theorem below_lt (bound : UInt32) (pos : 0 < bound) (generator : Generator) :
    (below bound pos generator).1 < bound :=
  scale_lt bound pos _ (word_lt _)

end Generator

end DiceRoll
