import DiceRoll.Proofs.Rolling.Die

set_option autoImplicit false

namespace DiceRoll

-- Every die of a chain but the last explodes, and the last does not.
structure Chain (dice : Dice) (chain : List Die) : Prop where
  obeys : ∀ die ∈ chain, die.Obeys dice
  ends : ∃ before last, chain = before ++ [last] ∧ (∀ die ∈ before, dice.explodes die.accepted = true) ∧
    dice.explodes last.accepted = false

variable {σ ε : Type} [Sink σ]

structure OpenChain (dice : Dice) (limit : Nat) (table : Table σ) (chains : List (List Die)) (dies : List Die)
    (rerolled : List UInt32) (after : Table σ) (stop : Stop ε) : Prop where
  closed : ∀ chain ∈ chains, Chain dice chain
  explode : ∀ die ∈ dies, dice.explodes die.accepted = true
  unfinished : Unfinished dice .explosion limit table (chains.flatten ++ dies) rerolled after stop

inductive ChainRun (dice : Dice) (limit : Nat) (table : Table σ) (explosions : List UInt32) :
    EStateM.Result (Stop ε) (Table σ) (List UInt32) → Prop where
  | rolled (chain : List Die) (after : Table σ) (obeys : Chain dice chain)
      (passes : Passes dice table (diceValues chain) (diceEvents dice .explosion chain) after) :
      ChainRun dice limit table explosions (.ok ((chain.map Die.accepted).reverse ++ explosions) after)
  | stopped (dies : List Die) (rerolled : List UInt32) (after : Table σ) (stop : Stop ε)
      (open_ : OpenChain dice limit table [] dies rerolled after stop) :
      ChainRun dice limit table explosions (.error stop after)

theorem chain_cons (dice : Dice) (die : Die) (chain : List Die) (obeys : die.Obeys dice)
    (explodes : dice.explodes die.accepted = true) (rest : Chain dice chain) : Chain dice (die :: chain) where
  obeys := List.forall_mem_cons.2 ⟨obeys, rest.obeys⟩
  ends := by
    obtain ⟨before, last, split, explode, final⟩ := rest.ends
    exact ⟨die :: before, last, congrArg (List.cons die) split, List.forall_mem_cons.2 ⟨explodes, explode⟩, final⟩

theorem chains_obey (dice : Dice) (chains : List (List Die)) (closed : ∀ chain ∈ chains, Chain dice chain) :
    ∀ die ∈ chains.flatten, die.Obeys dice := by
  intro die member
  obtain ⟨chain, inside, member⟩ := List.mem_flatten.1 member
  exact (closed chain inside).obeys die member

theorem chain_single (dice : Dice) (die : Die) (obeys : die.Obeys dice)
    (final : dice.explodes die.accepted = false) : Chain dice [die] :=
  ⟨List.forall_mem_singleton.2 obeys, [], die, rfl, nofun, final⟩

theorem roll_chain_run (dice : Dice) (limit times : Nat) (table : Table σ) (explosions : List UInt32) :
    ChainRun (ε := ε) dice (min limit times) table explosions (dice.rollChain limit times explosions table) := by
  induction times generalizing table explosions with
  | zero =>
      have nothing : Unfinished (ε := ε) dice .explosion (min limit 0) table [] [] table .endless :=
        ⟨nofun, nofun, passes_nothing dice table, Nat.min_le_right limit 0⟩
      exact .stopped [] [] table .endless ⟨nofun, nofun, nothing⟩
  | succ times ih =>
      rw [Dice.rollChain]
      have first := roll_die_run (ε := ε) dice .explosion limit table
      cases run : dice.rollDie .explosion limit table with
      | error stop after =>
          rw [run] at first
          rw [Rolling.bind_error _ _ _ _ _ run]
          cases first with
          | stopped rerolled _ _ unfinished =>
              have halts := halts_longer dice limit (min limit (times + 1)) _ _ after stop
                (Nat.le_trans (Nat.min_le_left _ _)) unfinished.halts
              exact .stopped [] rerolled after stop
                ⟨nofun, nofun, unfinished.obeys, unfinished.rerolls, unfinished.passes, halts⟩
      | ok value middle =>
          rw [run] at first
          rw [Rolling.bind_ok _ _ _ _ _ run]
          cases first with
          | accepted die _ obeys passes =>
              have fell := passes_die dice .explosion table middle die passes
              cases explodes : dice.explodes die.accepted with
              | false => exact .rolled [die] middle (chain_single dice die obeys explodes) fell
              | true =>
                  have rest := ih middle (die.accepted :: explosions)
                  change ChainRun dice _ table explosions
                    (dice.rollChain limit times (die.accepted :: explosions) middle)
                  generalize dice.rollChain limit times (die.accepted :: explosions) middle = result at rest ⊢
                  cases rest with
                  | rolled chain after all passes =>
                      have whole : ChainRun (ε := ε) dice (min limit (times + 1)) table explosions
                          (.ok (((die :: chain).map Die.accepted).reverse ++ explosions) after) :=
                        .rolled (die :: chain) after (chain_cons dice die chain obeys explodes all)
                          (passes_dice dice .explosion table middle after [die] chain fell passes)
                      simpa only [List.map_cons, List.reverse_cons, List.append_assoc,
                        List.singleton_append] using whole
                  | stopped dies rerolled after stop open_ =>
                      have bound : min limit (times + 1) ≤ min limit times + (diceValues [die]).length := by
                        simp only [diceValues, List.flatMap_singleton, Die.values, List.length_append,
                          List.length_singleton]
                        omega
                      exact .stopped (die :: dies) rerolled after stop
                        ⟨nofun, List.forall_mem_cons.2 ⟨explodes, open_.explode⟩,
                          unfinished_after dice .explosion _ _ table middle after [die] dies rerolled stop
                            (List.forall_mem_singleton.2 obeys) fell bound open_.unfinished⟩

inductive ChainsRun (dice : Dice) (limit : Nat) (table : Table σ) (kept explosions : List UInt32) :
    EStateM.Result (Stop ε) (Table σ) (List UInt32) → Prop where
  | rolled (chains : List (List Die)) (after : Table σ) (count : chains.length = kept.countP dice.explodes)
      (closed : ∀ chain ∈ chains, Chain dice chain)
      (passes : Passes dice table (diceValues chains.flatten) (diceEvents dice .explosion chains.flatten) after) :
      ChainsRun dice limit table kept explosions (.ok ((chains.flatten.map Die.accepted).reverse ++ explosions) after)
  | stopped (chains : List (List Die)) (dies : List Die) (rerolled : List UInt32) (after : Table σ) (stop : Stop ε)
      (fewer : chains.length < kept.countP dice.explodes)
      (open_ : OpenChain dice limit table chains dies rerolled after stop) :
      ChainsRun dice limit table kept explosions (.error stop after)

theorem roll_chains_run (dice : Dice) (limit : Nat) (table : Table σ) (kept explosions : List UInt32) :
    ChainsRun (ε := ε) dice limit table kept explosions (dice.rollChains limit kept explosions table) := by
  induction kept generalizing table explosions with
  | nil => exact .rolled [] table rfl nofun (passes_nothing dice table)
  | cons value kept ih =>
      rw [Dice.rollChains]
      cases explodes : dice.explodes value with
      | false =>
          have count : (value :: kept).countP dice.explodes = kept.countP dice.explodes :=
            List.countP_cons_of_neg (by simp [explodes])
          have rest := ih table explosions
          simp only [Bool.false_eq_true, if_false]
          generalize dice.rollChains limit kept explosions table = result at rest ⊢
          cases rest with
          | rolled chains after length closed passes =>
              exact .rolled chains after (length.trans count.symm) closed passes
          | stopped chains dies rerolled after stop fewer open_ =>
              exact .stopped chains dies rerolled after stop (count ▸ fewer) open_
      | true =>
          have count : (value :: kept).countP dice.explodes = kept.countP dice.explodes + 1 :=
            List.countP_cons_of_pos explodes
          simp only [if_true]
          have first := roll_chain_run (ε := ε) dice limit limit table explosions
          rw [Nat.min_self] at first
          cases run : dice.rollChain limit limit explosions table with
          | error stop after =>
              rw [run] at first
              rw [Rolling.bind_error _ _ _ _ _ run]
              cases first with
              | stopped dies rerolled _ _ open_ =>
                  exact .stopped [] dies rerolled after stop (count ▸ Nat.succ_pos _) open_
          | ok more middle =>
              rw [run] at first
              rw [Rolling.bind_ok _ _ _ _ _ run]
              cases first with
              | rolled chain _ obeys passes =>
                  have rest := ih middle ((chain.map Die.accepted).reverse ++ explosions)
                  generalize dice.rollChains limit kept _ middle = result at rest ⊢
                  cases rest with
                  | rolled chains after length closed more =>
                      have whole : ChainsRun (ε := ε) dice limit table (value :: kept) explosions
                          (.ok (((chain :: chains).flatten.map Die.accepted).reverse ++ explosions) after) :=
                        .rolled (chain :: chains) after ((congrArg Nat.succ length).trans count.symm)
                          (List.forall_mem_cons.2 ⟨obeys, closed⟩)
                          (passes_dice dice .explosion table middle after chain chains.flatten passes more)
                      simpa only [List.flatten_cons, List.map_append, List.reverse_append,
                        List.append_assoc] using whole
                  | stopped chains dies rerolled after stop fewer open_ =>
                      have unfinished :=
                        unfinished_after dice .explosion limit limit table middle after chain _ rerolled
                          stop obeys.obeys passes (Nat.le_add_right _ _) open_.unfinished
                      rw [← List.append_assoc] at unfinished
                      exact .stopped (chain :: chains) dies rerolled after stop (count ▸ Nat.succ_lt_succ fewer)
                        ⟨List.forall_mem_cons.2 ⟨obeys, open_.closed⟩, open_.explode, unfinished⟩

end DiceRoll
