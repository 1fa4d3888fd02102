import Mathlib.Data.List.Basic

set_option autoImplicit false

namespace DiceRoll

theorem erase_dups_self {α : Type} [BEq α] [LawfulBEq α] (list : List α) (nodup : list.Nodup) :
    list.eraseDups = list := by
  induction list with
  | nil => rfl
  | cons a list ih =>
      obtain ⟨fresh, others⟩ := List.nodup_cons.1 nodup
      have kept : list.filter (fun b => !b == a) = list :=
        List.filter_eq_self.2 fun b member => by simp [ne_of_mem_of_not_mem member fresh]
      rw [List.eraseDups_cons, kept, ih others]

theorem erase_dups_nodup {α : Type} [BEq α] [LawfulBEq α] (list : List α) : list.eraseDups.Nodup := by
  induction size : list.length using Nat.strongRecOn generalizing list with
  | ind n ih =>
      cases list with
      | nil => exact List.nodup_nil
      | cons a list =>
          subst size
          rw [List.eraseDups_cons]
          refine List.nodup_cons.2 ⟨fun member => ?_, ih _ ?_ _ rfl⟩
          · simp [List.mem_eraseDups] at member
          · exact Nat.lt_succ_of_le (List.length_filter_le _ list)

theorem erase_dups_map {α β : Type} [BEq α] [LawfulBEq α] [BEq β] [LawfulBEq β] (f : α → β) (list : List α)
    (injective : ∀ a ∈ list, ∀ b ∈ list, f a = f b → a = b) :
    (list.map f).eraseDups = list.eraseDups.map f := by
  induction size : list.length using Nat.strongRecOn generalizing list with
  | ind n ih =>
      cases list with
      | nil => rfl
      | cons a list =>
          subst size
          have agree : (list.filter fun b => !f b == f a) = list.filter fun b => !b == a := by
            refine List.filter_congr fun b member => congrArg Bool.not (Bool.eq_iff_iff.2 ?_)
            rw [beq_iff_eq, beq_iff_eq]
            exact ⟨injective b (List.mem_cons_of_mem a member) a List.mem_cons_self, congrArg f⟩
          have within : ∀ b ∈ list.filter fun b => !b == a, b ∈ a :: list :=
            fun b member => List.mem_cons_of_mem a (List.mem_of_mem_filter member)
          have others := ih _ (Nat.lt_succ_of_le (List.length_filter_le _ list)) _
            (fun b member c other => injective b (within b member) c (within c other)) rfl
          rw [List.map_cons, List.eraseDups_cons, List.eraseDups_cons, List.filter_map, List.map_cons, ← others]
          exact congrArg (fun others => f a :: (others.map f).eraseDups) agree

end DiceRoll
