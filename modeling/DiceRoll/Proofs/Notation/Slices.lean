import DiceRoll.Proofs.Notation.Lower

set_option autoImplicit false

namespace DiceRoll.Notation

theorem byte_length_append (a b : List Char) : byteLength (a ++ b) = byteLength a + byteLength b := by
  induction a with
  | nil => exact (Nat.zero_add _).symm
  | cons c a ih => rw [List.cons_append, byteLength, byteLength, ih, Nat.add_assoc]

theorem byte_offset_append (a b : List Char) : byteOffset (a ++ b) b = byteLength a := by
  rw [byteOffset, byte_length_append, Nat.add_sub_cancel]

theorem byte_length_cons (c : Char) (text : List Char) : ∃ bytes, byteLength (c :: text) = bytes + 1 ∧
    c.utf8Size ≤ bytes + 1 ∧ bytes + 1 - c.utf8Size = byteLength text := by
  have size := c.utf8Size_pos
  refine ⟨c.utf8Size - 1 + byteLength text, ?_, ?_, ?_⟩
  · rw [byteLength]
    omega
  · omega
  · omega

-- Behind other text, a part stands as many bytes further on as that text has.
theorem drop_bytes_behind (front text : List Char) (bytes : Nat) :
    dropBytes (byteLength front + bytes) (front ++ text) = dropBytes bytes text := by
  induction front with
  | nil => rw [byteLength, Nat.zero_add, List.nil_append]
  | cons c front ih =>
      obtain ⟨more, length, within, rest⟩ := byte_length_cons c front
      have further : c.utf8Size ≤ more + bytes + 1 := by omega
      have left : more + bytes + 1 - c.utf8Size = byteLength front + bytes := by omega
      rw [length, Nat.add_right_comm, List.cons_append, dropBytes, if_pos further, left, ih]

theorem slice_behind (front text : List Char) (start stop : Nat) :
    sliceBytes (byteLength front + start) (byteLength front + stop) (front ++ text) = sliceBytes start stop text := by
  rw [sliceBytes, drop_bytes_behind, Nat.add_sub_add_left, sliceBytes]

theorem byte_offset_behind (front text rest : List Char) (inside : rest <:+ text) :
    byteOffset (front ++ text) rest = byteLength front + byteOffset text rest := by
  obtain ⟨before, rfl⟩ := inside
  rw [← List.append_assoc, byte_offset_append, byte_offset_append, byte_length_append]

theorem drop_bytes_append (a b : List Char) : dropBytes (byteLength a) (a ++ b) = some b :=
  (drop_bytes_behind a b 0).trans (dropBytes.eq_1 b)

theorem take_bytes_append (a b : List Char) : takeBytes (byteLength a) (a ++ b) = some a := by
  induction a with
  | nil => exact takeBytes.eq_1 b
  | cons c a ih =>
      obtain ⟨bytes, length, within, rest⟩ := byte_length_cons c a
      rw [length, List.cons_append, takeBytes, if_pos within, rest, ih]
      rfl

theorem lower_size (c : Char) : c.toLower.utf8Size = c.utf8Size := by
  by_cases upper : 'A'.val ≤ c.val ∧ c.val ≤ 'Z'.val
  · obtain ⟨most, letter⟩ := upper_lowered c upper
    have bound : (127 : UInt32).toNat = 127 := rfl
    have lower : c.toLower.val ≤ 127 := UInt32.le_iff_toNat_le.2 (by omega)
    have typed : c.val ≤ 127 := UInt32.le_iff_toNat_le.2 (by omega)
    rw [Char.utf8Size_eq_one_iff.2 lower, Char.utf8Size_eq_one_iff.2 typed]
  · exact congrArg Char.utf8Size (dif_neg upper)

theorem byte_length_lower (text : List Char) : byteLength (lowercase text) = byteLength text := by
  induction text with
  | nil => rfl
  | cons c text ih =>
      change c.toLower.utf8Size + byteLength (lowercase text) = _
      rw [ih, lower_size, byteLength]

theorem drop_bytes_lower (bytes : Nat) (text : List Char) :
    (dropBytes bytes text).map lowercase = dropBytes bytes (lowercase text) := by
  induction text generalizing bytes with
  | nil => cases bytes <;> rfl
  | cons c text ih =>
      cases bytes with
      | zero => rfl
      | succ bytes =>
          rw [lowercase, List.map_cons, dropBytes, dropBytes, lower_size]
          by_cases within : c.utf8Size ≤ bytes + 1
          · rw [if_pos within, if_pos within]
            exact ih _
          · rw [if_neg within, if_neg within]
            rfl

theorem take_bytes_lower (bytes : Nat) (text : List Char) :
    (takeBytes bytes text).map lowercase = takeBytes bytes (lowercase text) := by
  induction text generalizing bytes with
  | nil => cases bytes <;> rfl
  | cons c text ih =>
      cases bytes with
      | zero => rfl
      | succ bytes =>
          rw [lowercase, List.map_cons, takeBytes, takeBytes, lower_size]
          by_cases within : c.utf8Size ≤ bytes + 1
          · have rest := ih (bytes + 1 - c.utf8Size)
            rw [lowercase] at rest
            rw [if_pos within, if_pos within, ← rest, Option.map_map, Option.map_map]
            rfl
          · rw [if_neg within, if_neg within]
            rfl

theorem slice_lower (start stop : Nat) (text : List Char) :
    (sliceBytes start stop text).map lowercase = sliceBytes start stop (lowercase text) := by
  rw [sliceBytes, sliceBytes, ← drop_bytes_lower]
  cases dropBytes start text with
  | none => rfl
  | some rest => exact take_bytes_lower (stop - start) rest

theorem lowercase_append (a b : List Char) : lowercase (a ++ b) = lowercase a ++ lowercase b :=
  List.map_append

theorem slice_typed (before part after : List Char) :
    sliceBytes (byteOffset (lowercase (before ++ (part ++ after))) (lowercase (part ++ after)))
      (byteOffset (lowercase (before ++ (part ++ after))) (lowercase after)) (before ++ (part ++ after)) =
      some part := by
  have stop : byteOffset (lowercase (before ++ (part ++ after))) (lowercase after) =
      byteLength before + byteLength part := by
    rw [← List.append_assoc, lowercase_append, byte_offset_append, byte_length_lower, byte_length_append]
  rw [stop, lowercase_append, byte_offset_append, byte_length_lower, sliceBytes, drop_bytes_append, Option.bind_some,
    Nat.add_sub_cancel_left, take_bytes_append]

end DiceRoll.Notation
