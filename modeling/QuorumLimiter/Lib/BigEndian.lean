import Mathlib.Algebra.Order.Ring.Nat

/-!
Numbers as bytes, the most significant first. On numbers that fit the width, the bytes
compare as the numbers do.
-/

namespace BigEndian

def encode : Nat → Nat → List UInt8
  | 0, _ => []
  | width + 1, value => UInt8.ofNat (value / 256 ^ width) :: encode width (value % 256 ^ width)

def decode : List UInt8 → Nat
  | [] => 0
  | byte :: rest => byte.toNat * 256 ^ rest.length + decode rest

@[simp] theorem encode_length (width value : Nat) : (encode width value).length = width := by
  induction width generalizing value with
  | zero => rfl
  | succ width ih => rw [encode, List.length_cons, ih]

theorem unit_pos (width : Nat) : 0 < 256 ^ width := Nat.pow_pos (by omega)

theorem leading_byte {width value : Nat} (fits : value < 256 ^ (width + 1)) :
    (UInt8.ofNat (value / 256 ^ width)).toNat = value / 256 ^ width := by
  apply Nat.mod_eq_of_lt
  rw [Nat.div_lt_iff_lt_mul (unit_pos width)]
  rw [Nat.pow_succ] at fits
  omega

theorem decode_encode (width value : Nat) (fits : value < 256 ^ width) :
    decode (encode width value) = value := by
  induction width generalizing value with
  | zero =>
      rw [pow_zero] at fits
      rw [encode, decode]
      omega
  | succ width ih =>
      rw [encode, decode, encode_length, leading_byte fits,
        ih _ (Nat.mod_lt value (unit_pos width)), mul_comm]
      exact Nat.div_add_mod value (256 ^ width)

theorem lt_iff_digits {unit : Nat} (positive : 0 < unit) (left right : Nat) :
    left < right ↔
      left / unit < right / unit ∨ left / unit = right / unit ∧ left % unit < right % unit := by
  have whole := Nat.div_add_mod left unit
  have other := Nat.div_add_mod right unit
  have part := Nat.mod_lt left positive
  have rest := Nat.mod_lt right positive
  rcases Nat.lt_trichotomy (left / unit) (right / unit) with below | same | above
  · have step := Nat.mul_le_mul_left unit (Nat.succ_le_of_lt below)
    rw [Nat.mul_succ] at step
    exact iff_of_true (by omega) (Or.inl below)
  · rw [same] at whole ⊢
    constructor
    · exact fun less => Or.inr ⟨rfl, by omega⟩
    · rintro (less | ⟨_, less⟩) <;> omega
  · have step := Nat.mul_le_mul_left unit (Nat.succ_le_of_lt above)
    rw [Nat.mul_succ] at step
    refine iff_of_false (by omega) ?_
    rintro (less | ⟨equal, _⟩) <;> omega

theorem encode_lt_iff {width left right : Nat} (first : left < 256 ^ width)
    (second : right < 256 ^ width) : encode width left < encode width right ↔ left < right := by
  induction width generalizing left right with
  | zero =>
      rw [pow_zero] at first second
      simp only [encode, List.not_lt_nil, false_iff]
      omega
  | succ width ih =>
      have part := Nat.mod_lt left (unit_pos width)
      have rest := Nat.mod_lt right (unit_pos width)
      rw [encode, encode, List.cons_lt_cons_iff, ih part rest, UInt8.lt_iff_toNat_lt,
        ← UInt8.toNat_inj, leading_byte first, leading_byte second,
        lt_iff_digits (unit_pos width) left right]

end BigEndian
