import Mathlib

/-!
# Masks and fields of machine words

Device registers and page-table descriptors are cut into fields with masks and
shifts. The lemmas here turn each of those into division and remainder of the
word's value, so that the arithmetic that follows is linear.
-/

namespace Bits

variable {w : Nat}

/-- Keeping the low `k` bits is a remainder. -/
theorem toNat_and_mask (x : BitVec w) {k : Nat} (hk : k ≤ w) :
    (x &&& BitVec.ofNat w (2 ^ k - 1)).toNat = x.toNat % 2 ^ k := by
  have hle : (2 : Nat) ^ k ≤ 2 ^ w := Nat.pow_le_pow_right (by omega) hk
  have hpos : 0 < (2 : Nat) ^ k := Nat.two_pow_pos k
  rw [BitVec.toNat_and, BitVec.toNat_ofNat, Nat.mod_eq_of_lt (by omega : 2 ^ k - 1 < 2 ^ w),
    Nat.and_two_pow_sub_one_eq_mod]

/-- Clearing the low `k` bits rounds down to a multiple of `2 ^ k`. -/
theorem toNat_and_not_mask (x : BitVec w) (k : Nat) :
    (x &&& ~~~ BitVec.ofNat w (2 ^ k - 1)).toNat = x.toNat / 2 ^ k * 2 ^ k := by
  have hclear : x &&& ~~~ BitVec.ofNat w (2 ^ k - 1) = (x >>> k) <<< k := by
    apply BitVec.eq_of_getLsbD_eq
    intro i hi
    simp only [BitVec.getLsbD_and, BitVec.getLsbD_not, BitVec.getLsbD_ofNat,
      Nat.testBit_two_pow_sub_one, BitVec.getLsbD_shiftLeft, BitVec.getLsbD_ushiftRight, hi,
      decide_true, Bool.true_and]
    by_cases hk : i < k
    · simp [hk]
    · simp only [hk, decide_false, Bool.not_false, Bool.and_true, Bool.true_and]
      congr 1
      omega
  have hlt : x.toNat / 2 ^ k * 2 ^ k < 2 ^ w := lt_of_le_of_lt (Nat.div_mul_le_self _ _) x.isLt
  rw [hclear, BitVec.toNat_shiftLeft, BitVec.toNat_ushiftRight, Nat.shiftRight_eq_div_pow,
    Nat.shiftLeft_eq, Nat.mod_eq_of_lt hlt]

/-- Joining a multiple of `2 ^ k` with a value below `2 ^ k` is a sum. -/
theorem toNat_or_low {a b : BitVec w} {k : Nat} (ha : a.toNat % 2 ^ k = 0)
    (hb : b.toNat < 2 ^ k) : (a ||| b).toNat = a.toNat + b.toNat := by
  have hsplit : a.toNat = 2 ^ k * (a.toNat / 2 ^ k) := by
    rw [Nat.mul_div_cancel' (Nat.dvd_of_mod_eq_zero ha)]
  rw [BitVec.toNat_or, hsplit, ← Nat.two_pow_add_eq_or_of_lt hb]

theorem toNat_shiftRight (x : BitVec w) (k : Nat) : (x >>> k).toNat = x.toNat / 2 ^ k := by
  rw [BitVec.toNat_ushiftRight, Nat.shiftRight_eq_div_pow]

/-- A narrow copy is the remainder of the value. -/
theorem setWidth_eq_of_modEq {x x' : BitVec w} {k : Nat} (h : x.toNat ≡ x'.toNat [MOD 2 ^ k]) :
    x.setWidth k = x'.setWidth k := by
  refine BitVec.eq_of_toNat_eq ?_
  rw [BitVec.toNat_setWidth, BitVec.toNat_setWidth]
  exact h

/-- Clearing bits of a value below `2 ^ k` depends on `k` bits of the mask. -/
theorem and_not_eq_of_modEq {x v v' : BitVec w} {k : Nat} (hx : x.toNat < 2 ^ k)
    (hv : v.toNat ≡ v'.toNat [MOD 2 ^ k]) : x &&& ~~~v = x &&& ~~~v' := by
  refine BitVec.eq_of_getLsbD_eq fun i hi => ?_
  simp only [BitVec.getLsbD_and, BitVec.getLsbD_not]
  by_cases hlow : i < k
  · have hbit := congrArg (Nat.testBit · i) hv
    simp only [Nat.testBit_mod_two_pow, hlow, decide_true, Bool.true_and] at hbit
    rw [BitVec.getLsbD, BitVec.getLsbD, BitVec.getLsbD, hbit]
  · have hzero : x.getLsbD i = false :=
      Nat.testBit_lt_two_pow (hx.trans_le (Nat.pow_le_pow_right (by decide) (by omega)))
    rw [hzero, Bool.false_and, Bool.false_and]

theorem getLsbD_one_shl (k i : Nat) :
    (1#w <<< k).getLsbD i = (decide (i < w) && decide (i = k)) := by
  rw [BitVec.getLsbD_shiftLeft, BitVec.getLsbD_one]
  by_cases hi : i < w <;> by_cases hk : i = k <;> simp [hi, hk] <;> omega

/-- Testing a bit with a mask. -/
theorem and_one_shl_ne_zero_iff (x : BitVec w) (k : Nat) :
    x &&& (1#w <<< k) ≠ 0#w ↔ x.getLsbD k = true := by
  constructor
  · intro hne
    by_contra hk
    refine hne (BitVec.eq_of_getLsbD_eq fun i _ => ?_)
    rw [BitVec.getLsbD_and, getLsbD_one_shl, BitVec.getLsbD_zero]
    by_cases hik : i = k
    · simp [hik, hk]
    · simp [hik]
  · intro hk hzero
    have hlt : k < w := by
      by_contra hge
      rw [BitVec.getLsbD_of_ge x k (by omega)] at hk
      cases hk
    have hbit : (x &&& (1#w <<< k)).getLsbD k = false := by rw [hzero, BitVec.getLsbD_zero]
    rw [BitVec.getLsbD_and, getLsbD_one_shl, hk] at hbit
    simp [hlt] at hbit

end Bits
