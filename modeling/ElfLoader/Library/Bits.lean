import Mathlib.Data.BitVec
import Mathlib.Tactic.Basic

/-! # Bits of words and numbers

The two ways a program asks for bit `k`: with a mask that has only this bit, and
by shifting the bit to the end. Numbers that fill all places together.
-/

namespace Bits

variable {w : Nat}

theorem and_one_shift_eq_zero_iff (v : BitVec w) {k : Nat} (hk : k < w) :
    v &&& 1#w <<< k = 0 ↔ v.getLsbD k = false := by
  constructor
  · intro h
    have hbit := congrArg (fun u => u.getLsbD k) h
    simpa [hk] using hbit
  · intro h
    apply BitVec.eq_of_getLsbD_eq
    intro i hi
    by_cases hik : i = k
    · simp [hik, h]
    · simp [BitVec.getLsbD_one]
      omega

theorem shift_and_one_eq_zero_iff (v : BitVec w) {k : Nat} (hw : 0 < w) :
    (v >>> k) &&& 1#w = 0 ↔ v.getLsbD k = false := by
  have h := and_one_shift_eq_zero_iff (v >>> k) hw
  simpa using h

/-- Numbers whose bits complement each other. -/
theorem xor_eq_ones_iff {n a b : Nat} (hb : b < 2 ^ n) :
    a ^^^ b = 2 ^ n - 1 ↔ a + b = 2 ^ n - 1 := by
  have hflip : (2 ^ n - 1) ^^^ b = 2 ^ n - 1 - b := by
    have hnot := congrArg BitVec.toNat (BitVec.allOnes_xor (x := BitVec.ofNat n b))
    rwa [BitVec.toNat_xor, BitVec.toNat_not, BitVec.toNat_allOnes, BitVec.toNat_ofNat,
      Nat.mod_eq_of_lt hb] at hnot
  constructor
  · intro h
    have ha : a = 2 ^ n - 1 - b := by
      rw [← hflip, ← h, Nat.xor_assoc, Nat.xor_self, Nat.xor_zero]
    omega
  · intro h
    have ha : a = 2 ^ n - 1 - b := by omega
    rw [ha, ← hflip, Nat.xor_assoc, Nat.xor_self, Nat.xor_zero]

end Bits
