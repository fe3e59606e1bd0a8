import Mathlib.Data.BitVec
import Mathlib.Tactic.Basic

/-! # Rounding words to a power of two

Clearing the low bits of a wrapping word, and rounding it up, stated on values.
The upward direction is stated as the distance to the rounded word: that
distance is right for every word, also when the rounded word itself wraps to
zero.
-/

namespace Align

variable {w k : Nat}

/-- Clear the low bits of `x`, for an `align` that is a power of two. -/
def down (x align : BitVec w) : BitVec w := x &&& ~~~(align - 1#w)

/-- Round `x` up to a multiple of `align`, for a power of two. -/
def up (x align : BitVec w) : BitVec w := down (x + align - 1#w) align

private theorem lowMask_eq (hk : k < w) :
    BitVec.ofNat w (2 ^ k) - 1#w = BitVec.ofNat w (2 ^ k - 1) := by
  have hone : 1 < 2 ^ w := Nat.one_lt_two_pow (by omega)
  exact BitVec.ofNat_sub_ofNat_of_le _ _ hone Nat.one_le_two_pow

theorem down_eq_shift (hk : k < w) (x : BitVec w) :
    down x (BitVec.ofNat w (2 ^ k)) = (x >>> k) <<< k := by
  apply BitVec.eq_of_getLsbD_eq
  intro i hi
  unfold down
  rw [lowMask_eq hk, BitVec.getLsbD_and, BitVec.getLsbD_not, BitVec.getLsbD_ofNat,
    Nat.testBit_two_pow_sub_one, BitVec.getLsbD_shiftLeft, BitVec.getLsbD_ushiftRight]
  by_cases hik : i < k
  · simp [hi, hik]
  · have hadd : k + (i - k) = i := by omega
    simp [hi, hik, hadd]

theorem down_toNat (hk : k < w) (x : BitVec w) :
    (down x (BitVec.ofNat w (2 ^ k))).toNat = x.toNat - x.toNat % 2 ^ k := by
  have hdiv : x.toNat / 2 ^ k * 2 ^ k = x.toNat - x.toNat % 2 ^ k := by
    have h := Nat.div_add_mod x.toNat (2 ^ k)
    rw [Nat.mul_comm] at h
    omega
  have hlt : x.toNat / 2 ^ k * 2 ^ k < 2 ^ w :=
    Nat.lt_of_le_of_lt (Nat.div_mul_le_self _ _) x.isLt
  rw [down_eq_shift hk, BitVec.toNat_shiftLeft, BitVec.toNat_ushiftRight, Nat.shiftLeft_eq,
    Nat.shiftRight_eq_div_pow, Nat.mod_eq_of_lt hlt, hdiv]

theorem down_eq_sub (hk : k < w) (x : BitVec w) :
    down x (BitVec.ofNat w (2 ^ k)) = x - BitVec.ofNat w (x.toNat % 2 ^ k) := by
  have hle : x.toNat % 2 ^ k ≤ x.toNat := Nat.mod_le _ _
  have hofNat : (BitVec.ofNat w (x.toNat % 2 ^ k)).toNat = x.toNat % 2 ^ k := by
    rw [BitVec.toNat_ofNat, Nat.mod_eq_of_lt (Nat.lt_of_le_of_lt hle x.isLt)]
  apply BitVec.eq_of_toNat_eq
  rw [down_toNat hk, BitVec.toNat_sub_of_le (by rw [BitVec.le_def, hofNat]; exact hle), hofNat]

/-- The distance from a residue up to the next multiple. -/
theorem gap_eq {r K : Nat} (hK : 0 < K) :
    K - 1 - (r + (K - 1)) % K = (K - r % K) % K := by
  have hr := Nat.mod_lt r hK
  have hmod : (r + (K - 1)) % K = (r % K + (K - 1)) % K := by rw [Nat.mod_add_mod]
  rw [hmod]
  rcases Nat.eq_zero_or_pos (r % K) with h0 | hpos
  · rw [h0, Nat.zero_add, Nat.mod_eq_of_lt (by omega), Nat.sub_zero, Nat.mod_self]
    omega
  · have hsplit : r % K + (K - 1) = (r % K - 1) + K := by omega
    rw [hsplit, Nat.add_mod_right, Nat.mod_eq_of_lt (by omega : r % K - 1 < K),
      Nat.mod_eq_of_lt (by omega : K - r % K < K)]
    omega

theorem up_sub_toNat (hk : k < w) (x : BitVec w) :
    (up x (BitVec.ofNat w (2 ^ k)) - x).toNat = (2 ^ k - x.toNat % 2 ^ k) % 2 ^ k := by
  have hK : 0 < 2 ^ k := Nat.two_pow_pos k
  have hKw : 2 ^ k < 2 ^ w := Nat.pow_lt_pow_right (by omega) hk
  have hdvd : 2 ^ k ∣ 2 ^ w := Nat.pow_dvd_pow 2 (Nat.le_of_lt hk)
  -- `x + (2 ^ k - 1)` may wrap, but not its residue
  have hres : (x + BitVec.ofNat w (2 ^ k) - 1#w).toNat % 2 ^ k = (x.toNat + (2 ^ k - 1)) % 2 ^ k := by
    have hassoc : x + BitVec.ofNat w (2 ^ k) - 1#w = x + BitVec.ofNat w (2 ^ k - 1) := by
      rw [← lowMask_eq hk]
      grind
    rw [hassoc, BitVec.toNat_add, BitVec.toNat_ofNat, Nat.mod_mod_of_dvd _ hdvd,
      Nat.mod_eq_of_lt (by omega : 2 ^ k - 1 < 2 ^ w)]
  have hlt := Nat.mod_lt (x.toNat + (2 ^ k - 1)) hK
  have heq : up x (BitVec.ofNat w (2 ^ k)) - x =
      BitVec.ofNat w (2 ^ k - 1 - (x.toNat + (2 ^ k - 1)) % 2 ^ k) := by
    unfold up
    rw [down_eq_sub hk, hres, ← BitVec.ofNat_sub_ofNat_of_le _ _ (by omega) (by omega),
      ← lowMask_eq hk]
    grind
  rw [heq, BitVec.toNat_ofNat, Nat.mod_eq_of_lt (by omega), gap_eq hK]

end Align
