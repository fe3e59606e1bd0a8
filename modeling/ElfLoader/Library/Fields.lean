import Mathlib.Data.BitVec
import Mathlib.Tactic.Basic

/-! # Fields of machine words

An instruction is a disjunction of shifted fields. A field is read back by cutting
out its bits; a signed field holds a number exactly when the number is the sign
extension of the field, and a rotated field holds those that the rotation back
makes small.
-/

namespace Fields

variable {v w n k lo : Nat}

/-! ## Cutting out fields -/

theorem extract_shiftLeft_below (x : BitVec w) (h : lo + n ≤ k) :
    (x <<< k).extractLsb' lo n = 0#n := by
  ext i hi
  simp only [BitVec.getElem_extractLsb', BitVec.getLsbD_shiftLeft, BitVec.getElem_zero]
  have hlt : lo + i < k := by omega
  simp [hlt]

theorem extract_shiftLeft (x : BitVec w) (hk : k ≤ lo) (h : lo + n ≤ w) :
    (x <<< k).extractLsb' lo n = x.extractLsb' (lo - k) n := by
  ext i hi
  simp only [BitVec.getElem_extractLsb', BitVec.getLsbD_shiftLeft]
  have hlt : lo + i < w := by omega
  have hge : ¬ lo + i < k := by omega
  rw [show lo + i - k = lo - k + i by omega]
  simp [hlt, hge]

theorem extract_ushiftRight (x : BitVec w) :
    (x >>> k).extractLsb' lo n = x.extractLsb' (k + lo) n := by
  ext i hi
  simp [Nat.add_assoc]

theorem extract_setWidth (x : BitVec v) (h : lo + n ≤ w) :
    (x.setWidth w).extractLsb' lo n = x.extractLsb' lo n := by
  ext i hi
  simp only [BitVec.getElem_extractLsb', BitVec.getLsbD_setWidth]
  have hlt : lo + i < w := by omega
  simp [hlt]

theorem extract_beyond (x : BitVec w) (h : w ≤ lo) : x.extractLsb' lo n = 0#n := by
  ext i hi
  simp only [BitVec.getElem_extractLsb', BitVec.getElem_zero]
  exact BitVec.getLsbD_of_ge x (lo + i) (by omega)

/-- A mask that covers the field changes nothing. -/
theorem extract_and_keep (x m : BitVec w) (h : m.extractLsb' lo n = BitVec.allOnes n) :
    (x &&& m).extractLsb' lo n = x.extractLsb' lo n := by
  rw [BitVec.extractLsb'_and, h, BitVec.and_allOnes]

theorem extract_and_clear (x m : BitVec w) (h : m.extractLsb' lo n = 0#n) :
    (x &&& m).extractLsb' lo n = 0#n := by
  rw [BitVec.extractLsb'_and, h, BitVec.and_zero]

attribute [simp] BitVec.extractLsb'_or extract_shiftLeft_below extract_shiftLeft
  extract_ushiftRight extract_setWidth extract_beyond extract_and_keep extract_and_clear

/-! ## The low bits and the others -/

theorem append_zero (x : BitVec (n + k)) : x.extractLsb' k n ++ 0#k = x >>> k <<< k := by
  ext i hi
  rw [BitVec.getElem_append]
  by_cases hlt : i < k
  · simp [hlt]
  · simp [hlt]

theorem and_high (x : BitVec w) (k : Nat) : x &&& (BitVec.allOnes w <<< k) = x >>> k <<< k := by
  ext i hi
  by_cases hlt : i < k
  · simp [hlt]
  · have hsum : k + (i - k) = i := by omega
    simp [hlt, hi, hsum]

theorem toNat_shift_back (x : BitVec w) (k : Nat) :
    (x >>> k <<< k).toNat = x.toNat / 2 ^ k * 2 ^ k := by
  have hle := Nat.div_mul_le_self x.toNat (2 ^ k)
  rw [BitVec.toNat_shiftLeft, BitVec.toNat_ushiftRight, Nat.shiftRight_eq_div_pow,
    Nat.shiftLeft_eq, Nat.mod_eq_of_lt (Nat.lt_of_le_of_lt hle x.isLt)]

theorem shift_back (x : BitVec w) (k : Nat) : x >>> k <<< k = x - (x.setWidth k).setWidth w := by
  apply BitVec.eq_of_toNat_eq
  have hmod : x.toNat % 2 ^ k ≤ x.toNat := Nat.mod_le _ _
  have hdiv := Nat.div_add_mod' x.toNat (2 ^ k)
  have hlow : ((x.setWidth k).setWidth w).toNat = x.toNat % 2 ^ k := by
    rw [BitVec.toNat_setWidth, BitVec.toNat_setWidth]
    exact Nat.mod_eq_of_lt (Nat.lt_of_le_of_lt hmod x.isLt)
  rw [toNat_shift_back, BitVec.toNat_sub_of_le, hlow]
  · omega
  · rwa [BitVec.le_def, hlow]

/-- A word of two fields, of which the upper one keeps what fits. -/
theorem toNat_shiftLeft_or (hk : k ≤ w) (a : Nat) {b : Nat} (hb : b < 2 ^ k) :
    (BitVec.ofNat w a <<< k ||| BitVec.ofNat w b).toNat = 2 ^ k * (a % 2 ^ (w - k)) + b := by
  have hsplit : 2 ^ w = 2 ^ k * 2 ^ (w - k) := by rw [← Nat.pow_add, Nat.add_sub_cancel' hk]
  have hlow : b < 2 ^ w := Nat.lt_of_lt_of_le hb (Nat.pow_le_pow_right (by omega) hk)
  rw [Nat.two_pow_add_eq_or_of_lt hb, BitVec.toNat_or, BitVec.toNat_shiftLeft,
    BitVec.toNat_ofNat, BitVec.toNat_ofNat, Nat.mod_eq_of_lt hlow, Nat.shiftLeft_eq,
    Nat.mod_mul_mod, Nat.mul_comm, hsplit, Nat.mul_mod_mul_left]

/-! ## Signed fields -/

/-- The number is the sign extension of its low `n` bits. -/
def Fits (n : Nat) (x : BitVec w) : Prop := (x.setWidth n).signExtend w = x

instance (n : Nat) (x : BitVec w) : Decidable (Fits n x) := inferInstanceAs (Decidable (_ = _))

theorem fits_iff (hn : 0 < n) (h : n ≤ w) (x : BitVec w) :
    Fits n x ↔ -2 ^ (n - 1) ≤ x.toInt ∧ x.toInt < 2 ^ (n - 1) := by
  have hvalue : ((x.setWidth n).signExtend w).toInt = x.toInt.bmod (2 ^ n) := by
    rw [BitVec.toInt_signExtend_of_le h, BitVec.toInt_setWidth, BitVec.toInt_eq_toNat_bmod,
      Int.bmod_bmod_of_dvd]
    exact_mod_cast Nat.pow_dvd_pow 2 h
  have hpow : (2 : Int) ^ n = 2 * 2 ^ (n - 1) := by
    rw [← Int.pow_succ', Nat.sub_add_cancel hn]
  unfold Fits
  rw [← BitVec.toInt_inj, hvalue]
  constructor
  · intro heq
    have hlo := Int.le_bmod (x := x.toInt) (m := 2 ^ n) (Nat.two_pow_pos n)
    have hhi := Int.bmod_lt (x := x.toInt) (m := 2 ^ n) (Nat.two_pow_pos n)
    push_cast at hlo hhi
    omega
  · rintro ⟨hlo, hhi⟩
    apply Int.bmod_eq_of_le
    · push_cast
      omega
    · push_cast
      omega

/-! ## Rotations -/

theorem getLsbD_rotateLeft_of_lt (x : BitVec w) {r i : Nat} (hi : i < w) :
    (x.rotateLeft r).getLsbD i = x.getLsbD ((w - r % w + i) % w) := by
  have hr : r % w < w := Nat.mod_lt _ (by omega)
  rw [BitVec.getLsbD_rotateLeft]
  by_cases hlt : i < r % w
  · have hstay : (w - r % w + i) % w = w - r % w + i := Nat.mod_eq_of_lt (by omega)
    rw [hstay]
    simp [hlt]
  · have hwrap : (w - r % w + i) % w = i - r % w := by
      rw [show w - r % w + i = i - r % w + w by omega, Nat.add_mod_right]
      exact Nat.mod_eq_of_lt (by omega)
    rw [hwrap]
    simp [hlt, hi]

theorem rotateLeft_zero (x : BitVec w) : x.rotateLeft 0 = x := by
  ext i hi
  simp

theorem rotateLeft_rotateLeft (x : BitVec w) (j k : Nat) :
    (x.rotateLeft j).rotateLeft k = x.rotateLeft (j + k) := by
  apply BitVec.eq_of_getLsbD_eq
  intro i hi
  have hw : 0 < w := by omega
  rw [getLsbD_rotateLeft_of_lt _ hi, getLsbD_rotateLeft_of_lt _ (Nat.mod_lt _ hw),
    getLsbD_rotateLeft_of_lt _ hi, Nat.add_mod_mod]
  congr 1
  have hj : j % w < w := Nat.mod_lt _ hw
  have hk : k % w < w := Nat.mod_lt _ hw
  -- either the amounts add up below the width, or they exceed it once
  rcases Nat.lt_or_ge (j % w + k % w) w with hlt | hge
  · have hsum : (j + k) % w = j % w + k % w := by
      rw [Nat.add_mod]
      exact Nat.mod_eq_of_lt hlt
    rw [hsum, show w - j % w + (w - k % w + i) = w - (j % w + k % w) + i + w by omega,
      Nat.add_mod_right]
  · have hsum : (j + k) % w = j % w + k % w - w := by
      rw [Nat.add_mod, Nat.mod_eq_sub_mod hge]
      exact Nat.mod_eq_of_lt (by omega)
    rw [hsum]
    congr 1
    omega

theorem rotateRight_rotateLeft (x : BitVec w) (k : Nat) : (x.rotateLeft k).rotateRight k = x := by
  ext i hi
  have hk : k % w < w := Nat.mod_lt _ (by omega)
  rw [BitVec.getElem_rotateRight]
  split
  · rw [BitVec.getElem_rotateLeft, dif_neg (by omega)]
    congr 1
    omega
  · rw [BitVec.getElem_rotateLeft, dif_pos (by omega)]
    congr 1
    omega

theorem rotateLeft_rotateRight (x : BitVec w) (k : Nat) : (x.rotateRight k).rotateLeft k = x := by
  ext i hi
  have hk : k % w < w := Nat.mod_lt _ (by omega)
  rw [BitVec.getElem_rotateLeft]
  split
  · rw [BitVec.getElem_rotateRight, dif_neg (by omega)]
    congr 1
    omega
  · rw [BitVec.getElem_rotateRight, dif_pos (by omega)]
    congr 1
    omega

/-- A shift that drops no bit is a rotation. -/
theorem rotateLeft_eq_shiftLeft (x : BitVec w) (hk : k < w) (h : x.toNat < 2 ^ (w - k)) :
    x.rotateLeft k = x <<< k := by
  ext i hi
  have hmod : k % w = k := Nat.mod_eq_of_lt hk
  simp only [BitVec.getElem_rotateLeft, hmod, BitVec.getElem_shiftLeft]
  by_cases hlt : i < k
  · have hzero : x.getLsbD (w - k + i) = false :=
      Nat.testBit_lt_two_pow (Nat.lt_of_lt_of_le h (Nat.pow_le_pow_right (by decide) (by omega)))
    simp [hlt, ← BitVec.getLsbD_eq_getElem, hzero]
  · simp [hlt]

end Fields
