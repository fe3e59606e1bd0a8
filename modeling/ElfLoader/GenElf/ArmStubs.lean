import ElfLoader.GenElf.Code
import ElfLoader.Library.Isa.Arm

/-! # How far the ARM stubs reach

A stub takes the distance to its slot apart: two rotated bytes for the additions
and twelve bits for the load. The search for a rotation tries every even amount.
-/

namespace ElfLoader.GenElf

open ByteMemory Fields RegisterMachine RegisterMachine.Arm Splice

namespace Arm

/-! ## Rotated immediates -/

section Encode

variable {left k : Nat} {r n e : BitVec 32}

theorem encodeArmImmLoop_some (h : encodeArmImmLoop left r n = some e) :
    ∃ k < left, n.rotateLeft (2 * k) ≤ 0xff ∧
      e = n.rotateLeft (2 * k) ||| (r + BitVec.ofNat 32 k) <<< 8 := by
  induction left generalizing r n with
  | zero => cases h
  | succ left ih =>
      rw [encodeArmImmLoop] at h
      split at h
      · rename_i hsmall
        cases h
        have hstart : n.rotateLeft (2 * 0) = n := rotateLeft_zero n
        refine ⟨0, Nat.succ_pos _, by rwa [hstart], ?_⟩
        rw [hstart, BitVec.add_zero]
      · obtain ⟨k, hk, hsmall, he⟩ := ih h
        rw [rotateLeft_rotateLeft, Nat.add_comm 2, ← Nat.mul_succ] at hsmall he
        refine ⟨k + 1, Nat.succ_lt_succ hk, hsmall, ?_⟩
        rw [he, BitVec.add_assoc, BitVec.add_comm 1, BitVec.ofNat_add]
        rfl

/-- The search finds a rotation if there is one. -/
theorem encodeArmImmLoop_defined (hk : k < left) (h : n.rotateLeft (2 * k) ≤ 0xff) :
    ∃ e, encodeArmImmLoop left r n = some e := by
  induction left generalizing r n k with
  | zero => exact absurd hk (Nat.not_lt_zero k)
  | succ left ih =>
      rw [encodeArmImmLoop]
      split
      · exact ⟨_, rfl⟩
      · rename_i hlarge
        cases k with
        | zero =>
            rw [Nat.mul_zero, rotateLeft_zero] at h
            exact absurd h hlarge
        | succ k =>
            apply ih (Nat.lt_of_succ_lt_succ hk)
            rwa [rotateLeft_rotateLeft, Nat.add_comm 2, ← Nat.mul_succ]

/-- What the encoder returns is twelve bits, and they decode to the number. -/
theorem encodeArmImm_some (h : encodeArmImm n = some e) :
    ∃ imm : BitVec 12, e = imm.setWidth 32 ∧ expandImm imm = n := by
  rw [encodeArmImm] at h
  split at h
  · rename_i hzero
    cases h
    exact ⟨0, rfl, by rw [hzero]; rfl⟩
  · obtain ⟨k, hk, hsmall, he⟩ := encodeArmImmLoop_some h
    have hbyte : (n.rotateLeft (2 * k)).toNat < 2 ^ 8 := Nat.lt_succ_of_le hsmall
    have hvalue : n.rotateLeft (2 * k) =
        ((n.rotateLeft (2 * k)).setWidth 8).setWidth 32 := by
      apply BitVec.eq_of_toNat_eq
      rw [BitVec.toNat_setWidth, BitVec.toNat_setWidth, Nat.mod_eq_of_lt hbyte,
        Nat.mod_eq_of_lt (Nat.lt_trans hbyte (by decide))]
    refine ⟨BitVec.ofNat 4 k ++ (n.rotateLeft (2 * k)).setWidth 8, ?_, ?_⟩
    · have hr : (0 : BitVec 32) + BitVec.ofNat 32 k = BitVec.ofNat 32 k := BitVec.zero_add _
      rw [he, hr, BitVec.setWidth_append_eq_shiftLeft_setWidth_or, ← hvalue,
        BitVec.setWidth_ofNat_of_le_of_lt (by decide) hk, BitVec.or_comm]
    · rw [expandImm, BitVec.extractLsb'_append_eq_right, BitVec.extractLsb'_append_eq_left,
        ← hvalue, BitVec.toNat_ofNat, Nat.mod_eq_of_lt hk, rotateRight_rotateLeft]

theorem encodeArmImm_iff :
    (∃ e, encodeArmImm n = some e) ↔
      ∃ (v : BitVec 8) (k : Nat), n = (v.setWidth 32).rotateRight (2 * k) := by
  constructor
  · rintro ⟨e, he⟩
    obtain ⟨imm, -, himm⟩ := encodeArmImm_some he
    exact ⟨_, _, himm.symm⟩
  · rintro ⟨v, k, rfl⟩
    rw [encodeArmImm]
    split
    · exact ⟨_, rfl⟩
    · have hturn : (v.setWidth 32).rotateRight (2 * k) =
          (v.setWidth 32).rotateRight (2 * (k % 16)) := by
        rw [← BitVec.rotateRight_mod_eq_rotateRight, Nat.mul_mod_mul_left 2 k 16]
      have hk : k % 16 < 16 := Nat.mod_lt _ (by decide)
      refine encodeArmImmLoop_defined hk ?_
      rw [hturn, rotateLeft_rotateRight, BitVec.le_def, BitVec.toNat_setWidth]
      have hv := v.isLt
      exact Nat.le_trans (Nat.mod_le _ _) (by simp; omega)

/-- Eight bits at an even place are encodable. -/
theorem encodeArmImm_shiftLeft (v : BitVec 8) (hk : k ≤ 12) :
    ∃ e, encodeArmImm (v.setWidth 32 <<< (2 * k)) = some e := by
  have hv : (v.setWidth 32).toNat < 2 ^ (32 - 2 * k) := by
    have hlt := v.isLt
    have hle : 2 ^ 8 ≤ 2 ^ (32 - 2 * k) := Nat.pow_le_pow_right (by decide) (by omega)
    rw [BitVec.toNat_setWidth]
    exact Nat.lt_of_le_of_lt (Nat.mod_le _ _) (Nat.lt_of_lt_of_le hlt hle)
  refine encodeArmImm_iff.mpr ⟨v, 16 - k, ?_⟩
  rw [← rotateLeft_eq_shiftLeft _ (by omega) hv]
  conv_lhs => rw [← rotateRight_rotateLeft ((v.setWidth 32).rotateLeft (2 * k)) (2 * (16 - k))]
  rw [rotateLeft_rotateLeft, show 2 * k + 2 * (16 - k) = 32 by omega]
  congr 1
  rw [← BitVec.rotateLeft_mod_eq_rotateLeft]
  exact rotateLeft_zero _

end Encode

/-! ## A distance in three parts -/

theorem toNat_byte (x : BitVec 32) (lo : Nat) {k : Nat} (hk : k ≤ 24) :
    ((x.extractLsb' lo 8).setWidth 32 <<< k).toNat = x.toNat / 2 ^ lo % 2 ^ 8 * 2 ^ k := by
  have hbyte : x.toNat / 2 ^ lo % 2 ^ 8 < 2 ^ 8 := Nat.mod_lt _ (by decide)
  have hplace : x.toNat / 2 ^ lo % 2 ^ 8 * 2 ^ k < 2 ^ 32 := by
    have hpow : (2 : Nat) ^ k ≤ 2 ^ 24 := Nat.pow_le_pow_right (by decide) hk
    calc x.toNat / 2 ^ lo % 2 ^ 8 * 2 ^ k < 2 ^ 8 * 2 ^ k :=
          Nat.mul_lt_mul_of_pos_right hbyte (Nat.two_pow_pos k)
      _ ≤ 2 ^ 8 * 2 ^ 24 := Nat.mul_le_mul_left _ hpow
  rw [BitVec.toNat_shiftLeft, BitVec.toNat_setWidth, BitVec.extractLsb'_toNat,
    Nat.shiftRight_eq_div_pow, Nat.mod_eq_of_lt (Nat.lt_trans hbyte (by decide)),
    Nat.shiftLeft_eq, Nat.mod_eq_of_lt hplace]

/-- Whatever lies below 2 ^ 28 and is a multiple of 4096 is the sum of two
immediates. -/
theorem splitOffset_spec {residual : BitVec 32} (hlt : residual.toNat < 2 ^ 28)
    (hlow : residual.toNat % 0x1000 = 0) :
    ∃ a b : BitVec 12, splitOffset residual = some (a.setWidth 32, b.setWidth 32) ∧
      (expandImm a).toNat + (expandImm b).toNat = residual.toNat := by
  unfold splitOffset
  cases hwhole : encodeArmImm residual with
  | some enc =>
      obtain ⟨imm, rfl, himm⟩ := encodeArmImm_some hwhole
      refine ⟨0, imm, rfl, ?_⟩
      rw [himm, show (expandImm 0).toNat = 0 from rfl, Nat.zero_add]
  | none =>
      dsimp only
      generalize hh : residual &&& (0xfff00000 : BitVec 32) = high
      have hmask : (0xfff00000 : BitVec 32) = BitVec.allOnes 32 <<< 20 := by decide
      have hvalue : high.toNat = residual.toNat / 2 ^ 20 * 2 ^ 20 := by
        rw [← hh, hmask, and_high, toNat_shift_back]
      have hle : high.toNat ≤ residual.toNat := hvalue ▸ Nat.div_mul_le_self _ _
      have hrest : (residual - high).toNat = residual.toNat - high.toNat :=
        BitVec.toNat_sub_of_le hle
      -- below 2 ^ 28 each part is one byte
      have hhigh : high = (residual.extractLsb' 20 8).setWidth 32 <<< (2 * 10) := by
        apply BitVec.eq_of_toNat_eq
        rw [toNat_byte _ _ (by decide), hvalue]
        omega
      have hmid : residual - high = (residual.extractLsb' 12 8).setWidth 32 <<< (2 * 6) := by
        apply BitVec.eq_of_toNat_eq
        rw [toNat_byte _ _ (by decide), hrest, hvalue]
        omega
      obtain ⟨encH, hencH⟩ := encodeArmImm_shiftLeft (residual.extractLsb' 20 8) (k := 10)
        (by decide)
      obtain ⟨encM, hencM⟩ := encodeArmImm_shiftLeft (residual.extractLsb' 12 8) (k := 6)
        (by decide)
      rw [← hhigh] at hencH
      rw [← hmid] at hencM
      obtain ⟨a, rfl, ha⟩ := encodeArmImm_some hencH
      obtain ⟨b, rfl, hb⟩ := encodeArmImm_some hencM
      refine ⟨a, b, ?_, ?_⟩
      · rw [hencH, hencM]
        rfl
      · rw [ha, hb, hrest]
        omega

/-! ## The instructions of a stub -/

theorem decode_add (imm : BitVec 12) :
    decode (0xe28fc000 ||| imm.setWidth 32) = some (.add 12 15 (expandImm imm)) := by
  simp [decode]

theorem decode_add_again (imm : BitVec 12) :
    decode (0xe28cc000 ||| imm.setWidth 32) = some (.add 12 12 (expandImm imm)) := by
  simp [decode]

theorem decode_ldr (imm : BitVec 12) :
    decode (0xe5bcf000 ||| imm.setWidth 32) = some (.ldrPre 15 12 imm) := by
  simp [decode]

/-- Two additions and a load stand at `off` of a section, and the load accesses,
from a program counter at `pc`, exactly `target`. -/
def Reaches (code : List UInt8) (off : Nat) (pc target : BitVec 32) : Prop :=
  ∃ (word₁ word₂ word₃ : BitVec 32) (high mid : BitVec 32) (low : BitVec 12),
    slice code off 4 = leBytes word₁ ∧ slice code (off + 4) 4 = leBytes word₂ ∧
      slice code (off + 8) 4 = leBytes word₃ ∧ decode word₁ = some (.add 12 15 high) ∧
      decode word₂ = some (.add 12 12 mid) ∧ decode word₃ = some (.ldrPre 15 12 low) ∧
      ∀ s : State 32, s.pc = pc →
        address (exec (exec s (.add 12 15 high)) (.add 12 12 mid)) 12 low = target

theorem and_low (x : BitVec 32) : x &&& 0xfff = (x.setWidth 12).setWidth 32 := by
  apply BitVec.eq_of_toNat_eq
  have hmask := Nat.and_two_pow_sub_one_eq_mod x.toNat 12
  have hle := Nat.mod_le x.toNat (2 ^ 12)
  rw [BitVec.toNat_and, BitVec.toNat_setWidth, BitVec.toNat_setWidth,
    Nat.mod_eq_of_lt (Nat.lt_of_le_of_lt hle x.isLt)]
  exact hmask

theorem patchPltEntry_reaches {code : List UInt8} {off : Nat} {pc target : BitVec 64}
    (hin : off + 12 ≤ code.length) (hlt : (target - (pc + 8)).toNat < 2 ^ 28) :
    ∃ code', patchPltEntry code off pc target = some code' ∧
      Reaches code' off (pc.setWidth 32) (target.setWidth 32) := by
  have htarget : target.setWidth 32 =
      pc.setWidth 32 + 8 + (target - (pc + 8)).setWidth 32 := by
    have hsum : target = pc + 8 + (target - (pc + 8)) := by grind
    conv_lhs => rw [hsum]
    rw [BitVec.setWidth_add _ _ (by decide), BitVec.setWidth_add _ _ (by decide)]
    rfl
  have hlt32 : ((target - (pc + 8)).setWidth 32).toNat < 2 ^ 28 := by
    rw [BitVec.toNat_setWidth]
    exact Nat.lt_of_le_of_lt (Nat.mod_le _ _) hlt
  unfold patchPltEntry
  dsimp only
  generalize (target - (pc + 8)).setWidth 32 = offset at *
  rw [and_low]
  generalize hlow : offset.setWidth 12 = low
  have hlowNat : (low.setWidth 32).toNat = offset.toNat % 2 ^ 12 := by
    rw [← hlow, BitVec.toNat_setWidth, BitVec.toNat_setWidth]
    omega
  have hres : (offset - low.setWidth 32).toNat = offset.toNat - offset.toNat % 2 ^ 12 := by
    rw [BitVec.toNat_sub_of_le, hlowNat]
    rw [BitVec.le_def, hlowNat]
    exact Nat.mod_le _ _
  have hresLt : (offset - low.setWidth 32).toNat < 2 ^ 28 := by omega
  obtain ⟨a, b, hsplit, hsum⟩ := splitOffset_spec hresLt (by omega)
  obtain ⟨code', hcode, hwords⟩ := spliceAll_words hin
    [(0, 0xe28fc000 ||| a.setWidth 32), (4, 0xe28cc000 ||| b.setWidth 32),
      (8, 0xe5bcf000 ||| low.setWidth 32)] (by simp) (by simp)
  obtain ⟨hword₁, hrest⟩ := List.forall_mem_cons.mp hwords
  obtain ⟨hword₂, hrest⟩ := List.forall_mem_cons.mp hrest
  obtain ⟨hword₃, -⟩ := List.forall_mem_cons.mp hrest
  refine ⟨code', ?_, _, _, _, _, _, _, hword₁, hword₂, hword₃, decode_add a, decode_add_again b,
    decode_ldr low, fun s hs => ?_⟩
  · rw [hsplit]
    exact hcode
  · have hparts : expandImm a + expandImm b + low.setWidth 32 = offset := by
      apply BitVec.eq_of_toNat_eq
      rw [BitVec.toNat_add, BitVec.toNat_add, hsum, hres, hlowNat]
      omega
    rw [address_add_add (by decide), hs, hparts, htarget]

/-- The encoder accepts the rotated bytes and no other number, and a stub whose slot
is less than 2 ^ 28 ahead reaches it. -/
theorem encodeArmImm_exact :
    (∀ n : BitVec 32,
      ((∃ e, encodeArmImm n = some e) ↔
        ∃ (v : BitVec 8) (k : Nat), n = (v.setWidth 32).rotateRight (2 * k)) ∧
      ∀ e, encodeArmImm n = some e → e.toNat < 0x1000 ∧ expandImm (e.setWidth 12) = n) ∧
    ∀ (code : List UInt8) (off : Nat) (pc target : BitVec 64), off + 12 ≤ code.length →
      (target - (pc + 8)).toNat < 2 ^ 28 →
      ∃ code', patchPltEntry code off pc target = some code' ∧
        Reaches code' off (pc.setWidth 32) (target.setWidth 32) := by
  refine ⟨fun n => ⟨encodeArmImm_iff, fun e he => ?_⟩,
    fun _ _ _ _ hin hlt => patchPltEntry_reaches hin hlt⟩
  obtain ⟨imm, rfl, himm⟩ := encodeArmImm_some he
  have himmLt := imm.isLt
  constructor
  · rw [BitVec.toNat_setWidth]
    omega
  · rw [BitVec.setWidth_setWidth_of_le _ (by decide), BitVec.setWidth_eq, himm]

/-- The farthest slot. -/
theorem encodeArmImm_exact_at_end :
    ∃ code', patchPltEntry (List.replicate 12 0) 0 0x1000 0x10001007 = some code' ∧
      Reaches code' 0 0x1000 0x10001007 :=
  encodeArmImm_exact.2 (List.replicate 12 0) 0 0x1000 0x10001007 (by decide) (by decide)

end Arm

end ElfLoader.GenElf
