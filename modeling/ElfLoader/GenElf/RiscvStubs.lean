import ElfLoader.GenElf.Code
import ElfLoader.Library.Isa.Riscv

/-! # How far the RISC-V stubs reach

A distance is split into an upper part for `auipc` and a signed lower part for the
load or jump behind it. The lower part borrows from the upper one, so the pair
reaches half a page less on one side than on the other.
-/

namespace ElfLoader.GenElf

open ByteMemory Fields RegisterMachine RegisterMachine.Riscv Splice

namespace Riscv

/-! ## Encoded instructions -/

section Decode

variable (w : Nat) (rd rs1 : BitVec 5) (imm : BitVec 32)

theorem decode_auipc : decode w (encodeUtype 0x17 (rd.setWidth 32) imm) =
    some (.auipc rd.toNat (imm.extractLsb' 12 20)) := by
  simp [decode, encodeUtype]

theorem decode_jalr : decode w (encodeItype 0x67 (rd.setWidth 32) (rs1.setWidth 32) imm) =
    some (.jalr rd.toNat rs1.toNat (imm.extractLsb' 0 12)) := by
  simp [decode, encodeItype]

theorem decode_ld : decode 64 (encodeItype 0x3003 (rd.setWidth 32) (rs1.setWidth 32) imm) =
    some (.load rd.toNat rs1.toNat (imm.extractLsb' 0 12)) := by
  simp [decode, encodeItype]

theorem decode_lw : decode 32 (encodeItype 0x2003 (rd.setWidth 32) (rs1.setWidth 32) imm) =
    some (.load rd.toNat rs1.toNat (imm.extractLsb' 0 12)) := by
  simp [decode, encodeItype]

end Decode

/-! ## The two parts of a distance -/

/-- Twelve bits are positive or negative around half of their range. -/
theorem signExtend_add_half (y : BitVec 12) :
    y.signExtend 64 + 0x800 = (y + 0x800).setWidth 64 := by
  have hy := y.isLt
  apply BitVec.eq_of_toNat_eq
  cases hmsb : y.msb with
  | false =>
      have hsmall := BitVec.msb_eq_false_iff_two_mul_lt.mp hmsb
      rw [BitVec.signExtend_eq_setWidth_of_msb_false hmsb]
      simp
      omega
  | true =>
      have hlarge := BitVec.msb_eq_true_iff_two_mul_ge.mp hmsb
      rw [BitVec.signExtend_eq_not_setWidth_not_of_msb_true hmsb]
      simp
      omega

section Split

variable (pc target : BitVec 64)

theorem mask_eq : (0xfffff000 : BitVec 32) = BitVec.allOnes 32 <<< 12 := by decide

theorem splitAddr_hi_low : (splitAddr pc target).1.extractLsb' 0 12 = 0#12 :=
  extract_and_clear _ _ (by decide)

/-- `auipc` adds the upper part as it is. -/
theorem splitAddr_hi : (splitAddr pc target).1.extractLsb' 12 20 ++ 0#12 =
    (splitAddr pc target).1 := by
  unfold splitAddr
  rw [append_zero (n := 20) (k := 12), ← and_high, BitVec.and_assoc, mask_eq, BitVec.and_self]

theorem splitAddr_lo_lt : (splitAddr pc target).2.toNat < 0x1000 := by
  unfold splitAddr
  rw [BitVec.toNat_and]
  exact Nat.lt_succ_of_le Nat.and_le_right

theorem splitAddr_lo : (splitAddr pc target).2.setWidth 12 = (target - pc).setWidth 12 := by
  unfold splitAddr
  generalize target - pc = d
  dsimp only
  rw [BitVec.setWidth_eq_extractLsb' (by decide), extract_and_keep _ _ (by decide),
    ← BitVec.setWidth_eq_extractLsb' (by decide), mask_eq, and_high]
  apply BitVec.eq_of_toNat_eq
  have hpage := toNat_shift_back ((d + 0x800).setWidth 32) 12
  simp only [BitVec.toNat_setWidth, BitVec.toNat_sub, hpage]
  omega

/-- The upper part is the page of the distance and half a page. -/
theorem splitAddr_hi_wide (h : Fits 32 (target - pc + 0x800)) :
    (splitAddr pc target).1.signExtend 64 =
      target - pc + 0x800 - ((target - pc + 0x800).setWidth 12).setWidth 64 := by
  unfold splitAddr
  have hwide : (0xfffff000 : BitVec 32).signExtend 64 = BitVec.allOnes 64 <<< 12 := by decide
  rw [BitVec.signExtend_and, hwide, h, and_high, shift_back]

/-- The two parts of a distance that fits add up to it. -/
theorem splitAddr_sum (h : Fits 32 (target - pc + 0x800)) :
    (splitAddr pc target).1.signExtend 64 +
      ((splitAddr pc target).2.setWidth 12).signExtend 64 = target - pc := by
  have hhalf := signExtend_add_half ((target - pc).setWidth 12)
  have hlow : (target - pc).setWidth 12 + 0x800 = (target - pc + 0x800).setWidth 12 := by
    rw [BitVec.setWidth_add _ _ (by decide)]
    rfl
  rw [splitAddr_lo, splitAddr_hi_wide pc target h, ← hlow, ← hhalf]
  grind

/-- No part wraps: the sum is the distance as a number. -/
theorem splitAddr_toInt (h : Fits 32 (target - pc + 0x800)) :
    (splitAddr pc target).1.toInt + ((splitAddr pc target).2.setWidth 12).toInt =
      (target - pc).toInt := by
  have hsum := congrArg BitVec.toInt (splitAddr_sum pc target h)
  rw [BitVec.toInt_add, BitVec.toInt_signExtend_of_le (by decide),
    BitVec.toInt_signExtend_of_le (by decide)] at hsum
  have hhi := (splitAddr pc target).1.toInt_lt
  have hhi' := (splitAddr pc target).1.le_toInt
  have hlo := ((splitAddr pc target).2.setWidth 12).toInt_lt
  have hlo' := ((splitAddr pc target).2.setWidth 12).le_toInt
  rw [← hsum]
  symm
  apply Int.bmod_eq_of_le
  · simp at *
    omega
  · simp at *
    omega

end Split

/-- The range of distances that fit. -/
theorem fits_of_range {d : BitVec 64} (hlo : -2 ^ 31 ≤ d.toInt) (hhi : d.toInt < 2 ^ 31 - 0x800) :
    Fits 32 (d + 0x800) := by
  have hsum : (d + 0x800).toInt = d.toInt + 0x800 := by
    rw [BitVec.toInt_add]
    apply Int.bmod_eq_of_le
    · simp
      omega
    · simp
      omega
  rw [fits_iff (by decide) (by decide), hsum]
  omega

/-! ## The pairs of instructions in the stubs -/

/-- Two instructions stand at `off` of a section: `auipc` into `rd`, and one that
accesses, from a program counter at `pc`, exactly `target` through `rd`. -/
def Reaches (w : Nat) (code : List UInt8) (off rd : Nat) (second : BitVec 12 → Instr)
    (pc target : BitVec w) : Prop :=
  ∃ (word₁ word₂ : BitVec 32) (hi : BitVec 20) (lo : BitVec 12),
    slice code off 4 = leBytes word₁ ∧ slice code (off + 4) 4 = leBytes word₂ ∧
      decode w word₁ = some (.auipc rd hi) ∧ decode w word₂ = some (second lo) ∧
      ∀ s : State w, s.pc = pc → address (exec s (.auipc rd hi)) rd lo = target

section Reaches

variable {w : Nat} {pc target : BitVec 64} {code : List UInt8} {off rd : Nat}
  {second : BitVec 12 → Instr} {word₁ word₂ : BitVec 32}

theorem reaches_of_sum {pc target : BitVec w} {hi : BitVec 20} {lo : BitVec 12} (hrd : rd ≠ 0)
    (hword₁ : slice code off 4 = leBytes word₁) (hword₂ : slice code (off + 4) 4 = leBytes word₂)
    (hauipc : decode w word₁ = some (.auipc rd hi)) (hsecond : decode w word₂ = some (second lo))
    (hsum : (hi ++ 0#12).signExtend w + lo.signExtend w = target - pc) :
    Reaches w code off rd second pc target := by
  refine ⟨word₁, word₂, hi, lo, hword₁, hword₂, hauipc, hsecond, fun s hs => ?_⟩
  rw [address_auipc hrd, hsum, hs]
  grind

theorem splitAddr_sum_fields (h : Fits 32 (target - pc + 0x800)) :
    ((splitAddr pc target).1.extractLsb' 12 20 ++ 0#12).signExtend 64 +
      ((splitAddr pc target).2.extractLsb' 0 12).signExtend 64 = target - pc := by
  rw [splitAddr_hi, ← BitVec.setWidth_eq_extractLsb' (by decide)]
  exact splitAddr_sum pc target h

/-- Addresses of 32 bits: the lower halves add up as well. -/
theorem splitAddr_sum_narrow (h : Fits 32 (target - pc + 0x800)) :
    ((splitAddr pc target).1.extractLsb' 12 20 ++ 0#12).signExtend 32 +
      ((splitAddr pc target).2.extractLsb' 0 12).signExtend 32 =
        target.setWidth 32 - pc.setWidth 32 := by
  have hsum := congrArg (BitVec.setWidth 32) (splitAddr_sum_fields h)
  have hcut : ∀ {n : Nat} (x : BitVec n), (x.signExtend 64).setWidth 32 = x.signExtend 32 := by
    intro n x
    ext i hi
    have hwide : i < 64 := by omega
    simp [BitVec.getElem_signExtend, hwide]
  have hdiff : (target - pc).setWidth 32 = target.setWidth 32 - pc.setWidth 32 := by
    rw [BitVec.eq_sub_iff_add_eq, ← BitVec.setWidth_add _ _ (by decide), BitVec.sub_add_cancel]
  rwa [BitVec.setWidth_add _ _ (by decide), hcut, hcut, hdiff] at hsum

theorem patchHelper_reaches (h : Fits 32 (target - pc + 0x800)) (hin : off + 8 ≤ code.length) :
    ∃ code', patchHelper code off pc target = some code' ∧
      Reaches 64 code' off 5 (.jalr 0 5) pc target ∧
      Reaches 32 code' off 5 (.jalr 0 5) (pc.setWidth 32) (target.setWidth 32) := by
  obtain ⟨code', hcode, hwords⟩ := spliceAll_words hin
    [(0, encodeUtype 0x17 regT0 (splitAddr pc target).1),
      (4, encodeItype 0x67 0 regT0 (splitAddr pc target).2)] (by simp) (by simp)
  obtain ⟨hword₁, hword₂, -⟩ := List.forall_mem_cons.mp hwords |>.imp_right List.forall_mem_cons.mp
  refine ⟨code', hcode, ?_, ?_⟩
  · exact reaches_of_sum (by decide) hword₁ hword₂ (decode_auipc 64 5 _) (decode_jalr 64 0 5 _)
      (splitAddr_sum_fields h)
  · exact reaches_of_sum (by decide) hword₁ hword₂ (decode_auipc 32 5 _) (decode_jalr 32 0 5 _)
      (splitAddr_sum_narrow h)

theorem patchPltEntry64_reaches (h : Fits 32 (target - pc + 0x800))
    (hin : off + 8 ≤ code.length) :
    ∃ code', Riscv64.patchPltEntry code off pc target = some code' ∧
      Reaches 64 code' off 28 (.load 28 28) pc target := by
  obtain ⟨code', hcode, hwords⟩ := spliceAll_words hin
    [(0, encodeUtype 0x17 regT3 (splitAddr pc target).1),
      (4, encodeItype 0x3003 regT3 regT3 (splitAddr pc target).2)] (by simp) (by simp)
  obtain ⟨hword₁, hword₂, -⟩ := List.forall_mem_cons.mp hwords |>.imp_right List.forall_mem_cons.mp
  exact ⟨code', hcode, reaches_of_sum (by decide) hword₁ hword₂ (decode_auipc 64 28 _)
    (decode_ld 28 28 _) (splitAddr_sum_fields h)⟩

theorem patchPltEntry32_reaches (h : Fits 32 (target - pc + 0x800))
    (hin : off + 12 ≤ code.length) :
    ∃ code', Riscv32.patchPltEntry code off pc target = some code' ∧
      Reaches 32 code' off 7 (.load 7 7) (pc.setWidth 32) (target.setWidth 32) ∧
      ∃ word, slice code' (off + 8) 4 = leBytes word ∧ decode 32 word = some (.jalr 0 7 0) := by
  obtain ⟨code', hcode, hwords⟩ := spliceAll_words hin
    [(0, encodeUtype 0x17 7 (splitAddr pc target).1),
      (4, encodeItype 0x2003 7 7 (splitAddr pc target).2), (8, encodeItype 0x67 0 7 0)]
    (by simp) (by simp)
  obtain ⟨hword₁, hrest⟩ := List.forall_mem_cons.mp hwords
  obtain ⟨hword₂, hrest⟩ := List.forall_mem_cons.mp hrest
  obtain ⟨hword₃, -⟩ := List.forall_mem_cons.mp hrest
  refine ⟨code', hcode, ?_, _, hword₃, decode_jalr 32 0 7 0⟩
  exact reaches_of_sum (by decide) hword₁ hword₂ (decode_auipc 32 7 _) (decode_lw 7 7 _)
    (splitAddr_sum_narrow h)

end Reaches

/-- A distance in the range of the pair is split without loss, and the stubs of
both word sizes access exactly what they were patched for. -/
theorem splitAddr_exact {pc target : BitVec 64} (hlo : -2 ^ 31 ≤ (target - pc).toInt)
    (hhi : (target - pc).toInt < 2 ^ 31 - 0x800) :
    ((splitAddr pc target).1.extractLsb' 0 12 = 0 ∧ (splitAddr pc target).2.toNat < 0x1000 ∧
      (splitAddr pc target).1.toInt + ((splitAddr pc target).2.setWidth 12).toInt =
        (target - pc).toInt) ∧
    (∀ (code : List UInt8) (off : Nat), off + 8 ≤ code.length →
      ∃ code', Riscv64.patchPltEntry code off pc target = some code' ∧
        Reaches 64 code' off 28 (.load 28 28) pc target) ∧
    (∀ (code : List UInt8) (off : Nat), off + 12 ≤ code.length →
      ∃ code', Riscv32.patchPltEntry code off pc target = some code' ∧
        Reaches 32 code' off 7 (.load 7 7) (pc.setWidth 32) (target.setWidth 32) ∧
        ∃ word, slice code' (off + 8) 4 = leBytes word ∧ decode 32 word = some (.jalr 0 7 0)) ∧
    (∀ (code : List UInt8) (off : Nat), off + 8 ≤ code.length →
      ∃ code', patchHelper code off pc target = some code' ∧
        Reaches 64 code' off 5 (.jalr 0 5) pc target ∧
        Reaches 32 code' off 5 (.jalr 0 5) (pc.setWidth 32) (target.setWidth 32)) := by
  have hfits := fits_of_range hlo hhi
  refine ⟨⟨splitAddr_hi_low pc target, splitAddr_lo_lt pc target, splitAddr_toInt pc target hfits⟩,
    ?_, ?_, ?_⟩
  · exact fun _ _ hin => patchPltEntry64_reaches hfits hin
  · exact fun _ _ hin => patchPltEntry32_reaches hfits hin
  · exact fun _ _ hin => patchHelper_reaches hfits hin

/-- The slot farthest below. -/
theorem splitAddr_exact_at_end :
    ∃ code', Riscv64.patchPltEntry (List.replicate 8 0) 0 0x80001000 0x1000 = some code' ∧
      Reaches 64 code' 0 28 (.load 28 28) 0x80001000 0x1000 :=
  (splitAddr_exact (by decide) (by decide)).2.1 (List.replicate 8 0) 0 (by decide)

end Riscv

end ElfLoader.GenElf
