import ElfLoader.Elf.Hash
import ElfLoader.Library.Bits
import ElfLoader.Library.Fields

/-! # The two SysV hash functions (`src/elf/hash/sysv.rs`, `src/elf/version.rs`)

Symbol names and version names are hashed by one function, written twice. The
first clears the top digit of the state after every byte, the second only at the
end, since the next shift drops it. What a byte adds may exceed 32 bits: a build
with overflow checks stops there, any other wraps. Both builds are described by
the addition they use.
-/

namespace ElfLoader

/-! ## The functions of a build -/

def addOverflow : Halt := .panic "attempt to add with overflow"

/-- The addition of a build with overflow checks. -/
def checkedAdd (a b : UInt32) : Except Halt UInt32 :=
  if a.toNat + b.toNat < 2 ^ 32 then .ok (a + b) else .error addOverflow

def wrappingAdd (a b : UInt32) : Except Halt UInt32 := .ok (a + b)

namespace ElfHash

variable (add : UInt32 → UInt32 → Except Halt UInt32)

def hashStepWith (hash : UInt32) (byte : UInt8) : Except Halt UInt32 := do
  let hash ← add (hash <<< 4) byte.toUInt32
  let g := hash &&& 0xf0000000
  return (if g ≠ 0 then hash ^^^ (g >>> 24) else hash) &&& ~~~g

def hashWith (name : Name) : Except Halt UInt32 := name.foldlM (hashStepWith add) 0

theorem foldlM_wrapping (s : UInt32) (name : Name) :
    name.foldlM (hashStepWith wrappingAdd) s = .ok (name.foldl hashStep s) := by
  induction name generalizing s with
  | nil => rfl
  | cons b name ih => exact ih (hashStep s b)

theorem hashWith_wrapping (name : Name) : hashWith wrappingAdd name = .ok (hash name) :=
  foldlM_wrapping 0 name

end ElfHash

namespace SymbolVersion

section Build

variable (add : UInt32 → UInt32 → Except Halt UInt32)

def dlElfHashRestWith (hash : UInt32) : List UInt8 → Except Halt UInt32
  | [] => .ok hash
  | byte :: name => do
      let hash ← add (hash <<< 4) byte.toUInt32
      let hi := hash &&& 0xf0000000
      dlElfHashRestWith (hash ^^^ (hi >>> 24)) name

def dlElfHashWith : Name → Except Halt UInt32
  | [] => .error (.panic "index out of bounds")
  | b0 :: rest =>
      let hash := b0.toUInt32
      if hash = 0 then .ok hash else
      match rest with
      | [] => .ok hash
      | b1 :: rest => do
          let hash ← add (hash <<< 4) b1.toUInt32
          match rest with
          | [] => return hash
          | b2 :: rest => do
              let hash ← add (hash <<< 4) b2.toUInt32
              match rest with
              | [] => return hash
              | b3 :: rest => do
                  let hash ← add (hash <<< 4) b3.toUInt32
                  match rest with
                  | [] => return hash
                  | b4 :: rest => do
                      let hash ← add (hash <<< 4) b4.toUInt32
                      let hash ← dlElfHashRestWith add hash rest
                      return hash &&& 0x0fffffff

end Build

theorem dlElfHashRestWith_wrapping (hash : UInt32) (name : List UInt8) :
    dlElfHashRestWith wrappingAdd hash name = .ok (dlElfHashRest hash name) := by
  induction name generalizing hash with
  | nil => rfl
  | cons b name ih => exact ih _

theorem dlElfHashWith_wrapping (name : Name) : dlElfHashWith wrappingAdd name = dlElfHash name := by
  match name with
  | [] | [_] | [_, _] | [_, _, _] | [_, _, _, _] => rfl
  | b0 :: b1 :: b2 :: b3 :: b4 :: rest =>
      unfold dlElfHashWith
      simp only [dlElfHashRestWith_wrapping]
      rfl

end SymbolVersion

/-! ## One byte -/

section Byte

theorem highDigit_bits : ∀ i, (hi : i < 32) → (0xf0000000#32)[i] = decide (28 ≤ i) := by decide

theorem lowDigits_bits : ∀ i, (hi : i < 32) → (0x0fffffff#32)[i] = decide (i < 28) := by decide

/-- Folding the top digit and clearing it. -/
theorem fold_eq (t : UInt32) :
    (if t &&& 0xf0000000 ≠ 0 then t ^^^ ((t &&& 0xf0000000) >>> 24) else t) &&&
      ~~~(t &&& 0xf0000000) = (t ^^^ ((t &&& 0xf0000000) >>> 24)) &&& 0x0fffffff := by
  have hbranch : (if t &&& 0xf0000000 ≠ 0 then t ^^^ ((t &&& 0xf0000000) >>> 24) else t) =
      t ^^^ ((t &&& 0xf0000000) >>> 24) := by
    split
    · rfl
    · rename_i hzero
      rw [not_not.mp hzero]
      simp
  rw [hbranch]
  apply UInt32.toBitVec_inj.mp
  ext i hi
  by_cases h28 : i < 28
  · simp [highDigit_bits i hi, lowDigits_bits i hi, h28]
  · have hbeyond : t.toBitVec.getLsbD (24 + i) = false := BitVec.getLsbD_of_ge _ _ (by omega)
    simp [highDigit_bits i hi, lowDigits_bits i hi, h28, hbeyond, Nat.le_of_not_lt h28]

theorem topBit_of_lt {t : UInt32} (h : t.toNat < 2 ^ 28) {i : Nat} (hi : i < 32)
    (h28 : ¬ i < 28) : t.toBitVec[i] = false :=
  Nat.testBit_lt_two_pow (x := t.toBitVec.toNat) (Nat.lt_of_lt_of_le h
    (Nat.pow_le_pow_right (by decide) (Nat.le_of_not_lt h28)))

theorem low_of_lt {t : UInt32} (h : t.toNat < 2 ^ 28) : t &&& 0x0fffffff = t := by
  apply UInt32.toBitVec_inj.mp
  ext i hi
  by_cases h28 : i < 28
  · simp [lowDigits_bits i hi, h28]
  · simp [topBit_of_lt h hi h28]

theorem top_of_lt {t : UInt32} (h : t.toNat < 2 ^ 28) : t &&& 0xf0000000 = 0 := by
  apply UInt32.toBitVec_inj.mp
  ext i hi
  by_cases h28 : i < 28
  · simp [highDigit_bits i hi, h28]
  · simp [topBit_of_lt h hi h28]

/-- The shift drops the top digit. -/
theorem shift_low (d : UInt32) : (d &&& 0x0fffffff) <<< 4 = d <<< 4 := by
  apply UInt32.toBitVec_inj.mp
  ext i hi
  by_cases h4 : i < 4
  · simp [h4]
  · have hlow := lowDigits_bits (i - 4) (by omega)
    have h28 : i - 4 < 28 := by omega
    simp [hlow, h4, h28]

theorem shift_toNat (s : UInt32) : (s <<< 4).toNat = 16 * s.toNat % 2 ^ 32 := by
  simp [UInt32.toNat_shiftLeft, Nat.shiftLeft_eq]
  omega

end Byte

/-! ## Both functions are one -/

section Equal

variable {add : UInt32 → UInt32 → Except Halt UInt32}

/-- Digits left in the top of the state change nothing but the top. -/
theorem dlElfHashRestWith_low (add : UInt32 → UInt32 → Except Halt UInt32) (d : UInt32)
    (name : List UInt8) :
    (SymbolVersion.dlElfHashRestWith add d name).map (· &&& 0x0fffffff) =
      name.foldlM (ElfHash.hashStepWith add) (d &&& 0x0fffffff) := by
  induction name generalizing d with
  | nil => rfl
  | cons b name ih =>
      rw [List.foldlM_cons, ElfHash.hashStepWith, shift_low, SymbolVersion.dlElfHashRestWith]
      cases hadd : add (d <<< 4) b.toUInt32 with
      | error e => rfl
      | ok t =>
          have hnext := ih (t ^^^ ((t &&& 0xf0000000) >>> 24))
          rw [← fold_eq] at hnext
          exact hnext

/-- Small sums are exact. -/
def Exact (add : UInt32 → UInt32 → Except Halt UInt32) : Prop :=
  ∀ a b, a.toNat + b.toNat < 2 ^ 28 → add a b = .ok (a + b)

theorem exact_wrapping : Exact wrappingAdd := fun _ _ _ => rfl

theorem exact_checked : Exact checkedAdd := fun _ _ h => if_pos (by omega)

/-- As long as the state has no top digit, nothing is folded. -/
theorem small_step (hadd : Exact add) {s : UInt32} {b : UInt8}
    (h : 16 * s.toNat + b.toNat < 2 ^ 28) :
    ∃ s' : UInt32, s'.toNat = 16 * s.toNat + b.toNat ∧ add (s <<< 4) b.toUInt32 = .ok s' ∧
      ElfHash.hashStepWith add s b = .ok s' := by
  have hshift := shift_toNat s
  have hbyte : b.toUInt32.toNat = b.toNat := UInt8.toNat_toUInt32 b
  have hsum : ((s <<< 4) + b.toUInt32).toNat = 16 * s.toNat + b.toNat := by
    rw [UInt32.toNat_add, hshift, hbyte]
    omega
  have hok : add (s <<< 4) b.toUInt32 = .ok ((s <<< 4) + b.toUInt32) :=
    hadd _ _ (by rw [hshift, hbyte]; omega)
  have htop := top_of_lt (t := (s <<< 4) + b.toUInt32) (by omega)
  refine ⟨_, hsum, hok, ?_⟩
  rw [ElfHash.hashStepWith, hok]
  simp [htop, bind, Except.bind, pure, Except.pure]

/-- One of the bytes that `dl_elf_hash` adds without folding. -/
theorem unrolled_step (hadd : Exact add) {s : UInt32} {b : UInt8} {rest : List UInt8}
    {k : UInt32 → Except Halt UInt32} (h : 16 * s.toNat + b.toNat < 2 ^ 28)
    (hk : ∀ s' : UInt32, s'.toNat = 16 * s.toNat + b.toNat →
      k s' = rest.foldlM (ElfHash.hashStepWith add) s') :
    (do let hash ← add (s <<< 4) b.toUInt32; k hash) =
      (b :: rest).foldlM (ElfHash.hashStepWith add) s := by
  obtain ⟨s', hs', hok, hstep⟩ := small_step hadd h
  rw [List.foldlM_cons, hstep, hok]
  exact hk s' hs'

/-- The first five bytes leave the top digit empty. -/
theorem dlElfHashWith_eq (hadd : Exact add) {b0 : UInt8} {rest : List UInt8} (hb0 : b0 ≠ 0) :
    SymbolVersion.dlElfHashWith add (b0 :: rest) = ElfHash.hashWith add (b0 :: rest) := by
  have hbyte : ∀ b : UInt8, b.toNat ≤ 255 := fun b => Nat.le_of_lt_succ b.toNat_lt
  have hzero : b0.toUInt32 ≠ 0 := by
    intro h
    apply hb0
    have hnat := congrArg UInt32.toNat h
    rw [UInt8.toNat_toUInt32] at hnat
    exact UInt8.toNat_inj.mp hnat
  -- the first byte is its own sum
  have hfirst : ElfHash.hashWith add (b0 :: rest) =
      rest.foldlM (ElfHash.hashStepWith add) b0.toUInt32 := by
    have hb := hbyte b0
    obtain ⟨s0, hs0, -, hstep⟩ := small_step hadd (s := 0) (b := b0) (by
      rw [UInt32.toNat_zero]
      omega)
    have hs0' : s0 = b0.toUInt32 := by
      apply UInt32.toNat_inj.mp
      rw [hs0, UInt8.toNat_toUInt32, UInt32.toNat_zero, Nat.mul_zero, Nat.zero_add]
    rw [ElfHash.hashWith, List.foldlM_cons, hstep, hs0']
    rfl
  rw [hfirst]
  unfold SymbolVersion.dlElfHashWith
  dsimp only
  rw [if_neg hzero]
  have h0 : b0.toUInt32.toNat ≤ 255 := by
    rw [UInt8.toNat_toUInt32]
    exact hbyte b0
  generalize b0.toUInt32 = s0 at h0
  rcases rest with _ | ⟨b1, rest⟩
  · rfl
  have hb1 := hbyte b1
  refine unrolled_step hadd (by omega) fun s1 h1 => ?_
  rcases rest with _ | ⟨b2, rest⟩
  · rfl
  have hb2 := hbyte b2
  refine unrolled_step hadd (by omega) fun s2 h2 => ?_
  rcases rest with _ | ⟨b3, rest⟩
  · rfl
  have hb3 := hbyte b3
  refine unrolled_step hadd (by omega) fun s3 h3 => ?_
  rcases rest with _ | ⟨b4, rest⟩
  · rfl
  have hb4 := hbyte b4
  refine unrolled_step hadd (by omega) fun s4 h4 => ?_
  -- from here on only the low digits agree
  have hrest := dlElfHashRestWith_low add s4 rest
  rw [low_of_lt (by omega)] at hrest
  rw [← hrest]
  cases SymbolVersion.dlElfHashRestWith add s4 rest with
  | ok t => rfl
  | error e => rfl

/-- Version names and symbol names have the same hash. -/
theorem dlElfHash_eq_hash {name : Name} (hne : name ≠ []) (hnul : 0 ∉ name) :
    SymbolVersion.dlElfHash name = .ok (ElfHash.hash name) := by
  obtain ⟨b0, rest, rfl⟩ := List.exists_cons_of_ne_nil hne
  have hb0 : b0 ≠ 0 := fun h => hnul (h ▸ List.mem_cons_self)
  rw [← SymbolVersion.dlElfHashWith_wrapping, dlElfHashWith_eq exact_wrapping hb0,
    ElfHash.hashWith_wrapping]

/-- `GLIBC_2.2.5`. -/
theorem dlElfHash_eq_hash_on_version :
    SymbolVersion.dlElfHash [71, 76, 73, 66, 67, 95, 50, 46, 50, 46, 53] =
      .ok (ElfHash.hash [71, 76, 73, 66, 67, 95, 50, 46, 50, 46, 53]) :=
  dlElfHash_eq_hash (by decide) (by decide)

end Equal

/-! ## Sums that wrap -/

namespace ElfHash

theorem checkedStep_eq (s : UInt32) (b : UInt8) :
    hashStepWith checkedAdd s b =
      if (s <<< 4).toNat + b.toNat < 2 ^ 32 then .ok (hashStep s b) else .error addOverflow := by
  rw [hashStepWith, checkedAdd, UInt8.toNat_toUInt32]
  split
  · rfl
  · rfl

/-- The checks pass where no sum along the name wraps. -/
theorem checked_iff (name : Name) (s : UInt32) :
    name.foldlM (hashStepWith checkedAdd) s ≠ .error addOverflow ↔
      ∀ p b rest, name = p ++ b :: rest →
        ((p.foldl hashStep s : UInt32) <<< 4).toNat + b.toNat < 2 ^ 32 := by
  induction name generalizing s with
  | nil =>
      refine iff_of_true nofun fun p b rest h => ?_
      exact absurd h (List.append_ne_nil_of_right_ne_nil p (List.cons_ne_nil b rest)).symm
  | cons c name ih =>
      rw [List.foldlM_cons, checkedStep_eq]
      constructor
      · intro h p b rest hsplit
        by_cases hsum : (s <<< 4).toNat + c.toNat < 2 ^ 32
        · rw [if_pos hsum] at h
          cases p with
          | nil =>
              cases hsplit
              exact hsum
          | cons d p =>
              cases hsplit
              exact (ih (hashStep s c)).mp h p b rest rfl
        · rw [if_neg hsum] at h
          exact absurd rfl h
      · intro h
        have hsum : (s <<< 4).toNat + c.toNat < 2 ^ 32 := h [] c name rfl
        rw [if_pos hsum]
        exact (ih (hashStep s c)).mpr fun p b rest hsplit => h (c :: p) b rest (hsplit ▸ rfl)

theorem hashStep_lt (s : UInt32) (b : UInt8) : (hashStep s b).toNat < 2 ^ 28 := by
  rw [hashStep, fold_eq, UInt32.toNat_and]
  exact Nat.lt_succ_of_le Nat.and_le_right

theorem hash_lt (name : Name) : (hash name).toNat < 2 ^ 28 := by
  rcases List.eq_nil_or_concat name with rfl | ⟨p, b, rfl⟩
  · decide
  · rw [hash, List.concat_eq_append, List.foldl_append]
    exact hashStep_lt _ b

/-- The state behind a byte, in digits: the last digit is that of the byte, and the
top one is folded into the last of the six that move up. -/
theorem hashStep_toNat {s : UInt32} {b : UInt8} (hs : s.toNat < 2 ^ 28)
    (hsum : 16 * s.toNat + b.toNat < 2 ^ 32) :
    (hashStep s b).toNat =
      16 * ((s.toNat + b.toNat / 16) % 2 ^ 24 ^^^ (s.toNat + b.toNat / 16) / 2 ^ 24) +
        b.toNat % 16 := by
  have hT : ((s <<< 4) + b.toUInt32).toNat = 16 * s.toNat + b.toNat := by
    rw [UInt32.toNat_add, shift_toNat, UInt8.toNat_toUInt32]
    omega
  rw [hashStep, fold_eq]
  generalize (s <<< 4) + b.toUInt32 = t at hT
  have hdigit : ((t &&& 0xf0000000) >>> 24).toNat = 2 ^ 4 * (t.toNat / 2 ^ 28) := by
    have hmask : (0xf0000000 : BitVec 32) = BitVec.allOnes 32 <<< 28 := by decide
    have htop := congrArg BitVec.toNat (Fields.and_high t.toBitVec 28)
    rw [Fields.toNat_shift_back, ← hmask] at htop
    have hcut : (t &&& 0xf0000000).toNat = t.toNat / 2 ^ 28 * 2 ^ 28 := htop
    rw [UInt32.toNat_shiftRight, hcut]
    simp [Nat.shiftRight_eq_div_pow]
    omega
  have hmask : ∀ x : UInt32, (x &&& 0x0fffffff).toNat = x.toNat % 2 ^ 28 := fun x =>
    Nat.and_two_pow_sub_one_eq_mod x.toNat 28
  -- the digits of the sum before the fold, and what the fold makes of them
  have hlast : (16 * s.toNat + b.toNat) % 2 ^ 4 = b.toNat % 16 := by omega
  have hrest : (16 * s.toNat + b.toNat) / 2 ^ 4 = s.toNat + b.toNat / 16 := by omega
  have htop : (16 * s.toNat + b.toNat) / 2 ^ 28 = (s.toNat + b.toNat / 16) / 2 ^ 24 := by omega
  rw [hmask, UInt32.toNat_xor, hdigit, hT, htop]
  generalize hu : s.toNat + b.toNat / 16 = u at *
  have hlow := Nat.xor_mod_two_pow (a := 16 * s.toNat + b.toNat) (b := 2 ^ 4 * (u / 2 ^ 24))
    (n := 4)
  have hhigh := Nat.xor_div_two_pow (a := 16 * s.toNat + b.toNat) (b := 2 ^ 4 * (u / 2 ^ 24))
    (n := 4)
  rw [Nat.mul_mod_right, Nat.xor_zero, hlast] at hlow
  rw [Nat.mul_div_cancel_left _ (by decide), hrest] at hhigh
  have hfold := Nat.xor_mod_two_pow (a := u) (b := u / 2 ^ 24) (n := 24)
  have hsmall : u / 2 ^ 24 % 2 ^ 24 = u / 2 ^ 24 := by omega
  rw [hsmall, ← hhigh] at hfold
  rw [← hfold]
  omega

/-- Behind the state `s` the bytes `b` and `c` carry out of the top: `b` makes all
six digits above its last one full, and that one and `c` add up to the next digit. -/
def Carries (s : UInt32) (b c : UInt8) : Prop :=
  (0 < s.toNat + b.toNat / 16 ∧ 2 ^ 24 - 1 ∣ s.toNat + b.toNat / 16) ∧
    16 ≤ b.toNat % 16 + c.toNat / 16

instance (s : UInt32) (b c : UInt8) : Decidable (Carries s b c) :=
  inferInstanceAs (Decidable (_ ∧ _))

theorem sum_lt_iff_not_carries {s : UInt32} {b c : UInt8} (hs : s.toNat < 2 ^ 28)
    (hsum : (s <<< 4).toNat + b.toNat < 2 ^ 32) :
    (hashStep s b <<< 4).toNat + c.toNat < 2 ^ 32 ↔ ¬ Carries s b c := by
  have hnext := hashStep_lt s b
  have hvalue := hashStep_toNat hs (b := b) (by rw [shift_toNat] at hsum; omega)
  have hc := c.toNat_lt
  rw [shift_toNat] at hsum ⊢
  unfold Carries
  generalize hu : s.toNat + b.toNat / 16 = u at *
  have htop : u / 2 ^ 24 < 2 ^ 24 := by omega
  have hones := Bits.xor_eq_ones_iff (a := u % 2 ^ 24) htop
  have hdigits : u % 2 ^ 24 ^^^ u / 2 ^ 24 < 2 ^ 24 :=
    Nat.xor_lt_two_pow (Nat.mod_lt _ (by decide)) htop
  have hmultiple : u % 2 ^ 24 + u / 2 ^ 24 = 2 ^ 24 - 1 ↔ 0 < u ∧ 2 ^ 24 - 1 ∣ u := by omega
  rw [hmultiple] at hones
  rw [← hones]
  generalize u % 2 ^ 24 ^^^ u / 2 ^ 24 = v at *
  omega

/-- When the checks pass along a name. -/
theorem hashWith_checked_iff (name : Name) :
    hashWith checkedAdd name ≠ .error addOverflow ↔
      ∀ p b c rest, name = p ++ b :: c :: rest → ¬ Carries (ElfHash.hash p) b c := by
  rw [hashWith, checked_iff]
  constructor
  · intro h p b c rest hsplit
    have hfirst := h p b (c :: rest) hsplit
    have hsecond := h (p ++ [b]) c rest (by rw [hsplit, List.append_assoc]; rfl)
    rw [List.foldl_append] at hsecond
    exact (sum_lt_iff_not_carries (hash_lt p) hfirst).mp hsecond
  · intro h p
    induction p using List.reverseRecOn with
    | nil =>
        intro b rest _
        have hb := b.toNat_lt
        rw [List.foldl_nil, shift_toNat, UInt32.toNat_zero]
        omega
    | append_singleton q d ih =>
        intro b rest hsplit
        have hsplit' : name = q ++ d :: b :: rest := by
          rw [hsplit, List.append_assoc]
          rfl
        rw [List.foldl_append]
        exact (sum_lt_iff_not_carries (hash_lt q) (ih d (b :: rest) hsplit')).mpr
          (h q d b rest hsplit')

end ElfHash

/-- Bytes that encode characters. -/
def ValidUtf8 (bytes : Name) : Prop := ∃ cs : List Char, bytes = cs.flatMap String.utf8EncodeChar

/-- In a build with overflow checks both functions return for exactly the names
without a carry out of the top. -/
theorem hashes_overflow_iff (name : Name) :
    (ElfHash.hashWith checkedAdd name ≠ .error addOverflow ∧
        SymbolVersion.dlElfHashWith checkedAdd name ≠ .error addOverflow) ↔
      ∀ p b c rest, name = p ++ b :: c :: rest → ¬ ElfHash.Carries (ElfHash.hash p) b c := by
  rw [← ElfHash.hashWith_checked_iff, and_iff_left_iff_imp]
  intro h
  cases name with
  | nil => exact nofun
  | cons b0 rest =>
      by_cases hb0 : b0 = 0
      · rw [hb0]
        exact nofun
      · rwa [dlElfHashWith_eq exact_checked hb0]

/-- The name `hxxxxryp`. -/
theorem hash_overflows_on_name :
    ¬ ∀ name : Name, ValidUtf8 name →
      ElfHash.hashWith checkedAdd name ≠ .error addOverflow ∧
        SymbolVersion.dlElfHashWith checkedAdd name ≠ .error addOverflow := by
  intro h
  have hvalid : ValidUtf8 [104, 120, 120, 120, 120, 114, 121, 112] :=
    ⟨['h', 'x', 'x', 'x', 'x', 'r', 'y', 'p'], by decide⟩
  exact (h _ hvalid).1 rfl

end ElfLoader
