import ElfLoader.Library.Splice
import ElfLoader.Os.Mmap

/-! # Readers over bytes in memory (`src/input/backend.rs`)

A reader fills the buffer it is handed. The buffer is the state of the run, so
that a call that stops says what it left there.
-/

namespace ElfLoader

open Splice

variable {w : Nat}

/-- `&[u8]`. The language bounds its length by `isize::MAX`. -/
structure ByteSlice (w : Nat) where
  bytes : List UInt8
  length_lt : bytes.length < 2 ^ (w - 1)

namespace ByteSlice

theorem length_lt_word (data : ByteSlice w) : data.bytes.length < 2 ^ w :=
  data.length_lt.trans_le (Nat.pow_le_pow_right (by decide) (Nat.sub_le w 1))

/-- `self.len()`. -/
def len (data : ByteSlice w) : BitVec w := BitVec.ofNat w data.bytes.length

@[simp] theorem len_toNat (data : ByteSlice w) : data.len.toNat = data.bytes.length := by
  rw [len, BitVec.toNat_ofNat, Nat.mod_eq_of_lt data.length_lt_word]

/-- `&self[start..end]`. -/
def range (data : ByteSlice w) (start stop : BitVec w) : Except Halt (List UInt8) :=
  if stop < start then .error (.panic "slice index starts after its end")
  else if data.len < stop then .error (.panic "range end index out of range for slice")
  else .ok (slice data.bytes start.toNat (stop.toNat - start.toNat))

end ByteSlice

/-- `buf.copy_from_slice(src)`. -/
def copyFromSlice (src : List UInt8) : EStateM Halt (List UInt8) Unit := fun buf =>
  if buf.length = src.length then .ok () src
  else .error (.panic "copy_from_slice: source slice length does not match") buf

/-- `ElfReader::read` of `ElfBinary`. -/
def ElfBinary.read (data : ByteSlice w) (offset : BitVec w) : EStateM Halt (List UInt8) Unit := do
  let buf ← get
  let src ← Exec.lift (data.range offset (offset + BitVec.ofNat w buf.length))
  copyFromSlice src

/-- `ElfReader::read` of `&[u8]`. -/
def ByteSlice.read (data : ByteSlice w) (offset : BitVec w) :
    EStateM Halt (List UInt8) Unit := do
  let buf ← get
  if offset + BitVec.ofNat w buf.length > data.len then
    throw (.err (.io "read offset out of bounds"))
  else
    let src ← Exec.lift (data.range offset (offset + BitVec.ofNat w buf.length))
    copyFromSlice src

/-- What the documentation of both readers promises: the range that was asked
for, or an error and the buffer as it was. -/
def ReadsRange (data : List UInt8) (offset : Nat) (buf : List UInt8)
    (r : EStateM.Result Halt (List UInt8) Unit) : Prop :=
  if offset + buf.length ≤ data.length then r = .ok () (slice data offset buf.length)
  else ∃ e, r = .error (.err e) buf

section Ranges

variable {data : ByteSlice w} {offset : BitVec w} {buf : ByteSlice w}

/-- The end of the range, if it is a word. -/
theorem toNat_end (h : offset.toNat + buf.bytes.length < 2 ^ w) :
    (offset + BitVec.ofNat w buf.bytes.length).toNat = offset.toNat + buf.bytes.length := by
  rw [BitVec.toNat_add, BitVec.toNat_ofNat, Nat.mod_eq_of_lt buf.length_lt_word,
    Nat.mod_eq_of_lt h]

/-- An end past the last word comes out below the start. -/
theorem toNat_end_of_wraps (h : 2 ^ w ≤ offset.toNat + buf.bytes.length) :
    (offset + BitVec.ofNat w buf.bytes.length).toNat =
      offset.toNat + buf.bytes.length - 2 ^ w := by
  have hoffset := offset.isLt
  have hbuf := buf.length_lt_word
  rw [BitVec.toNat_add, BitVec.toNat_ofNat, Nat.mod_eq_of_lt hbuf, Nat.mod_eq_sub_mod h,
    Nat.mod_eq_of_lt (by omega)]

theorem range_of_inside (h : offset.toNat + buf.bytes.length ≤ data.bytes.length) :
    data.range offset (offset + BitVec.ofNat w buf.bytes.length) =
      .ok (slice data.bytes offset.toNat buf.bytes.length) := by
  have hend := toNat_end (h.trans_lt data.length_lt_word)
  have hstart : ¬ offset + BitVec.ofNat w buf.bytes.length < offset := by
    rw [BitVec.lt_def, hend]
    omega
  have hstop : ¬ data.len < offset + BitVec.ofNat w buf.bytes.length := by
    rw [BitVec.lt_def, hend, data.len_toNat]
    omega
  rw [ByteSlice.range, if_neg hstart, if_neg hstop, hend, Nat.add_sub_cancel_left]

/-- A range that wraps starts after its end; any other one ends after the data. -/
theorem range_of_outside (h : data.bytes.length < offset.toNat + buf.bytes.length) :
    ∃ msg, data.range offset (offset + BitVec.ofNat w buf.bytes.length) = .error (.panic msg) := by
  rcases Nat.lt_or_ge (offset.toNat + buf.bytes.length) (2 ^ w) with hword | hwraps
  · have hstart : ¬ offset + BitVec.ofNat w buf.bytes.length < offset := by
      rw [BitVec.lt_def, toNat_end hword]
      omega
    have hstop : data.len < offset + BitVec.ofNat w buf.bytes.length := by
      rw [BitVec.lt_def, toNat_end hword, data.len_toNat]
      exact h
    rw [ByteSlice.range, if_neg hstart, if_pos hstop]
    exact ⟨_, rfl⟩
  · have hstart : offset + BitVec.ofNat w buf.bytes.length < offset := by
      have hoffset := offset.isLt
      have hbuf := buf.length_lt_word
      rw [BitVec.lt_def, toNat_end_of_wraps hwraps]
      omega
    rw [ByteSlice.range, if_pos hstart]
    exact ⟨_, rfl⟩

theorem copyFromSlice_of_inside (h : offset.toNat + buf.bytes.length ≤ data.bytes.length) :
    copyFromSlice (slice data.bytes offset.toNat buf.bytes.length) buf.bytes =
      .ok () (slice data.bytes offset.toNat buf.bytes.length) := by
  rw [copyFromSlice, if_pos (slice_length h).symm]

end Ranges

section Readers

variable (data : ByteSlice w) (offset : BitVec w) (buf : ByteSlice w)

theorem ElfBinary.read_of_inside (h : offset.toNat + buf.bytes.length ≤ data.bytes.length) :
    ElfBinary.read data offset buf.bytes =
      .ok () (slice data.bytes offset.toNat buf.bytes.length) := by
  rw [ElfBinary.read, Exec.bind_of_ok (Exec.get_apply _), range_of_inside h,
    Exec.bind_of_ok (Exec.lift_ok _ _)]
  exact copyFromSlice_of_inside h

theorem ElfBinary.read_of_outside (h : data.bytes.length < offset.toNat + buf.bytes.length) :
    ∃ msg, ElfBinary.read data offset buf.bytes = .error (.panic msg) buf.bytes := by
  obtain ⟨msg, hrange⟩ := range_of_outside h
  refine ⟨msg, ?_⟩
  rw [ElfBinary.read, Exec.bind_of_ok (Exec.get_apply _), hrange,
    Exec.bind_of_error (Exec.lift_error _ _)]

/-- The check passes: what follows is the other reader. -/
theorem ByteSlice.read_of_end_le
    (h : (offset + BitVec.ofNat w buf.bytes.length).toNat ≤ data.bytes.length) :
    data.read offset buf.bytes = ElfBinary.read data offset buf.bytes := by
  have hcheck : ¬ offset + BitVec.ofNat w buf.bytes.length > data.len := by
    rw [gt_iff_lt, BitVec.lt_def, data.len_toNat]
    omega
  rw [ByteSlice.read, Exec.bind_of_ok (Exec.get_apply _), if_neg hcheck]
  rfl

theorem ByteSlice.read_of_end_gt
    (h : data.bytes.length < (offset + BitVec.ofNat w buf.bytes.length).toNat) :
    data.read offset buf.bytes =
      .error (.err (.io "read offset out of bounds")) buf.bytes := by
  have hcheck : offset + BitVec.ofNat w buf.bytes.length > data.len := by
    rw [gt_iff_lt, BitVec.lt_def, data.len_toNat]
    exact h
  rw [ByteSlice.read, Exec.bind_of_ok (Exec.get_apply _), if_pos hcheck]
  rfl

theorem not_readsRange_panic {data buf buf' : List UInt8} {off : Nat} {msg : String} :
    ¬ ReadsRange data off buf (.error (.panic msg) buf') := by
  unfold ReadsRange
  split
  · exact fun h => by cases h
  · rintro ⟨e, he⟩
    cases he

/-- The reader without a check keeps the promise inside the data only. -/
theorem ElfBinary.readsRange_iff :
    ReadsRange data.bytes offset.toNat buf.bytes (ElfBinary.read data offset buf.bytes) ↔
      offset.toNat + buf.bytes.length ≤ data.bytes.length := by
  by_cases hinside : offset.toNat + buf.bytes.length ≤ data.bytes.length
  · refine iff_of_true ?_ hinside
    rw [ReadsRange, if_pos hinside]
    exact ElfBinary.read_of_inside data offset buf hinside
  · refine iff_of_false ?_ hinside
    obtain ⟨msg, hread⟩ := ElfBinary.read_of_outside data offset buf (Nat.lt_of_not_le hinside)
    rw [hread]
    exact not_readsRange_panic

/-- The reader with a check breaks it where the end of the range wraps to a place
inside the data. -/
theorem ByteSlice.readsRange_iff :
    ReadsRange data.bytes offset.toNat buf.bytes (data.read offset buf.bytes) ↔
      (2 ^ w ≤ offset.toNat + buf.bytes.length →
        data.bytes.length < offset.toNat + buf.bytes.length - 2 ^ w) := by
  have hdata := data.length_lt_word
  rcases Nat.lt_or_ge data.bytes.length (offset + BitVec.ofNat w buf.bytes.length).toNat
    with hgt | hle
  · have houtside : ¬ offset.toNat + buf.bytes.length ≤ data.bytes.length := by
      intro hinside
      rw [toNat_end (hinside.trans_lt hdata)] at hgt
      omega
    refine iff_of_true ?_ fun hwraps => by rwa [toNat_end_of_wraps hwraps] at hgt
    rw [ByteSlice.read_of_end_gt data offset buf hgt, ReadsRange, if_neg houtside]
    exact ⟨_, rfl⟩
  · rw [ByteSlice.read_of_end_le data offset buf hle, ElfBinary.readsRange_iff]
    rcases Nat.lt_or_ge (offset.toNat + buf.bytes.length) (2 ^ w) with hword | hwraps
    · rw [toNat_end hword] at hle
      exact iff_of_true hle fun hwraps => absurd hword (Nat.not_lt_of_le hwraps)
    · rw [toNat_end_of_wraps hwraps] at hle
      exact iff_of_false (by omega) fun h => by
        have := h hwraps
        omega

/-- The two readers do what they promise, and so agree, on the ranges inside the
data. -/
theorem readers_agree_iff :
    (ReadsRange data.bytes offset.toNat buf.bytes (ElfBinary.read data offset buf.bytes) ∧
        ReadsRange data.bytes offset.toNat buf.bytes (data.read offset buf.bytes)) ↔
      offset.toNat + buf.bytes.length ≤ data.bytes.length := by
  have hdata := data.length_lt_word
  rw [ElfBinary.readsRange_iff, ByteSlice.readsRange_iff, and_iff_left_iff_imp]
  intro hinside hwraps
  omega

/-- One byte asked of an empty file. -/
theorem binary_read_past_end :
    ¬ ReadsRange [] 0 [0] (ElfBinary.read (w := 64) ⟨[], by decide⟩ 0 [0]) := by
  have hread : ElfBinary.read (w := 64) ⟨[], by decide⟩ 0 [0] =
      .error (.panic "range end index out of range for slice") [0] := rfl
  rw [hread]
  exact not_readsRange_panic

end Readers

end ElfLoader
