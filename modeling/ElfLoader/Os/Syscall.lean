import ElfLoader.Os.Mmap

/-! # What a system call returns (`src/os/unix.rs`, `src/os/linux_syscall.rs`)

The kernel answers with a number or with an error number. The two backends see
the answer in different forms: the C library turns an error into `-1`, a raw
system call returns its negation in the same register as a result.
-/

namespace ElfLoader

variable {w : Nat}

/-- An error number of the kernel. -/
structure Errno where
  code : Nat
  code_pos : 0 < code
  code_lt : code < 4096
deriving DecidableEq

/-- `EINVAL`. -/
def Errno.inval : Errno := ⟨22, by decide, by decide⟩

/-- `ENOMEM`. -/
def Errno.nomem : Errno := ⟨12, by decide, by decide⟩

/-- The `ssize_t` or `off_t` the C library returns. -/
def libcRet : Except Errno Nat → Int
  | .ok n => n
  | .error _ => -1

/-- The register after a raw system call. -/
def rawRet : Except Errno Nat → BitVec w
  | .ok n => BitVec.ofNat w n
  | .error e => -BitVec.ofNat w e.code

/-- The last 4095 words are errors. -/
def checkRet (error : String → Error) (value : BitVec w) (msg : String) :
    Except Halt (BitVec w) :=
  if value > -4096#w then .error (.err (error msg)) else .ok value

def fromRet (value : BitVec w) (msg : String) : Except Halt (BitVec w) :=
  checkRet .mmap value msg

def fromIoRet (value : BitVec w) (msg : String) : Except Halt (BitVec w) :=
  checkRet .io value msg

section Returns

variable [WordSize w]

/-- Between the signed numbers and the error numbers there is room. -/
theorem WordSize.errno_room (w : Nat) [h : WordSize w] :
    4096 < 2 ^ (w - 1) ∧ 2 ^ (w - 1) + 4096 ≤ 2 ^ w := by
  rcases h.eq_32_or_64 with rfl | rfl <;> decide

theorem toNat_neg_page : (-4096#w).toNat = 2 ^ w - 4096 := by
  obtain ⟨hbig, hroom⟩ := WordSize.errno_room w
  rw [BitVec.toNat_neg, BitVec.toNat_ofNat, Nat.mod_eq_of_lt (a := 4096) (by omega),
    Nat.mod_eq_of_lt (by omega)]

theorem checkRet_rawRet_error (error : String → Error) (e : Errno) (msg : String) :
    checkRet error (rawRet (.error e) : BitVec w) msg = .error (.err (error msg)) := by
  obtain ⟨hbig, hroom⟩ := WordSize.errno_room w
  have hpos := e.code_pos
  have hlt := e.code_lt
  refine if_pos ?_
  rw [gt_iff_lt, BitVec.lt_def, toNat_neg_page, rawRet, BitVec.toNat_neg, BitVec.toNat_ofNat,
    Nat.mod_eq_of_lt (a := e.code) (by omega), Nat.mod_eq_of_lt (by omega)]
  omega

/-- A result that a signed register can hold is not mistaken for an error. -/
theorem checkRet_rawRet_ok (error : String → Error) {n : Nat} (h : n < 2 ^ (w - 1))
    (msg : String) :
    checkRet error (rawRet (.ok n) : BitVec w) msg = .ok (BitVec.ofNat w n) := by
  obtain ⟨hbig, hroom⟩ := WordSize.errno_room w
  refine if_neg ?_
  rw [gt_iff_lt, BitVec.lt_def, toNat_neg_page, rawRet, BitVec.toNat_ofNat,
    Nat.mod_eq_of_lt (by omega)]
  omega

end Returns

end ElfLoader
