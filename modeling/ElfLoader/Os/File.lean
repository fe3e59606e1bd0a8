import ElfLoader.Input.Backend
import ElfLoader.Os.Syscall

/-! # Reading a file (`RawFile::read` of `src/os/unix.rs` and `src/os/linux_syscall.rs`)

The kernel is free in how much of a request a `read` satisfies, and in whether a
call fails. That freedom is a parameter: the answers to the reads in the order
in which they are made.
-/

namespace ElfLoader

open Splice

variable {w : Nat}

/-- A file and what the kernel will answer. -/
structure FileKernel where
  file : List UInt8
  /-- The refusal of the `lseek`, if it is refused. -/
  seek : Option Errno
  /-- For each `read`: a failure, or how many bytes it is willing to hand over. -/
  answer : Nat → Except Errno Nat

/-- One call of `RawFile::read`: the position of the descriptor, the number of
`read` system calls so far, whether a system call failed, and the buffer. -/
structure FileIo where
  pos : Nat
  calls : Nat
  failed : Bool
  buf : List UInt8
deriving DecidableEq

namespace FileKernel

/-- The system call `lseek(fd, offset, SEEK_SET)`. The offset is a signed number. -/
def lseek (k : FileKernel) (offset : BitVec w) : EStateM Halt FileIo (Except Errno Nat) :=
  fun s =>
    match k.seek with
    | some e => .ok (.error e) { s with failed := true }
    | none =>
        if offset.msb then .ok (.error Errno.inval) { s with failed := true }
        else .ok (.ok offset.toNat) { s with pos := offset.toNat }

/-- What a `read` that is willing to hand over `n` bytes takes from the file: at
least one byte, unless the file is at its end. -/
def taken (k : FileKernel) (pos len n : Nat) : List UInt8 :=
  (slice k.file pos len).take (max 1 n)

/-- The system call `read(fd, buf + start, len)`. -/
def read (k : FileKernel) (start len : Nat) : EStateM Halt FileIo (Except Errno Nat) := fun s =>
  match k.answer s.calls with
  | .error e => .ok (.error e) { s with calls := s.calls + 1, failed := true }
  | .ok n =>
      let got := k.taken s.pos len n
      .ok (.ok got.length) {
        s with
        pos := s.pos + got.length
        calls := s.calls + 1
        buf := s.buf.take start ++ got ++ s.buf.drop (start + got.length) }

/-- The kernel refuses to move to `offset`. -/
def SeekFails (k : FileKernel) (offset : BitVec w) : Prop := k.seek ≠ none ∨ offset.msb = true

end FileKernel

/-! ## The C library (`src/os/unix.rs`) -/

namespace Libc

def lseek (k : FileKernel) (offset : BitVec w) : EStateM Halt FileIo Unit := do
  let off := libcRet (← k.lseek offset)
  if off = -1 ∨ BitVec.ofInt w off ≠ offset then throw (.err (.io "lseek failed"))

/-- The loop, with `rest` bytes of the buffer from `start` on to go. -/
def readExact (k : FileKernel) (start rest : Nat) : EStateM Halt FileIo Unit := do
  if rest = 0 then return ()
  else
    let result := libcRet (← k.read start rest)
    if result < 0 then throw (.err (.io "read error"))
    else if result = 0 then throw (.err (.io "failed to fill buffer"))
    else if rest < result.toNat then throw (.panic "range start index out of range for slice")
    else readExact k (start + result.toNat) (rest - result.toNat)
termination_by rest

def read (k : FileKernel) (offset : BitVec w) : EStateM Halt FileIo Unit := do
  lseek k offset
  let s ← get
  readExact k 0 s.buf.length

end Libc

/-! ## Raw system calls (`src/os/linux_syscall.rs`) -/

namespace RawSyscall

def read (k : FileKernel) (offset : BitVec w) : EStateM Halt FileIo Unit := do
  let sought ← k.lseek offset
  let _ ← Exec.lift (fromIoRet (rawRet sought : BitVec w) "lseek failed")
  let s ← get
  let got ← k.read 0 s.buf.length
  let size ← Exec.lift (fromIoRet (rawRet got : BitVec w) "read failed")
  if size ≠ BitVec.ofNat w s.buf.length then
    throw (.panic "assertion failed: size == buf.len()")

end RawSyscall

/-! ## What a call promises -/

/-- The whole range of the file if no system call failed and the file has it, and
an error otherwise. -/
def ReadsExactly (k : FileKernel) (offset len : Nat) (r : EStateM.Result Halt FileIo Unit) :
    Prop :=
  if offset + len ≤ k.file.length ∧ (Exec.finalState r).failed = false then
    ∃ s, r = .ok () s ∧ s.buf = slice k.file offset len
  else ∃ e s, r = .error (.err e) s

/-- Two calls with the same outcome, up to the text of an error. -/
def SameRead : (r r' : EStateM.Result Halt FileIo Unit) → Prop
  | .ok _ s, .ok _ s' => s.buf = s'.buf
  | .error (.err _) _, .error (.err _) _ => True
  | _, _ => False

/-- The state in which a call starts. -/
def FileIo.start (pos : Nat) (buf : List UInt8) : FileIo :=
  { pos, calls := 0, failed := false, buf }

/-- The first `read` decides: it fails, or it hands over all that was asked for. -/
def FirstRead (k : FileKernel) (offset len : Nat) : Prop :=
  match k.answer 0 with
  | .error _ => 0 < len
  | .ok n => offset + len ≤ k.file.length ∧ len ≤ max 1 n

section Calls

variable {k : FileKernel} {offset : BitVec w} {s : FileIo}

instance : Decidable (k.SeekFails offset) := inferInstanceAs (Decidable (_ ∨ _))

theorem FileKernel.lseek_of_fails (h : k.SeekFails offset) :
    ∃ e, k.lseek offset s = .ok (.error e) { s with failed := true } := by
  unfold FileKernel.lseek
  cases hseek : k.seek with
  | some e => exact ⟨e, rfl⟩
  | none =>
      have hmsb : offset.msb = true := h.resolve_left fun hne => hne hseek
      exact ⟨Errno.inval, if_pos hmsb⟩

theorem FileKernel.lseek_of_not_fails (h : ¬ k.SeekFails offset) :
    k.lseek offset s = .ok (.ok offset.toNat) { s with pos := offset.toNat } := by
  obtain ⟨hseek, hmsb⟩ := not_or.mp h
  unfold FileKernel.lseek
  rw [not_not.mp hseek]
  exact if_neg hmsb

theorem FileKernel.read_of_error (start len : Nat) {e : Errno} (h : k.answer s.calls = .error e) :
    k.read start len s = .ok (.error e) { s with calls := s.calls + 1, failed := true } := by
  rw [FileKernel.read, h]

theorem FileKernel.read_of_ok (start len : Nat) {n : Nat} (h : k.answer s.calls = .ok n) :
    k.read start len s = .ok (.ok (k.taken s.pos len n).length) {
      s with
      pos := s.pos + (k.taken s.pos len n).length
      calls := s.calls + 1
      buf := s.buf.take start ++ k.taken s.pos len n ++
        s.buf.drop (start + (k.taken s.pos len n).length) } := by
  rw [FileKernel.read, h]

theorem FileKernel.taken_length (k : FileKernel) (pos len n : Nat) :
    (k.taken pos len n).length = min (max 1 n) (min len (k.file.length - pos)) := by
  rw [FileKernel.taken, slice, List.length_take, List.length_take, List.length_drop]

/-- Reading on from where the descriptor stands. -/
theorem FileKernel.slice_append_taken (k : FileKernel) (pos start len n : Nat) :
    slice k.file pos start ++ k.taken (pos + start) len n =
      slice k.file pos (start + (k.taken (pos + start) len n).length) := by
  have htaken : k.taken (pos + start) len n =
      (k.file.drop (pos + start)).take (k.taken (pos + start) len n).length := by
    rw [FileKernel.taken, slice, List.take_take, List.length_take, ← List.take_eq_take_min]
  rw [slice, slice, List.take_add, List.drop_drop, ← htaken]

theorem Libc.lseek_of_fails (h : k.SeekFails offset) :
    Libc.lseek k offset s = .error (.err (.io "lseek failed")) { s with failed := true } := by
  obtain ⟨e, hseek⟩ := FileKernel.lseek_of_fails (s := s) h
  rw [Libc.lseek, Exec.bind_of_ok hseek]
  rfl

theorem Libc.lseek_of_not_fails (h : ¬ k.SeekFails offset) :
    Libc.lseek k offset s = .ok () { s with pos := offset.toNat } := by
  have hret : ¬ (libcRet (.ok offset.toNat) = -1 ∨
      BitVec.ofInt w (libcRet (.ok offset.toNat)) ≠ offset) := by
    rw [libcRet, not_or, not_not]
    refine ⟨by omega, ?_⟩
    rw [BitVec.ofInt_natCast, BitVec.ofNat_toNat, BitVec.setWidth_eq]
  rw [Libc.lseek, Exec.bind_of_ok (FileKernel.lseek_of_not_fails h), if_neg hret]
  rfl

end Calls

theorem ReadsExactly.of_err {k : FileKernel} {offset len : Nat} {e : Error} {s : FileIo}
    (h : ¬ (offset + len ≤ k.file.length ∧ s.failed = false)) :
    ReadsExactly k offset len (.error (.err e) s) := by
  rw [ReadsExactly, Exec.finalState_error, if_neg h]
  exact ⟨e, s, rfl⟩

theorem readsExactly_ok_iff {k : FileKernel} {offset len : Nat} {s : FileIo}
    (hfailed : s.failed = false) :
    ReadsExactly k offset len (.ok () s) ↔
      offset + len ≤ k.file.length ∧ s.buf = slice k.file offset len := by
  rw [ReadsExactly, Exec.finalState_ok]
  split
  · next hboth =>
      constructor
      · rintro ⟨s', hs, hbuf⟩
        cases hs
        exact ⟨hboth.1, hbuf⟩
      · rintro ⟨-, hbuf⟩
        exact ⟨s, rfl, hbuf⟩
  · next hnot =>
      constructor
      · rintro ⟨e, s', hs⟩
        cases hs
      · rintro ⟨hinside, -⟩
        exact absurd ⟨hinside, hfailed⟩ hnot

theorem not_readsExactly_panic {k : FileKernel} {offset len : Nat} {msg : String} {s : FileIo} :
    ¬ ReadsExactly k offset len (.error (.panic msg) s) := by
  unfold ReadsExactly
  split
  · rintro ⟨s', hs, -⟩
    cases hs
  · rintro ⟨e, s', hs⟩
    cases hs

/-! ## The loop -/

/-- The first `start` bytes of the buffer are the file's, from `offset` on, and
`rest` bytes are missing. -/
structure Filled (k : FileKernel) (offset start rest : Nat) (s : FileIo) : Prop where
  pos : s.pos = offset + start
  ok : s.failed = false
  length : s.buf.length = start + rest
  content : s.buf.take start = slice k.file offset start
  inside : start = 0 ∨ offset + start ≤ k.file.length

namespace Filled

variable {k : FileKernel} {offset start rest n : Nat} {s : FileIo}

/-- One `read` that hands over something. -/
theorem step (h : Filled k offset start rest s) (hpos : 0 < (k.taken s.pos rest n).length) :
    Filled k offset (start + (k.taken s.pos rest n).length)
      (rest - (k.taken s.pos rest n).length) {
        s with
        pos := s.pos + (k.taken s.pos rest n).length
        calls := s.calls + 1
        buf := s.buf.take start ++ k.taken s.pos rest n ++
          s.buf.drop (start + (k.taken s.pos rest n).length) } where
  pos := by rw [h.pos, Nat.add_assoc]
  ok := h.ok
  length := by
    have hlen := h.length
    have htaken := k.taken_length s.pos rest n
    simp only [List.length_append, List.length_take, List.length_drop]
    omega
  content := by
    have hlen := h.length
    have htake : (s.buf.take start).length = start := by
      rw [List.length_take]
      omega
    rw [List.take_append_of_le_length (by rw [List.length_append, htake]),
      List.take_of_length_le (by rw [List.length_append, htake]), h.content, h.pos]
    exact k.slice_append_taken offset start rest n
  inside := by
    have htaken := k.taken_length s.pos rest n
    rw [h.pos] at htaken hpos ⊢
    omega

end Filled

/-- However the kernel splits the range, the loop returns the whole of it or an
error; only an empty range is not looked up in the file. -/
theorem Libc.readExact_spec {k : FileKernel} {offset start rest : Nat} {s : FileIo}
    (h : Filled k offset start rest s) (hne : 0 < start + rest ∨ offset ≤ k.file.length) :
    ReadsExactly k offset (start + rest) (Libc.readExact k start rest s) := by
  induction rest using Nat.strongRecOn generalizing start s with
  | ind rest ih =>
      rw [Libc.readExact]
      by_cases hzero : rest = 0
      · rw [if_pos hzero, hzero, Nat.add_zero]
        have hinside : offset + start ≤ k.file.length := by
          have hin := h.inside
          omega
        rw [ReadsExactly, Exec.pure_apply, Exec.finalState_ok, if_pos ⟨hinside, h.ok⟩]
        refine ⟨s, rfl, ?_⟩
        rw [← h.content, List.take_of_length_le]
        have hlen := h.length
        omega
      · rw [if_neg hzero]
        cases hanswer : k.answer s.calls with
        | error e =>
            rw [Exec.bind_of_ok (FileKernel.read_of_error start rest hanswer)]
            exact ReadsExactly.of_err fun hboth => Bool.noConfusion hboth.2
        | ok n =>
            rw [Exec.bind_of_ok (FileKernel.read_of_ok start rest hanswer)]
            have htaken := k.taken_length s.pos rest n
            set m := (k.taken s.pos rest n).length with hm
            rcases Nat.eq_zero_or_pos m with hnone | hsome
            · -- the file ends where the descriptor stands
              have hend : ¬ offset + (start + rest) ≤ k.file.length := by
                rw [h.pos] at htaken
                omega
              rw [hnone]
              exact ReadsExactly.of_err fun hboth => hend hboth.1
            · have hresult : libcRet (.ok m) = (m : Int) := rfl
              rw [hresult, if_neg (by omega), if_neg (by omega), Int.toNat_natCast,
                if_neg (by omega)]
              have hrest := ih (rest - m) (by omega) (h.step hsome) (by omega)
              rwa [show start + m + (rest - m) = start + rest by omega] at hrest

/-! ## The two backends -/

section Backends

variable {k : FileKernel} {offset : BitVec w} {pos : Nat} {buf : List UInt8}

theorem Libc.read_of_seekFails (h : k.SeekFails offset) :
    Libc.read k offset (FileIo.start pos buf) =
      .error (.err (.io "lseek failed")) { FileIo.start pos buf with failed := true } := by
  rw [Libc.read, Exec.bind_of_error (Libc.lseek_of_fails h)]

/-- After a successful `lseek` only the loop is left. -/
theorem Libc.read_of_not_seekFails (h : ¬ k.SeekFails offset) :
    Libc.read k offset (FileIo.start pos buf) =
      Libc.readExact k 0 buf.length (FileIo.start offset.toNat buf) := by
  rw [Libc.read, Exec.bind_of_ok (Libc.lseek_of_not_fails h), Exec.bind_of_ok (Exec.get_apply _)]
  rfl

theorem filled_start (k : FileKernel) (offset : Nat) (buf : List UInt8) :
    Filled k offset 0 buf.length (FileIo.start offset buf) where
  pos := rfl
  ok := rfl
  length := (Nat.zero_add _).symm
  content := by rw [slice, List.take_zero, List.take_zero]
  inside := .inl rfl

/-- The backend that loops keeps its promise, except that it reads nothing at an
offset after the end. -/
theorem Libc.readsExactly_iff :
    ReadsExactly k offset.toNat buf.length (Libc.read k offset (FileIo.start pos buf)) ↔
      k.SeekFails offset ∨ 0 < buf.length ∨ offset.toNat ≤ k.file.length := by
  by_cases hseek : k.SeekFails offset
  · refine iff_of_true ?_ (.inl hseek)
    rw [Libc.read_of_seekFails hseek]
    exact ReadsExactly.of_err fun hboth => Bool.noConfusion hboth.2
  · rw [Libc.read_of_not_seekFails hseek, or_iff_right hseek]
    by_cases hne : 0 < buf.length ∨ offset.toNat ≤ k.file.length
    · refine iff_of_true ?_ hne
      have hspec := Libc.readExact_spec (filled_start k offset.toNat buf) (by omega)
      rwa [Nat.zero_add] at hspec
    · refine iff_of_false ?_ hne
      have hempty : buf.length = 0 := by omega
      have houtside : ¬ offset.toNat + 0 ≤ k.file.length := by omega
      rw [hempty, Libc.readExact, if_pos rfl, ReadsExactly, if_neg fun hboth => houtside hboth.1]
      rintro ⟨e, s, he⟩
      cases he

theorem Libc.readExact_zero (k : FileKernel) (start : Nat) (s : FileIo) :
    Libc.readExact k start 0 s = .ok () s := by
  rw [Libc.readExact, if_pos rfl]
  rfl

/-- The first `read` fails. -/
theorem Libc.readExact_of_error {e : Errno} {s : FileIo} (start : Nat) {rest : Nat} (hrest : 0 < rest)
    (herror : k.answer s.calls = .error e) :
    ∃ s', Libc.readExact k start rest s = .error (.err (.io "read error")) s' := by
  rw [Libc.readExact, if_neg (by omega), Exec.bind_of_ok (FileKernel.read_of_error start rest herror)]
  exact ⟨_, rfl⟩

/-- A first `read` that fills the buffer fills it with the range. -/
theorem FileKernel.read_start (buf : List UInt8) {n : Nat} (hok : k.answer 0 = .ok n) (offset : Nat) :
    ∃ s, k.read 0 buf.length (FileIo.start offset buf) =
        .ok (.ok (k.taken offset buf.length n).length) s ∧ s.failed = false ∧
      ((k.taken offset buf.length n).length = buf.length →
        s.buf = slice k.file offset buf.length) := by
  refine ⟨_, FileKernel.read_of_ok (s := FileIo.start offset buf) 0 buf.length hok, rfl, fun hall => ?_⟩
  have hcontent := k.slice_append_taken offset 0 buf.length n
  simp only [Nat.add_zero, Nat.zero_add, slice, List.take_zero, List.nil_append] at hcontent
  change buf.take 0 ++ k.taken offset buf.length n ++
    buf.drop (0 + (k.taken offset buf.length n).length) = _
  rw [Nat.zero_add, hall, List.drop_length, List.append_nil, List.take_zero, List.nil_append,
    hcontent, hall, slice]

/-- The first `read` hands over everything, so there is no second one. -/
theorem Libc.readExact_of_all {n : Nat} (hok : k.answer 0 = .ok n) {offset : Nat}
    (hall : (k.taken offset buf.length n).length = buf.length) :
    ∃ s, Libc.readExact k 0 buf.length (FileIo.start offset buf) = .ok () s ∧
      s.buf = slice k.file offset buf.length := by
  rcases Nat.eq_zero_or_pos buf.length with hempty | hpos
  · have hnil := List.length_eq_zero_iff.mp hempty
    rw [hempty, Libc.readExact_zero]
    refine ⟨_, rfl, ?_⟩
    rw [slice, List.take_zero]
    exact hnil
  · obtain ⟨s, hread, -, hcontent⟩ := FileKernel.read_start buf hok offset
    have hresult : libcRet (.ok buf.length) = (buf.length : Int) := rfl
    refine ⟨s, ?_, hcontent hall⟩
    rw [Libc.readExact, if_neg (by omega), Exec.bind_of_ok hread, hall, hresult,
      if_neg (by omega), if_neg (by omega), Int.toNat_natCast, if_neg (by omega), Nat.sub_self,
      Libc.readExact_zero]

section Raw

variable [WordSize w]

theorem RawSyscall.read_of_seekFails (h : k.SeekFails offset) :
    RawSyscall.read k offset (FileIo.start pos buf) =
      .error (.err (.io "lseek failed")) { FileIo.start pos buf with failed := true } := by
  obtain ⟨e, hseek⟩ := FileKernel.lseek_of_fails (s := FileIo.start pos buf) h
  rw [RawSyscall.read, Exec.bind_of_ok hseek, fromIoRet, checkRet_rawRet_error,
    Exec.bind_of_error (Exec.lift_error _ _)]

/-- After a successful `lseek` the backend asks once for the whole buffer. -/
theorem RawSyscall.read_of_not_seekFails (h : ¬ k.SeekFails offset) :
    RawSyscall.read k offset (FileIo.start pos buf) =
      (k.read 0 buf.length >>= fun got => do
        let size ← Exec.lift (fromIoRet (rawRet got : BitVec w) "read failed")
        if size ≠ BitVec.ofNat w buf.length then
          throw (.panic "assertion failed: size == buf.len()"))
        (FileIo.start offset.toNat buf) := by
  have hoffset : offset.toNat < 2 ^ (w - 1) := by
    have hmsb := (not_or.mp h).2
    rw [BitVec.msb_eq_decide, decide_eq_true_eq] at hmsb
    omega
  rw [RawSyscall.read, Exec.bind_of_ok (FileKernel.lseek_of_not_fails h), fromIoRet,
    checkRet_rawRet_ok _ hoffset, Exec.bind_of_ok (Exec.lift_ok _ _),
    Exec.bind_of_ok (Exec.get_apply _)]
  rfl

theorem RawSyscall.read_of_error (pos : Nat) (buf : List UInt8) (h : ¬ k.SeekFails offset) {e : Errno}
    (herror : k.answer 0 = .error e) :
    ∃ s, RawSyscall.read k offset (FileIo.start pos buf) =
      .error (.err (.io "read failed")) s ∧ s.failed = true := by
  have hread := FileKernel.read_of_error (s := FileIo.start offset.toNat buf) 0 buf.length herror
  rw [RawSyscall.read_of_not_seekFails h, Exec.bind_of_ok hread, fromIoRet,
    checkRet_rawRet_error, Exec.bind_of_error (Exec.lift_error _ _)]
  exact ⟨_, rfl, rfl⟩

/-- What the kernel hands over at once is all there will be. -/
theorem RawSyscall.read_of_ok (pos : Nat) (h : ¬ k.SeekFails offset) (hbuf : buf.length < 2 ^ (w - 1))
    {n : Nat} (hok : k.answer 0 = .ok n) :
    ∃ s, s.failed = false ∧
      ((k.taken offset.toNat buf.length n).length = buf.length →
        s.buf = slice k.file offset.toNat buf.length) ∧
      RawSyscall.read k offset (FileIo.start pos buf) =
        if (k.taken offset.toNat buf.length n).length = buf.length then .ok () s
        else .error (.panic "assertion failed: size == buf.len()") s := by
  obtain ⟨hbig, hroom⟩ := WordSize.errno_room w
  have htaken := k.taken_length offset.toNat buf.length n
  obtain ⟨s, hread, hfailed, hcontent⟩ := FileKernel.read_start buf hok offset.toNat
  refine ⟨s, hfailed, hcontent, ?_⟩
  rw [RawSyscall.read_of_not_seekFails h, Exec.bind_of_ok hread, fromIoRet,
    checkRet_rawRet_ok _ (by omega), Exec.bind_of_ok (Exec.lift_ok _ _)]
  by_cases hall : (k.taken offset.toNat buf.length n).length = buf.length
  · rw [if_pos hall, hall, if_neg (not_not.mpr rfl)]
    rfl
  · have hsize : BitVec.ofNat w (k.taken offset.toNat buf.length n).length ≠
        BitVec.ofNat w buf.length := by
      rw [ne_eq, ← BitVec.toNat_inj, BitVec.toNat_ofNat, BitVec.toNat_ofNat,
        Nat.mod_eq_of_lt (by omega), Nat.mod_eq_of_lt (by omega)]
      exact hall
    rw [if_neg hall, if_pos hsize]
    rfl

/-- The first `read` fails, or hands over the whole range. -/
theorem RawSyscall.readsExactly_iff (hbuf : buf.length < 2 ^ (w - 1)) :
    ReadsExactly k offset.toNat buf.length (RawSyscall.read k offset (FileIo.start pos buf)) ↔
      k.SeekFails offset ∨ match k.answer 0 with
        | .error _ => True
        | .ok n => offset.toNat + buf.length ≤ k.file.length ∧ buf.length ≤ max 1 n := by
  by_cases hseek : k.SeekFails offset
  · refine iff_of_true ?_ (.inl hseek)
    rw [RawSyscall.read_of_seekFails hseek]
    exact ReadsExactly.of_err fun hboth => Bool.noConfusion hboth.2
  · rw [or_iff_right hseek]
    cases hanswer : k.answer 0 with
    | error e =>
        obtain ⟨s, hread, hfailed⟩ := RawSyscall.read_of_error pos buf hseek
          hanswer
        refine iff_of_true ?_ trivial
        rw [hread]
        refine ReadsExactly.of_err fun hboth => ?_
        rw [hfailed] at hboth
        exact Bool.noConfusion hboth.2
    | ok n =>
        obtain ⟨s, hfailed, hcontent, hread⟩ := RawSyscall.read_of_ok pos hseek hbuf
          hanswer
        have htaken := k.taken_length offset.toNat buf.length n
        rw [hread]
        by_cases hall : (k.taken offset.toNat buf.length n).length = buf.length
        · rw [if_pos hall, readsExactly_ok_iff hfailed, and_iff_left (hcontent hall)]
          have hmax : buf.length ≤ max 1 n := by omega
          exact (and_iff_left hmax).symm
        · rw [if_neg hall]
          exact iff_of_false not_readsExactly_panic (by omega)

/-- The two backends read exactly, and alike, when the file cannot be positioned,
or the first `read` decides. -/
theorem backends_read_exactly_iff (pos : Nat) (buf : ByteSlice w) :
    (ReadsExactly k offset.toNat buf.bytes.length
        (Libc.read k offset (FileIo.start pos buf.bytes)) ∧
      ReadsExactly k offset.toNat buf.bytes.length
        (RawSyscall.read k offset (FileIo.start pos buf.bytes)) ∧
      SameRead (Libc.read k offset (FileIo.start pos buf.bytes))
        (RawSyscall.read k offset (FileIo.start pos buf.bytes))) ↔
      k.SeekFails offset ∨ FirstRead k offset.toNat buf.bytes.length := by
  rw [Libc.readsExactly_iff, RawSyscall.readsExactly_iff buf.length_lt]
  by_cases hseek : k.SeekFails offset
  · refine iff_of_true ⟨.inl hseek, .inl hseek, ?_⟩ (.inl hseek)
    rw [Libc.read_of_seekFails hseek, RawSyscall.read_of_seekFails hseek]
    trivial
  · rw [Libc.read_of_not_seekFails hseek, or_iff_right hseek, or_iff_right hseek,
      or_iff_right hseek, FirstRead]
    cases hanswer : k.answer 0 with
    | error e =>
        obtain ⟨s, hraw, -⟩ := RawSyscall.read_of_error pos buf.bytes hseek hanswer
        rw [hraw]
        rcases Nat.eq_zero_or_pos buf.bytes.length with hempty | hpos
        · rw [hempty, Libc.readExact_zero]
          exact iff_of_false (fun h => h.2.2) (Nat.lt_irrefl 0)
        · obtain ⟨s', hlibc⟩ := Libc.readExact_of_error (k := k)
            (s := FileIo.start offset.toNat buf.bytes) 0 hpos hanswer
          rw [hlibc]
          exact iff_of_true ⟨.inl hpos, trivial, trivial⟩ hpos
    | ok n =>
        have htaken := k.taken_length offset.toNat buf.bytes.length n
        refine ⟨fun h => h.2.1, fun hfirst => ⟨by omega, hfirst, ?_⟩⟩
        have hall : (k.taken offset.toNat buf.bytes.length n).length = buf.bytes.length := by omega
        obtain ⟨s, -, hcontent, hraw⟩ := RawSyscall.read_of_ok pos hseek buf.length_lt
          hanswer
        obtain ⟨s', hlibc, hcontent'⟩ := Libc.readExact_of_all hanswer hall
        rw [hraw, if_pos hall, hlibc]
        exact hcontent'.trans (hcontent hall).symm

end Raw

end Backends

/-- A file of two bytes on a kernel that hands over one byte at a time. -/
def oneByteKernel : FileKernel := ⟨[1, 2], none, fun _ => .ok 1⟩

theorem backends_read_one_byte :
    (ReadsExactly oneByteKernel (0 : BitVec 64).toNat 1
        (Libc.read oneByteKernel (0 : BitVec 64) (FileIo.start 0 [0])) ∧
      ReadsExactly oneByteKernel (0 : BitVec 64).toNat 1
        (RawSyscall.read oneByteKernel (0 : BitVec 64) (FileIo.start 0 [0])) ∧
      SameRead (Libc.read oneByteKernel (0 : BitVec 64) (FileIo.start 0 [0]))
        (RawSyscall.read oneByteKernel (0 : BitVec 64) (FileIo.start 0 [0]))) ↔
      oneByteKernel.SeekFails (0 : BitVec 64) ∨ FirstRead oneByteKernel (0 : BitVec 64).toNat 1 :=
  backends_read_exactly_iff 0 ⟨[0], by decide⟩

/-- One system call is not enough for two bytes. -/
theorem raw_read_of_short_read :
    ¬ ReadsExactly oneByteKernel (0 : BitVec 64).toNat 2
      (RawSyscall.read oneByteKernel (0 : BitVec 64) (FileIo.start 0 [0, 0])) := by
  have hread : RawSyscall.read oneByteKernel (0 : BitVec 64) (FileIo.start 0 [0, 0]) =
      .error (.panic "assertion failed: size == buf.len()")
        { pos := 1, calls := 1, failed := false, buf := [1, 0] } := rfl
  rw [hread]
  exact not_readsExactly_panic

end ElfLoader
