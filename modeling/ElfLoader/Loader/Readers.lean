import ElfLoader.Loader.Buffer
import ElfLoader.Os.File

/-! # The readers of the crate fill the buffer they are handed

`ElfBinary` and `&[u8]` copy from memory; the two `ElfFile` readers ask the kernel, as
often as their loops do. None of them looks at what the buffer held.
-/

namespace ElfLoader

open Exec Splice

variable {w : Nat} {k : FileKernel}

/-! ## Bytes in memory -/

/-- A reader that has no state of its own. -/
def onBuffer (read : EStateM Halt (List UInt8) Unit) : EStateM Halt (Unit × List UInt8) Unit :=
  onView Prod.snd (fun buf s => (s.1, buf)) read

/-- A copy of a range, or a refusal that leaves the buffer alone. -/
theorem copyRange_spec (r : Except Halt (List UInt8)) (buf : List UInt8) :
    (Exec.lift r >>= copyFromSlice) buf =
      match r with
      | .ok src =>
          if buf.length = src.length then .ok () src
          else .error (.panic "copy_from_slice: source slice length does not match") buf
      | .error e => .error e buf := by
  cases r <;> rfl

/-- A reader that looks at the length of the buffer only, and then copies a range or
stops. -/
def BufReader.ofBytes (read : BitVec w → EStateM Halt (List UInt8) Unit)
    (range : BitVec w → Nat → Except Halt (List UInt8))
    (hread : ∀ offset (buf : List UInt8),
      read offset buf = (Exec.lift (range offset buf.length) >>= copyFromSlice) buf) :
    BufReader w Unit where
  read := fun offset => onBuffer (read offset)
  asFd := fun _ => none
  length_read := by
    intro offset s _
    unfold onBuffer onView
    rw [hread, copyRange_spec]
    cases range offset s.2.length with
    | error e => rfl
    | ok src =>
        dsimp only
        by_cases hlen : s.2.length = src.length
        · rw [if_pos hlen]
          exact hlen.symm
        · rw [if_neg hlen]
          rfl
  same_read := by
    intro offset o buf buf' hlen _
    unfold onBuffer onView
    dsimp only
    rw [hread, hread, copyRange_spec, copyRange_spec, ← hlen]
    cases range offset buf.length with
    | error e => exact ⟨rfl, rfl⟩
    | ok src =>
        dsimp only
        by_cases hsrc : buf.length = src.length
        · rw [if_pos hsrc, if_pos hsrc]
          rfl
        · rw [if_neg hsrc, if_neg hsrc]
          exact ⟨rfl, rfl⟩

/-- The range that `ElfBinary` copies. -/
theorem ElfBinary.read_eq (data : ByteSlice w) (offset : BitVec w) (buf : List UInt8) :
    ElfBinary.read data offset buf =
      (Exec.lift (data.range offset (offset + BitVec.ofNat w buf.length)) >>= copyFromSlice)
        buf := by
  rw [ElfBinary.read, bind_of_ok (get_apply buf)]

/-- The range that `&[u8]` copies, or its refusal. -/
theorem ByteSlice.read_eq (data : ByteSlice w) (offset : BitVec w) (buf : List UInt8) :
    data.read offset buf =
      (Exec.lift (if offset + BitVec.ofNat w buf.length > data.len then
          .error (.err (.io "read offset out of bounds"))
        else data.range offset (offset + BitVec.ofNat w buf.length)) >>= copyFromSlice) buf := by
  rw [ByteSlice.read, bind_of_ok (get_apply buf)]
  split <;> rfl

def ElfBinary.bufReader (data : ByteSlice w) : BufReader w Unit :=
  .ofBytes (ElfBinary.read data) (fun offset n => data.range offset (offset + BitVec.ofNat w n))
    (ElfBinary.read_eq data)

def ByteSlice.bufReader (data : ByteSlice w) : BufReader w Unit :=
  .ofBytes data.read
    (fun offset n =>
      if offset + BitVec.ofNat w n > data.len then .error (.err (.io "read offset out of bounds"))
      else data.range offset (offset + BitVec.ofNat w n))
    (ByteSlice.read_eq data)

/-! ## Files -/

/-- An open file between two reads. -/
structure OpenFile where
  pos : Nat
  calls : Nat
  failed : Bool

/-- A read into `buf` starts. -/
def OpenFile.io (o : OpenFile) (buf : List UInt8) : FileIo := { o with buf }

def FileIo.openFile (s : FileIo) : OpenFile := { s with }

/-- A read of a file. -/
def onFile (read : EStateM Halt FileIo Unit) : EStateM Halt (OpenFile × List UInt8) Unit :=
  onView (fun s => s.1.io s.2) (fun io _ => (io.openFile, io.buf)) read

/-- Two reads that differ in what is not filled yet. -/
structure SameUpTo (start : Nat) (s s' : FileIo) : Prop where
  openFile : s.openFile = s'.openFile
  length : s.buf.length = s'.buf.length
  content : s.buf.take start = s'.buf.take start

/-- Both reads fill a buffer of `n` bytes with the same bytes, or stop alike. -/
def FillsAlike (n : Nat) : (r r' : EStateM.Result Halt FileIo Unit) → Prop
  | .ok _ s, .ok _ s' => s = s' ∧ s.buf.length = n
  | .error e s, .error e' s' => e = e' ∧ s.openFile = s'.openFile ∧ s.buf.length = n
  | _, _ => False

namespace SameUpTo

variable {start : Nat} {s s' : FileIo}

theorem eq_of_length_le (h : SameUpTo start s s') (hstart : s.buf.length ≤ start) : s = s' := by
  have hcontent := h.content
  rw [List.take_of_length_le hstart, List.take_of_length_le (h.length ▸ hstart)] at hcontent
  have hopen := h.openFile
  cases s
  cases s'
  cases hcontent
  cases hopen
  rfl

theorem stops (h : SameUpTo start s s') (e : Halt) :
    FillsAlike s.buf.length (.error e s) (.error e s') :=
  ⟨rfl, h.openFile, rfl⟩

end SameUpTo

/-- How many bytes a system call has handed over. -/
def gotBytes : Except Errno Nat → Nat
  | .ok n => n
  | .error _ => 0

section Kernel

variable {start : Nat} {s s' : FileIo}

theorem FileKernel.lseek_alike (k : FileKernel) (offset : BitVec w) (h : SameUpTo start s s') :
    ∃ ret t t', k.lseek offset s = .ok ret t ∧ k.lseek offset s' = .ok ret t' ∧
      SameUpTo start t t' ∧ t.buf = s.buf := by
  have hcalls : s.calls = s'.calls := congrArg OpenFile.calls h.openFile
  have hpos : s.pos = s'.pos := congrArg OpenFile.pos h.openFile
  have hfailed : s.failed = s'.failed := congrArg OpenFile.failed h.openFile
  unfold FileKernel.lseek
  cases k.seek with
  | some e =>
      refine ⟨_, _, _, rfl, rfl, ⟨?_, h.length, h.content⟩, rfl⟩
      rw [FileIo.openFile, FileIo.openFile, hcalls, hpos]
  | none =>
      by_cases hmsb : offset.msb = true
      · dsimp only
        rw [if_pos hmsb, if_pos hmsb]
        refine ⟨_, _, _, rfl, rfl, ⟨?_, h.length, h.content⟩, rfl⟩
        rw [FileIo.openFile, FileIo.openFile, hcalls, hpos]
      · dsimp only
        rw [if_neg hmsb, if_neg hmsb]
        refine ⟨_, _, _, rfl, rfl, ⟨?_, h.length, h.content⟩, rfl⟩
        rw [FileIo.openFile, FileIo.openFile, hcalls, hfailed]

/-- One `read` fills alike what it fills. -/
theorem FileKernel.read_alike (k : FileKernel) (len : Nat) (h : SameUpTo start s s')
    (hlen : start + len ≤ s.buf.length) :
    ∃ ret t t', k.read start len s = .ok ret t ∧ k.read start len s' = .ok ret t' ∧
      gotBytes ret ≤ len ∧ SameUpTo (start + gotBytes ret) t t' ∧
      t.buf.length = s.buf.length := by
  have hcalls : s.calls = s'.calls := congrArg OpenFile.calls h.openFile
  have hpos : s.pos = s'.pos := congrArg OpenFile.pos h.openFile
  have hfailed : s.failed = s'.failed := congrArg OpenFile.failed h.openFile
  have hlength := h.length
  cases hanswer : k.answer s.calls with
  | error e =>
      refine ⟨_, _, _, FileKernel.read_of_error start len hanswer,
        FileKernel.read_of_error start len (hcalls ▸ hanswer), Nat.zero_le _,
        ⟨?_, h.length, h.content⟩, rfl⟩
      rw [FileIo.openFile, FileIo.openFile, hcalls, hpos]
  | ok n =>
      have htaken := k.taken_length s.pos len n
      have hread := FileKernel.read_of_ok start len (hcalls ▸ hanswer)
      rw [← hpos] at hread
      refine ⟨_, _, _, FileKernel.read_of_ok start len hanswer, hread, ?_, ⟨?_, ?_, ?_⟩, ?_⟩
      · rw [gotBytes]
        omega
      · rw [FileIo.openFile, FileIo.openFile, hcalls, hfailed]
      · simp only [List.length_append, List.length_take, List.length_drop, hlength]
      · have hfront : (s.buf.take start ++ k.taken s.pos len n).length =
            start + (k.taken s.pos len n).length := by
          rw [List.length_append, List.length_take]
          omega
        have hfront' : (s'.buf.take start ++ k.taken s.pos len n).length =
            start + (k.taken s.pos len n).length := by
          rw [← h.content, hfront]
        dsimp only [gotBytes]
        rw [List.take_left' hfront, List.take_left' hfront', h.content]
      · simp only [List.length_append, List.length_take, List.length_drop]
        omega

end Kernel

/-- The loop reads on into the part that is not filled yet. -/
theorem Libc.readExact_alike (k : FileKernel) {start rest : Nat} {s s' : FileIo}
    (h : SameUpTo start s s') (hrest : s.buf.length = start + rest) :
    FillsAlike s.buf.length (Libc.readExact k start rest s) (Libc.readExact k start rest s') := by
  induction rest using Nat.strongRecOn generalizing start s s' with
  | ind rest ih =>
      rw [Libc.readExact]
      by_cases hzero : rest = 0
      · rw [if_pos hzero]
        exact ⟨h.eq_of_length_le (by omega), rfl⟩
      · rw [if_neg hzero]
        obtain ⟨ret, t, t', hrun, hrun', hgot, hsame, hlen⟩ :=
          FileKernel.read_alike k rest h (by omega)
        rw [bind_of_ok hrun, bind_of_ok hrun', ← hlen]
        cases ret with
        | error e => exact hsame.stops _
        | ok n =>
            have hret : libcRet (.ok n) = (n : Int) := rfl
            dsimp only [gotBytes] at hgot hsame
            rw [hret, if_neg (by omega)]
            by_cases hnone : (n : Int) = 0
            · rw [if_pos hnone]
              exact hsame.stops _
            · rw [if_neg hnone, Int.toNat_natCast, if_neg (by omega)]
              exact ih (rest - n) (by omega) hsame (by omega)

/-- The backend of the C library. -/
theorem Libc.read_alike (k : FileKernel) (offset : BitVec w) {s s' : FileIo}
    (h : SameUpTo 0 s s') :
    FillsAlike s.buf.length (Libc.read k offset s) (Libc.read k offset s') := by
  obtain ⟨ret, t, t', hrun, hrun', hsame, hbuf⟩ := FileKernel.lseek_alike k offset h
  have hseek : ∀ {u v : FileIo}, k.lseek offset u = .ok ret v → Libc.lseek k offset u =
      if libcRet ret = -1 ∨ BitVec.ofInt w (libcRet ret) ≠ offset then
        .error (.err (.io "lseek failed")) v
      else .ok () v := by
    intro u v huv
    rw [Libc.lseek, bind_of_ok huv]
    split <;> rfl
  by_cases hfails : libcRet ret = -1 ∨ BitVec.ofInt w (libcRet ret) ≠ offset
  · have hstop := hseek hrun
    have hstop' := hseek hrun'
    rw [if_pos hfails] at hstop hstop'
    rw [Libc.read, bind_of_error hstop, bind_of_error hstop', ← hbuf]
    exact hsame.stops _
  · have hgo := hseek hrun
    have hgo' := hseek hrun'
    rw [if_neg hfails] at hgo hgo'
    rw [Libc.read, bind_of_ok hgo, bind_of_ok hgo', bind_of_ok (get_apply t),
      bind_of_ok (get_apply t'), ← hsame.length, ← hbuf]
    exact Libc.readExact_alike k hsame (Nat.zero_add _).symm

/-- The backend of raw system calls asks once and insists on the whole buffer. -/
theorem RawSyscall.read_alike [WordSize w] (k : FileKernel) (offset : BitVec w) {s s' : FileIo}
    (h : SameUpTo 0 s s') (hcap : s.buf.length < 2 ^ (w - 1)) :
    FillsAlike s.buf.length (RawSyscall.read k offset s) (RawSyscall.read k offset s') := by
  obtain ⟨hbig, hroom⟩ := WordSize.errno_room w
  obtain ⟨sought, t, t', hrun, hrun', hsame, hbuf⟩ := FileKernel.lseek_alike k offset h
  rw [RawSyscall.read, bind_of_ok hrun, bind_of_ok hrun', ← hbuf]
  rw [← hbuf] at hcap
  cases fromIoRet (rawRet sought : BitVec w) "lseek failed" with
  | error e => exact hsame.stops e
  | ok off =>
      rw [bind_of_ok (lift_ok off t), bind_of_ok (lift_ok off t'), bind_of_ok (get_apply t),
        bind_of_ok (get_apply t'), ← hsame.length]
      obtain ⟨ret, u, u', hread, hread', hgot, hfilled, hlen⟩ :=
        FileKernel.read_alike k t.buf.length hsame (by omega)
      rw [bind_of_ok hread, bind_of_ok hread', ← hlen]
      rw [← hlen] at hgot hcap
      cases ret with
      | error e =>
          rw [fromIoRet, checkRet_rawRet_error, bind_of_error (lift_error _ u),
            bind_of_error (lift_error _ u')]
          exact hfilled.stops _
      | ok n =>
          dsimp only [gotBytes] at hgot hfilled
          rw [fromIoRet, checkRet_rawRet_ok _ (by omega), bind_of_ok (lift_ok _ u),
            bind_of_ok (lift_ok _ u')]
          by_cases hall : n = u.buf.length
          · rw [hall, if_neg (not_not.mpr rfl)]
            exact ⟨hfilled.eq_of_length_le (by omega), rfl⟩
          · have hsize : BitVec.ofNat w n ≠ BitVec.ofNat w u.buf.length := by
              rw [ne_eq, ← BitVec.toNat_inj, BitVec.toNat_ofNat, BitVec.toNat_ofNat,
                Nat.mod_eq_of_lt (by omega), Nat.mod_eq_of_lt (by omega)]
              exact hall
            rw [if_pos hsize]
            exact hfilled.stops _

/-- A reader of files, by one of the backends. -/
def BufReader.ofFile (read : BitVec w → EStateM Halt FileIo Unit) (fd : Int)
    (hread : ∀ offset {s s' : FileIo}, SameUpTo 0 s s' → s.buf.length < 2 ^ (w - 1) →
      FillsAlike s.buf.length (read offset s) (read offset s')) :
    BufReader w OpenFile where
  read := fun offset => onFile (read offset)
  asFd := fun _ => some fd
  length_read := by
    intro offset s hcap
    have hself : SameUpTo 0 (s.1.io s.2) (s.1.io s.2) := ⟨rfl, rfl, rfl⟩
    have hfills := hread offset hself hcap
    unfold onFile onView
    cases hrun : read offset (s.1.io s.2) with
    | ok u t =>
        rw [hrun] at hfills
        exact hfills.2
    | error e t =>
        rw [hrun] at hfills
        exact hfills.2.2
  same_read := by
    intro offset o buf buf' hlen hcap
    have hsame : SameUpTo 0 (o.io buf) (o.io buf') :=
      ⟨rfl, hlen, by rw [List.take_zero, List.take_zero]⟩
    have hfills := hread offset hsame hcap
    unfold onFile onView
    dsimp only
    cases hrun : read offset (o.io buf) with
    | ok u t =>
        rw [hrun] at hfills
        cases hrun' : read offset (o.io buf') with
        | ok u' t' =>
            rw [hrun'] at hfills
            obtain ⟨rfl, -⟩ := hfills
            rfl
        | error e t' =>
            rw [hrun'] at hfills
            exact hfills.elim
    | error e t =>
        rw [hrun] at hfills
        cases hrun' : read offset (o.io buf') with
        | ok u' t' =>
            rw [hrun'] at hfills
            exact hfills.elim
        | error e' t' =>
            rw [hrun'] at hfills
            exact ⟨hfills.1, hfills.2.1⟩

/-- `ElfFile` on the C library. -/
def Libc.bufReader (k : FileKernel) (fd : Int) : BufReader w OpenFile :=
  .ofFile (Libc.read k) fd fun offset _ _ h _ => Libc.read_alike k offset h

/-- `ElfFile` on raw system calls. -/
def RawSyscall.bufReader [WordSize w] (k : FileKernel) (fd : Int) : BufReader w OpenFile :=
  .ofFile (RawSyscall.read k) fd fun offset _ _ h hcap => RawSyscall.read_alike k offset h hcap

end ElfLoader
