import ElfLoader.Os.DefaultMmap
import ElfLoader.Segment.Program
import ElfLoader.Segment.Section

/-! # A reservation that the kernel refuses

Both kinds of segments start with one reservation. Its answer is the base of all
addresses that follow, so a refusal has to end the load.
-/

namespace ElfLoader

variable {w : Nat} {K O : Type}

/-- The operating system backends. -/
inductive Backend where
  | libc
  | rawSyscall
deriving DecidableEq

def Backend.defaultMmap (k : VmKernel w K) : Backend → Mmap w K
  | .libc => Libc.defaultMmap k
  | .rawSyscall => RawSyscall.defaultMmap k

/-- The implementations of `SegmentBuilder`. -/
inductive SegmentBuilder (w : Nat) where
  | program (ps : ProgramSegments w)
  | sections (ss : SectionSegments w)

namespace SegmentBuilder

def createSpace (M : Mmap w K) : SegmentBuilder w → Load w K O (ElfSegments w)
  | .program ps => ps.createSpace M
  | .sections ss => ss.createSpace M

def loadSegments (M : Mmap w K) (R : ElfReader w O) :
    SegmentBuilder w → Load w K O (ElfSegments w × List (ElfSegment w))
  | .program ps => ps.loadSegments M R
  | .sections ss => ss.loadSegments M R

/-- The requested address. -/
def addr : SegmentBuilder w → Option (BitVec w)
  | .program ps => (parseSegments ps.phdrs ps.isDylib).1
  | .sections _ => none

/-- The total size. -/
def len : SegmentBuilder w → BitVec w
  | .program ps => (parseSegments ps.phdrs ps.isDylib).2.1
  | .sections ss => ss.totalSize

def useFile : SegmentBuilder w → Bool
  | .program ps => ps.useFile
  | .sections _ => false

/-- The address of the page that the base lies below. -/
def offset : SegmentBuilder w → BitVec w
  | .program ps => (parseSegments ps.phdrs ps.isDylib).2.2
  | .sections _ => 0

/-- The system call that reserves the space. -/
def reserve (k : VmKernel w K) (b : SegmentBuilder w) (os : OsState w K) :
    Except Errno (BitVec w) × OsState w K :=
  k.mmap (b.addr.getD 0) b.len (reserveProt b.useFile)
    (MapFlags.mapPrivate ∪ MapFlags.mapAnonymous) (-1) 0 os

/-- The kernel refuses. -/
def Refused (k : VmKernel w K) (b : SegmentBuilder w) (os : OsState w K) : Prop :=
  ∃ e os', b.reserve k os = (.error e, os')

/-- Nothing happens behind the refusal: an error is returned, and the system is in
the state in which the refused call left it. -/
def EndsWithRefusal {α : Type} (k : VmKernel w K) (b : SegmentBuilder w) (s : LoadState w K O)
    (r : EStateM.Result Halt (LoadState w K O) α) : Prop :=
  ∃ e, r = .error (.err e) {
    s with os := (b.reserve k s.os).2, calls := s.calls ++ [.reserve b.addr b.len] }

theorem createSpace_eq (M : Mmap w K) (b : SegmentBuilder w) :
    (b.createSpace M : Load w K O (ElfSegments w)) = do
      Load.record (.reserve b.addr b.len)
      let memory ← Load.onOs (M.mmapReserve b.addr b.len b.useFile)
      return { memory, offset := b.offset, len := b.len } := by
  cases b <;> rfl

end SegmentBuilder

section Reserve

variable {k : VmKernel w K} {b : SegmentBuilder w} {s : LoadState w K O}

/-- The segments are loaded only into a space. -/
theorem loadSegments_of_error {M : Mmap w K} {R : ElfReader w O} {h : Halt} {s' : LoadState w K O}
    (hspace : b.createSpace M s = .error h s') : b.loadSegments M R s = .error h s' := by
  cases b with
  | program ps => exact Exec.bind_of_error hspace
  | sections ss => exact Exec.bind_of_error hspace

theorem onOs_error {α : Type} {x : EStateM Halt (OsState w K) α} {h : Halt} {os : OsState w K}
    (hx : x s.os = .error h os) : Load.onOs x s = .error h { s with os } := by
  rw [Load.onOs, hx]

theorem onOs_ok {α : Type} {x : EStateM Halt (OsState w K) α} {a : α} {os : OsState w K}
    (hx : x s.os = .ok a os) : Load.onOs x s = .ok a { s with os } := by
  rw [Load.onOs, hx]

/-- An error of the reservation is passed on. -/
theorem createSpace_of_reserve_error {M : Mmap w K} {h : Halt} {os : OsState w K}
    (hreserve : M.mmapReserve b.addr b.len b.useFile s.os = .error h os) :
    b.createSpace M s =
      .error h { s with os, calls := s.calls ++ [.reserve b.addr b.len] } := by
  rw [b.createSpace_eq, Load.record, Exec.bind_of_ok (Exec.modify_apply _ _)]
  exact Exec.bind_of_error (onOs_error hreserve)

/-- Any address it returns becomes the space. -/
theorem createSpace_of_reserve_ok {M : Mmap w K} {p : BitVec w} {os : OsState w K}
    (hreserve : M.mmapReserve b.addr b.len b.useFile s.os = .ok p os) :
    b.createSpace M s =
      .ok { memory := p, offset := b.offset, len := b.len }
        { s with os, calls := s.calls ++ [.reserve b.addr b.len] } := by
  rw [b.createSpace_eq, Load.record, Exec.bind_of_ok (Exec.modify_apply _ _)]
  exact Exec.bind_of_ok (onOs_ok hreserve)

/-- The C library backend takes the failure value for an address. -/
theorem libc_reserve_eq (os : OsState w K) :
    (Libc.defaultMmap k).mmapReserve b.addr b.len b.useFile os =
      .ok (Libc.ptrRet (b.reserve k os).1) (b.reserve k os).2 := rfl

theorem raw_reserve_of_refused [WordSize w] {os : OsState w K} (h : b.Refused k os) :
    (RawSyscall.defaultMmap k).mmapReserve b.addr b.len b.useFile os =
      .error (.err (.mmap "mmap anonymous")) (b.reserve k os).2 := by
  obtain ⟨e, os', hcall⟩ := h
  have hflags : MapFlags.mapPrivate ∪ MapFlags.mapAnonymous ∪ MapFlags.mapAnonymous =
      MapFlags.mapPrivate ∪ MapFlags.mapAnonymous := rfl
  have hret : fromRet (RawSyscall.ptrRet (b.reserve k os).1) "mmap anonymous" =
      .error (.err (.mmap "mmap anonymous")) := by
    rw [hcall]
    exact checkRet_rawRet_error .mmap e "mmap anonymous"
  change RawSyscall.mmapAnonymous k (b.addr.getD 0) b.len (reserveProt b.useFile) _ os = _
  rw [RawSyscall.mmapAnonymous, hflags]
  change mapped (fromRet (RawSyscall.ptrRet (b.reserve k os).1) "mmap anonymous")
    (b.reserve k os).2 = _
  rw [hret, mapped]

/-- A refused reservation ends the load, unless the C library backend is the one
that was refused. -/
theorem refused_reserve_iff [WordSize w] (backend : Backend) (k : VmKernel w K)
    (b : SegmentBuilder w) (R : ElfReader w O) (s : LoadState w K O) :
    (b.Refused k s.os →
        b.EndsWithRefusal k s (b.createSpace (backend.defaultMmap k) s) ∧
        b.EndsWithRefusal k s (b.loadSegments (backend.defaultMmap k) R s)) ↔
      backend = .rawSyscall ∨ ¬ b.Refused k s.os := by
  cases backend with
  | rawSyscall =>
      refine iff_of_true (fun hrefused => ?_) (.inl rfl)
      have hspace := createSpace_of_reserve_error (s := s) (raw_reserve_of_refused hrefused)
      exact ⟨⟨_, hspace⟩, ⟨_, loadSegments_of_error hspace⟩⟩
  | libc =>
      rw [or_iff_right (by decide)]
      refine ⟨fun hends hrefused => ?_, fun hnot hrefused => absurd hrefused hnot⟩
      have hspace := createSpace_of_reserve_ok (s := s) (libc_reserve_eq (k := k) (b := b) s.os)
      obtain ⟨⟨e, herror⟩, -⟩ := hends hrefused
      change b.createSpace (Libc.defaultMmap k) s = _ at herror
      rw [hspace] at herror
      cases herror

end Reserve

/-- A kernel without memory. -/
def fullKernel : VmKernel 64 Unit where
  mmap _ _ _ _ _ _ os := (.error Errno.nomem, os)
  munmap _ _ os := (.error Errno.inval, os)
  mprotect _ _ _ os := (.error Errno.nomem, os)

/-- One page to load. -/
def lonePage : SegmentBuilder 64 :=
  .program {
    phdrs := [{ pType := ptLoad, pFlags := pfR, pOffset := 0, pVaddr := 0, pPaddr := 0,
                pFilesz := 0x1000, pMemsz := 0x1000, pAlign := 0x1000 }]
    isDylib := true
    useFile := false }

def noReader : ElfReader 64 Unit := ⟨fun _ _ o => .error (.err (.io "")) o, fun _ => none⟩

def freshState : LoadState 64 Unit Unit := ⟨⟨fun _ => 0, ()⟩, (), []⟩

theorem refused_reserve_lonePage :
    (lonePage.Refused fullKernel freshState.os →
        lonePage.EndsWithRefusal fullKernel freshState
          (lonePage.createSpace (Backend.rawSyscall.defaultMmap fullKernel) freshState) ∧
        lonePage.EndsWithRefusal fullKernel freshState
          (lonePage.loadSegments (Backend.rawSyscall.defaultMmap fullKernel) noReader freshState)) ↔
      Backend.rawSyscall = .rawSyscall ∨ ¬ lonePage.Refused fullKernel freshState.os :=
  refused_reserve_iff .rawSyscall fullKernel lonePage noReader freshState

/-- The space is created at the failure value. -/
theorem libc_reserve_unchecked :
    lonePage.Refused fullKernel freshState.os ∧
      ¬ lonePage.EndsWithRefusal fullKernel freshState
          (lonePage.createSpace (Backend.libc.defaultMmap fullKernel) freshState) := by
  refine ⟨⟨Errno.nomem, freshState.os, rfl⟩, ?_⟩
  rintro ⟨e, herror⟩
  cases herror

end ElfLoader
