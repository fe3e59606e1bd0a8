import ElfLoader.Os.Syscall

/-! # The two implementations of `Mmap` on Linux

`src/os/unix.rs` calls the C library, `src/os/linux_syscall.rs` the kernel. What
the kernel does with a call is a parameter; how its answer is read is the code.
-/

namespace ElfLoader

variable {w : Nat} {K : Type}

/-- The memory system calls: an answer, and what becomes of the address space. -/
structure VmKernel (w : Nat) (K : Type) where
  mmap : (addr len : BitVec w) → ProtFlags → MapFlags → (fd : Int) → (offset : BitVec w) →
    OsState w K → Except Errno (BitVec w) × OsState w K
  munmap : (addr len : BitVec w) → OsState w K → Except Errno Unit × OsState w K
  mprotect : (addr len : BitVec w) → ProtFlags → OsState w K → Except Errno Unit × OsState w K

/-- `NonNull::new_unchecked(ptr)`, after a call that left the system in `os`. -/
def mapped (r : Except Halt (BitVec w)) (os : OsState w K) :
    EStateM.Result Halt (OsState w K) (BitVec w) :=
  match r with
  | .ok ptr => .ok ptr os
  | .error h => .error h os

/-- `addr.unwrap()` of a mapping without a file. -/
def unwrapAddr : Option (BitVec w) → Except Halt (BitVec w)
  | some addr => .ok addr
  | none => .error (.panic "called `Option::unwrap()` on a `None` value")

/-- `prot` of `mmap_reserve`. -/
def reserveProt (useFile : Bool) : ProtFlags :=
  if useFile then ProtFlags.protNone else ProtFlags.protWrite

namespace Libc

/-- `MAP_FAILED`. -/
def mapFailed : BitVec w := BitVec.allOnes w

/-- The pointer the C library returns. -/
def ptrRet : Except Errno (BitVec w) → BitVec w
  | .ok ptr => ptr
  | .error _ => mapFailed

/-- The status the C library returns. -/
def statusRet : Except Errno Unit → Int
  | .ok _ => 0
  | .error _ => -1

def checkPtr (ptr : BitVec w) (msg : String) : Except Halt (BitVec w) :=
  if ptr = mapFailed then .error (.err (.mmap msg)) else .ok ptr

def checkStatus (res : Int) (msg : String) (os : OsState w K) :
    EStateM.Result Halt (OsState w K) Unit :=
  if res ≠ 0 then .error (.err (.mmap msg)) os else .ok () os

/-- `DefaultMmap` of `src/os/unix.rs`. The reservation alone is not checked. -/
def defaultMmap (k : VmKernel w K) : Mmap w K where
  mmap addr len prot flags offset fd os :=
    match fd with
    | some fd =>
        let r := k.mmap (addr.getD 0) len prot flags fd offset os
        match checkPtr (ptrRet r.1) "mmap failed" with
        | .ok ptr => .ok (ptr, false) r.2
        | .error h => .error h r.2
    | none =>
        match unwrapAddr addr with
        | .error h => .error h os
        | .ok ptr =>
            match checkPtr ptr "mmap failed" with
            | .ok ptr => .ok (ptr, true) os
            | .error h => .error h os
  mmapAnonymous addr len prot flags os :=
    let r := k.mmap addr len prot (flags ∪ MapFlags.mapAnonymous) (-1) 0 os
    mapped (checkPtr (ptrRet r.1) "mmap anonymous failed") r.2
  munmap addr len os :=
    let r := k.munmap addr len os
    checkStatus (statusRet r.1) "munmap failed" r.2
  mprotect addr len prot os :=
    let r := k.mprotect addr len prot os
    checkStatus (statusRet r.1) "mprotect failed" r.2
  mmapReserve addr len useFile os :=
    let r := k.mmap (addr.getD 0) len (reserveProt useFile)
      (MapFlags.mapPrivate ∪ MapFlags.mapAnonymous) (-1) 0 os
    .ok (ptrRet r.1) r.2

end Libc

namespace RawSyscall

/-- The register after a system call that returns a pointer. -/
def ptrRet : Except Errno (BitVec w) → BitVec w
  | .ok ptr => ptr
  | .error e => -BitVec.ofNat w e.code

/-- The register after a system call that returns nothing. -/
def statusRet : Except Errno Unit → BitVec w
  | .ok _ => 0
  | .error e => -BitVec.ofNat w e.code

/-- The file offset in the unit of the system call: `mmap2` counts pages. -/
def mapOffset (offset : BitVec w) : BitVec w :=
  if w = 32 then offset.sdiv (pageSize w) else offset

def checkStatus (ret : BitVec w) (msg : String) (os : OsState w K) :
    EStateM.Result Halt (OsState w K) Unit :=
  match fromRet ret msg with
  | .ok _ => .ok () os
  | .error h => .error h os

def mmapAnonymous (k : VmKernel w K) (addr len : BitVec w) (prot : ProtFlags) (flags : MapFlags)
    (os : OsState w K) : EStateM.Result Halt (OsState w K) (BitVec w) :=
  let r := k.mmap addr len prot (flags ∪ MapFlags.mapAnonymous) (-1) 0 os
  mapped (fromRet (ptrRet r.1) "mmap anonymous") r.2

/-- `DefaultMmap` of `src/os/linux_syscall.rs`. -/
def defaultMmap (k : VmKernel w K) : Mmap w K where
  mmap addr len prot flags offset fd os :=
    match fd with
    | some fd =>
        let r := k.mmap (addr.getD 0) len prot flags fd (mapOffset offset) os
        match fromRet (ptrRet r.1) "mmap failed" with
        | .ok ptr => .ok (ptr, false) r.2
        | .error h => .error h r.2
    | none =>
        match unwrapAddr addr with
        | .error h => .error h os
        | .ok ptr => .ok (ptr, true) os
  mmapAnonymous addr len prot flags os := mmapAnonymous k addr len prot flags os
  munmap addr len os :=
    let r := k.munmap addr len os
    checkStatus (statusRet r.1) "munmap failed" r.2
  mprotect addr len prot os :=
    let r := k.mprotect addr len prot os
    checkStatus (statusRet r.1) "mprotect failed" r.2
  mmapReserve addr len useFile os :=
    mmapAnonymous k (addr.getD 0) len (reserveProt useFile)
      (MapFlags.mapPrivate ∪ MapFlags.mapAnonymous) os

end RawSyscall

end ElfLoader
