import ElfLoader.Error
import ElfLoader.Library.ByteMemory
import ElfLoader.Library.Exec

/-! # The operating system behind the loader

`Mmap` and `ElfReader` are traits of the crate: the loader runs against any
implementation, so both are parameters here. The laws below say what an
implementation is relied on for; the kernel's own state stays abstract.
-/

namespace ElfLoader

open ByteMemory

/-- `usize::BITS` on the supported targets. -/
class WordSize (w : Nat) : Prop where
  eq_32_or_64 : w = 32 ∨ w = 64

instance : WordSize 32 := ⟨.inl rfl⟩
instance : WordSize 64 := ⟨.inr rfl⟩

theorem WordSize.page_lt (w : Nat) [h : WordSize w] : 12 < w := by
  rcases h.eq_32_or_64 with rfl | rfl <;> decide

theorem WordSize.mod_eight (w : Nat) [h : WordSize w] : w % 8 = 0 := by
  rcases h.eq_32_or_64 with rfl | rfl <;> decide

/-- Memory protection flags (`c_int` bits). -/
structure ProtFlags where
  bits : UInt32
deriving DecidableEq, Repr

namespace ProtFlags

def protNone : ProtFlags := ⟨0⟩
def protRead : ProtFlags := ⟨1⟩
def protWrite : ProtFlags := ⟨2⟩
def protExec : ProtFlags := ⟨4⟩

instance : Union ProtFlags := ⟨fun a b => ⟨a.bits ||| b.bits⟩⟩

end ProtFlags

/-- Memory mapping flags (`c_int` bits). -/
structure MapFlags where
  bits : UInt32
deriving DecidableEq, Repr

namespace MapFlags

def mapPrivate : MapFlags := ⟨2⟩
def mapFixed : MapFlags := ⟨16⟩
def mapAnonymous : MapFlags := ⟨32⟩

instance : Union MapFlags := ⟨fun a b => ⟨a.bits ||| b.bits⟩⟩

end MapFlags

/-- What the operating system keeps: the bytes of the address space, and its own
bookkeeping `K`. -/
structure OsState (w : Nat) (K : Type) where
  mem : Bytes w
  kernel : K

/-- The trait `Mmap`. `mmap` also returns the final value of its `need_copy`
out-parameter, which every caller initialises to `false`. -/
structure Mmap (w : Nat) (K : Type) where
  mmap : (addr : Option (BitVec w)) → (len : BitVec w) → ProtFlags → MapFlags →
    (offset : BitVec w) → (fd : Option Int) → EStateM Halt (OsState w K) (BitVec w × Bool)
  mmapAnonymous : (addr : BitVec w) → (len : BitVec w) → ProtFlags → MapFlags →
    EStateM Halt (OsState w K) (BitVec w)
  munmap : (addr : BitVec w) → (len : BitVec w) → EStateM Halt (OsState w K) Unit
  mprotect : (addr : BitVec w) → (len : BitVec w) → ProtFlags → EStateM Halt (OsState w K) Unit
  mmapReserve : (addr : Option (BitVec w)) → (len : BitVec w) → (useFile : Bool) →
    EStateM Halt (OsState w K) (BitVec w)

/-- The trait `ElfReader`, with the object's own state `O`. `read` fills a buffer
of `len` bytes from `offset`. -/
structure ElfReader (w : Nat) (O : Type) where
  read : (len : Nat) → (offset : BitVec w) → EStateM Halt O (List UInt8)
  asFd : O → Option Int

/-- `PAGE_SIZE` of the loader. -/
def pageSize (w : Nat) : BitVec w := BitVec.ofNat w (2 ^ 12)

def PageAligned {w : Nat} (a : BitVec w) : Prop := a.toNat % 2 ^ 12 = 0

/-- The length of the whole pages that `len` bytes occupy. -/
def pageLen (len : Nat) : Nat := len + (2 ^ 12 - len % 2 ^ 12) % 2 ^ 12

/-- A fixed mapping of `file` either replaces the pages by the file's, and leaves
everything else alone, or leaves the reservation in place and asks for a copy.
What a mapped page holds past the end of the file is not relied on. -/
structure MapsFile {w : Nat} {K : Type} (M : Mmap w K) (file : List UInt8) : Prop where
  /-- A reservation is a non-empty range that starts on a page. -/
  reserve : ∀ {addr len useFile s p s'}, M.mmapReserve addr len useFile s = .ok p s' →
    PageAligned p ∧ len ≠ 0
  /-- `need_copy` set: nothing was mapped. -/
  copy : ∀ {addr len prot flags offset fd s p s'},
    M.mmap (some addr) len prot flags offset fd s = .ok (p, true) s' → s'.mem = s.mem
  /-- `need_copy` left alone: outside the range nothing changed. -/
  frame : ∀ {addr len prot flags offset fd s p s' a},
    M.mmap (some addr) len prot flags offset fd s = .ok (p, false) s' →
    PageAligned addr → PageAligned offset → ¬ Within addr len.toNat a → s'.mem a = s.mem a
  /-- `need_copy` left alone: inside the range the file's bytes appear. -/
  content : ∀ {addr len prot flags offset fd s p s' a b},
    M.mmap (some addr) len prot flags offset fd s = .ok (p, false) s' →
    PageAligned addr → PageAligned offset → Within addr len.toNat a →
    file[offset.toNat + (a - addr).toNat]? = some b → s'.mem a = b
  /-- Anonymous pages are zero and replace exactly the page-rounded range. -/
  anonymous : ∀ {addr len prot flags s p s'},
    M.mmapAnonymous addr len prot flags s = .ok p s' → PageAligned addr →
    s'.mem = fill s.mem addr (pageLen len.toNat) 0

/-- A successful read returns exactly the requested bytes of `file`. -/
structure ReadsFile {w : Nat} {O : Type} (R : ElfReader w O) (file : List UInt8) : Prop where
  read : ∀ {len offset o bytes o'}, R.read len offset o = .ok bytes o' →
    bytes = (file.drop offset.toNat).take len ∧ bytes.length = len

end ElfLoader
