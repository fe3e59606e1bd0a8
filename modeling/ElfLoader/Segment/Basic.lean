import ElfLoader.Library.Align
import ElfLoader.Os.Mmap

/-! # Segments in memory (`src/segment/mod.rs`)

Words wrap as in a release build. Every mapping, copy and fill the loader issues
is recorded in `LoadState.calls` next to its effect on memory, so a statement
about which ranges were touched is a statement about the run itself.
-/

namespace ElfLoader

open ByteMemory

variable {w : Nat} {K O : Type}

def roundup (x align : BitVec w) : BitVec w :=
  if align = 0 then x else Align.up x align

def rounddown (x align : BitVec w) : BitVec w := Align.down x align

/-- A request the loader issues against a range of the address space. -/
inductive MemCall (w : Nat) where
  | reserve (addr : Option (BitVec w)) (len : BitVec w)
  | map (addr len offset : BitVec w)
  | copy (addr len : BitVec w)
  | zero (addr len : BitVec w)
  | anonymous (addr len : BitVec w)
  | protect (addr len : BitVec w) (prot : ProtFlags)
deriving DecidableEq

structure LoadState (w : Nat) (K O : Type) where
  os : OsState w K
  object : O
  calls : List (MemCall w)

abbrev Load (w : Nat) (K O α : Type) := EStateM Halt (LoadState w K O) α

namespace Load

def record (c : MemCall w) : Load w K O Unit :=
  modify fun s => { s with calls := s.calls ++ [c] }

def onOs {α : Type} (x : EStateM Halt (OsState w K) α) : Load w K O α := fun s =>
  match x s.os with
  | .ok a os => .ok a { s with os }
  | .error e os => .error e { s with os }

def onObject {α : Type} (x : EStateM Halt O α) : Load w K O α := fun s =>
  match x s.object with
  | .ok a object => .ok a { s with object }
  | .error e object => .error e { s with object }

def modifyMem (f : Bytes w → Bytes w) : Load w K O Unit :=
  modify fun s => { s with os := { s.os with mem := f s.os.mem } }

theorem onOs_ok_iff {α : Type} {x : EStateM Halt (OsState w K) α} {s s' : LoadState w K O} {a : α} :
    onOs x s = .ok a s' ↔ ∃ os, x s.os = .ok a os ∧ s' = { s with os } := by
  unfold onOs
  cases x s.os with
  | ok b os => simp [eq_comm]
  | error e os => simp

theorem onObject_ok_iff {α : Type} {x : EStateM Halt O α} {s s' : LoadState w K O} {a : α} :
    onObject x s = .ok a s' ↔ ∃ o, x s.object = .ok a o ∧ s' = { s with object := o } := by
  unfold onObject
  cases x s.object with
  | ok b o => simp [eq_comm]
  | error e o => simp

theorem onObject_error_iff {α : Type} {x : EStateM Halt O α} {s s' : LoadState w K O} {h : Halt} :
    onObject x s = .error h s' ↔ ∃ o, x s.object = .error h o ∧ s' = { s with object := o } := by
  unfold onObject
  cases x s.object with
  | ok b o => simp
  | error e o => simp [eq_comm]

theorem onObject_bind {α β : Type} (x : EStateM Halt O α) (f : α → EStateM Halt O β) :
    (onObject (x >>= f) : Load w K O β) = (onObject x >>= fun a => onObject (f a)) := by
  funext s
  change onObject (EStateM.bind x f) s = EStateM.bind (onObject x) (fun a => onObject (f a)) s
  simp only [onObject, EStateM.bind]
  cases x s.object with
  | ok a o => rfl
  | error e o => rfl

theorem onObject_lift {α : Type} (r : Except Halt α) :
    (onObject (Exec.lift r) : Load w K O α) = Exec.lift r := by
  funext s
  cases r with
  | ok a => rfl
  | error e => rfl

end Load

/-- A segment's address: an offset from the base until `rebase`, then absolute. -/
inductive Address (w : Nat) where
  | relative (addr : BitVec w)
  | absolute (addr : BitVec w)
deriving DecidableEq

namespace Address

def absoluteAddr : Address w → Except Halt (BitVec w)
  | .relative _ => .error (.panic "unreachable")
  | .absolute addr => .ok addr

def relativeAddr : Address w → Except Halt (BitVec w)
  | .relative addr => .ok addr
  | .absolute _ => .error (.panic "unreachable")

def val : Address w → BitVec w
  | .relative addr => addr
  | .absolute addr => addr

end Address

/-- `NonNull::new(ptr).unwrap()`. -/
def nonNull (ptr : BitVec w) : Except Halt (BitVec w) :=
  if ptr = 0 then .error (.panic "called `Option::unwrap()` on a `None` value") else .ok ptr

structure FileMapInfo (w : Nat) where
  start : BitVec w
  filesz : BitVec w
  offset : BitVec w
deriving DecidableEq

structure ElfSegment (w : Nat) where
  addr : Address w
  prot : ProtFlags
  flags : MapFlags
  len : BitVec w
  zeroSize : BitVec w
  contentSize : BitVec w
  mapInfo : List (FileMapInfo w)
  needCopy : Bool
  fromRelocatable : Bool
deriving DecidableEq

/-- Address and number of elements. -/
structure Slice (w : Nat) where
  ptr : BitVec w
  count : Nat
deriving DecidableEq

/-- The reservation of an image. The base is where virtual address zero lands. -/
structure ElfSegments (w : Nat) where
  memory : BitVec w
  offset : BitVec w
  len : BitVec w
deriving DecidableEq

namespace ElfSegments

def base (segs : ElfSegments w) : BitVec w := segs.memory - segs.offset

end ElfSegments

namespace ElfSegment

def rebase (seg : ElfSegment w) (base : BitVec w) : Except Halt (ElfSegment w) := do
  let addr ← seg.addr.relativeAddr
  return { seg with addr := .absolute (base + addr) }

/-- Relocatable objects stay writable until their relocations are done. -/
def mapProt (seg : ElfSegment w) : ProtFlags :=
  if seg.fromRelocatable then ProtFlags.protRead ∪ ProtFlags.protWrite else seg.prot

def mmapSegment (M : Mmap w K) (R : ElfReader w O) (seg : ElfSegment w) :
    Load w K O (ElfSegment w) := do
  let addr ← Exec.lift seg.addr.absoluteAddr
  let s ← get
  let mapped ←
    match seg.mapInfo with
    | [info] => do
        Load.record (.map addr seg.len info.offset)
        Load.onOs (M.mmap (some addr) seg.len seg.mapProt seg.flags info.offset (R.asFd s.object))
    | _ => do
        Load.record (.map addr seg.len 0)
        Load.onOs (M.mmap (some addr) seg.len seg.mapProt seg.flags 0 none)
  return { seg with needCopy := mapped.2 }

/-- One `object.read` into the mapped segment at `ptr`. -/
def copyInfo (R : ElfReader w O) (ptr : BitVec w) (info : FileMapInfo w) : Load w K O Unit := do
  Load.record (.copy (ptr + info.start) info.filesz)
  let bytes ← Load.onObject (R.read info.filesz.toNat info.offset)
  Load.modifyMem fun m => write m (ptr + info.start) bytes

def copyData (R : ElfReader w O) (seg : ElfSegment w) : Load w K O Unit := do
  if seg.needCopy then
    let ptr ← Exec.lift seg.addr.absoluteAddr
    seg.mapInfo.forM (copyInfo R ptr)

def mprotect (M : Mmap w K) (seg : ElfSegment w) : Load w K O Unit := do
  if seg.needCopy || seg.fromRelocatable then
    let addr ← Exec.lift seg.addr.absoluteAddr
    let addr ← Exec.lift (nonNull addr)
    Load.record (.protect addr seg.len seg.prot)
    Load.onOs (M.mprotect addr seg.len seg.prot)

/-- Zero the rest of the page the content ends in, then map the whole pages that
remain. -/
def fillZero (M : Mmap w K) (seg : ElfSegment w) : Load w K O Unit := do
  if 0 < seg.zeroSize then
    let addr ← Exec.lift seg.addr.absoluteAddr
    let zeroStart := addr + seg.contentSize
    let zeroEnd := roundup zeroStart (pageSize w)
    let writeLen := zeroEnd - zeroStart
    Load.record (.zero zeroStart writeLen)
    Load.modifyMem fun m => fill m zeroStart writeLen.toNat 0
    if writeLen < seg.zeroSize then
      Load.record (.anonymous zeroEnd (seg.zeroSize - writeLen))
      let _ ← Load.onOs (M.mmapAnonymous zeroEnd (seg.zeroSize - writeLen) seg.mapProt
        (MapFlags.mapPrivate ∪ MapFlags.mapFixed))

/-- The body of the loop in `load_segments`. -/
def load (M : Mmap w K) (R : ElfReader w O) (base : BitVec w) (seg : ElfSegment w) :
    Load w K O (ElfSegment w) := do
  let seg ← Exec.lift (seg.rebase base)
  let seg ← seg.mmapSegment M R
  seg.copyData R
  seg.fillZero M
  return seg

def loadAll (M : Mmap w K) (R : ElfReader w O) (base : BitVec w) :
    List (ElfSegment w) → Load w K O (List (ElfSegment w))
  | [] => return []
  | seg :: segs => do
      let seg ← seg.load M R base
      let segs ← loadAll M R base segs
      return seg :: segs

end ElfSegment

/-- `SegmentBuilder::load_segments`, for the space and the segments a builder
creates. The loaded segments stay with the builder for `mprotect`. -/
def loadSegments (M : Mmap w K) (R : ElfReader w O) (createSpace : Load w K O (ElfSegments w))
    (createSegments : Load w K O (List (ElfSegment w))) :
    Load w K O (ElfSegments w × List (ElfSegment w)) := do
  let space ← createSpace
  let segments ← createSegments
  let segments ← ElfSegment.loadAll M R space.base segments
  return (space, segments)

end ElfLoader
