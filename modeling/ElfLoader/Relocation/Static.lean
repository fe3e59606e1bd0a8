import ElfLoader.Relocation.Dynamic

/-! # Relocation of object files (`src/relocation/static.rs`, `src/arch/x86_64.rs`)

Object files are relocated on x86-64 only. The relocator patches the sections
and fills the GOT and the PLT that the loader has reserved for the object. The
trace records what was written on behalf of which entry: a field or a GOT slot
that holds the address of the entry's symbol, or a field that refers to such a
slot.
-/

namespace ElfLoader

open ByteMemory

variable {K : Type}

/-! ## The GOT and the PLT (`src/segment/section.rs`) -/

structure PltGotSection where
  gotBase : BitVec 64
  pltBase : BitVec 64
  gotIdx : Nat
  pltIdx : Nat
  gotMap : List (Nat × Nat)
  pltMap : List (Nat × Nat)

/-- The address of the slot, and whether it is in use. -/
inductive GotEntry where
  | occupied (addr : BitVec 64)
  | vacant (addr : BitVec 64)

inductive PltEntry where
  | occupied (addr : BitVec 64)
  | vacant (plt got : BitVec 64)

namespace PltGotSection

/-- `PltGotSection::new`, with the bases after `rebase`. -/
def new (gotBase pltBase : BitVec 64) : PltGotSection where
  gotBase
  pltBase
  gotIdx := 0
  pltIdx := 0
  gotMap := []
  pltMap := []

def addGotEntry (pltgot : PltGotSection) (rSym : Nat) : GotEntry × PltGotSection :=
  match pltgot.gotMap.lookup rSym with
  | some idx => (.occupied (BitVec.ofNat 64 (idx * 8) + pltgot.gotBase), pltgot)
  | none =>
      (.vacant (BitVec.ofNat 64 (pltgot.gotIdx * 8) + pltgot.gotBase),
        { pltgot with
          gotIdx := pltgot.gotIdx + 1
          gotMap := (rSym, pltgot.gotIdx) :: pltgot.gotMap })

/-- `PLT_ENTRY_SIZE`. -/
def pltEntrySize : Nat := 16

/-- `PLT_ENTRY`. -/
def pltEntry : List UInt8 :=
  [0xf3, 0x0f, 0x1e, 0xfa, 0xff, 0x25, 0, 0, 0, 0, 0xcc, 0xcc, 0xcc, 0xcc, 0xcc, 0xcc]

/-- `add_plt_entry` without the copy of the template. Each PLT entry takes a GOT
slot of its own. -/
def addPltEntry (pltgot : PltGotSection) (rSym : Nat) : PltEntry × PltGotSection :=
  match pltgot.pltMap.lookup rSym with
  | some idx => (.occupied (BitVec.ofNat 64 (idx * pltEntrySize) + pltgot.pltBase), pltgot)
  | none =>
      (.vacant (BitVec.ofNat 64 (pltgot.pltIdx * pltEntrySize) + pltgot.pltBase)
          (BitVec.ofNat 64 (pltgot.gotIdx * 8) + pltgot.gotBase),
        { pltgot with
          pltIdx := pltgot.pltIdx + 1
          gotIdx := pltgot.gotIdx + 1
          pltMap := (rSym, pltgot.pltIdx) :: pltgot.pltMap })

end PltGotSection

/-! ## The relocator -/

inductive StaticEvent where
  | patched (rel : ElfRelType 64) (addr sym : BitVec 64)
  | filled (rel : ElfRelType 64) (got sym : BitVec 64)
  | linked (rel : ElfRelType 64) (addr slot : BitVec 64)
  | initCalled (initArray : Option (List (BitVec 64)))

structure StaticState (K : Type) where
  os : OsState 64 K
  pltgot : PltGotSection
  trace : List StaticEvent

abbrev Static (K α : Type) := EStateM Halt (StaticState K) α

namespace Static

def record (e : StaticEvent) : Static K Unit :=
  modify fun s => { s with trace := s.trace ++ [e] }

def modifyMem (f : Bytes 64 → Bytes 64) : Static K Unit :=
  modify fun s => { s with os := { s.os with mem := f s.os.mem } }

/-- Write a value computed from the address of the entry's symbol. -/
def patch (rel : ElfRelType 64) (addr sym : BitVec 64) (bytes : List UInt8) : Static K Unit := do
  record (.patched rel addr sym)
  modifyMem fun m => write m addr bytes

/-- `got.update(sym)`. -/
def fill (rel : ElfRelType 64) (got sym : BitVec 64) : Static K Unit := do
  record (.filled rel got sym)
  modifyMem fun m => writeWord m got sym

/-- Write a reference to a slot of the GOT or the PLT. -/
def link (rel : ElfRelType 64) (addr slot : BitVec 64) (bytes : List UInt8) : Static K Unit := do
  record (.linked rel addr slot)
  modifyMem fun m => write m addr bytes

def addGotEntry (rSym : Nat) : Static K GotEntry := fun s =>
  let (entry, pltgot) := s.pltgot.addGotEntry rSym
  .ok entry { s with pltgot }

/-- `add_plt_entry`: a fresh entry starts as the template. -/
def addPltEntry (rSym : Nat) : Static K PltEntry := do
  let s ← get
  let (entry, pltgot) := s.pltgot.addPltEntry rSym
  set { s with pltgot }
  match entry with
  | .vacant plt _ => modifyMem fun m => write m plt PltGotSection.pltEntry
  | .occupied _ => pure ()
  return entry

/-- `unwrap` on a conversion. -/
def unwrap {α : Type} : Option α → Static K α
  | some a => pure a
  | none => throw (.panic "called `Result::unwrap()` on an `Err` value")

end Static

/-- `RelocValue<usize>` to `RelocValue<i32>`. -/
def toI32 (v : BitVec 64) : Option (BitVec 32) :=
  if -2 ^ 31 ≤ v.toInt ∧ v.toInt < 2 ^ 31 then some (v.setWidth 32) else none

/-- `RelocValue<usize>` to `RelocValue<u32>`. -/
def toU32 (v : BitVec 64) : Option (BitVec 32) :=
  if v.toNat < 2 ^ 32 then some (v.setWidth 32) else none

namespace X86_64Relocator

def rX86_64_64 : Nat := 1
def rX86_64_PC32 : Nat := 2
def rX86_64_PLT32 : Nat := 4
def rX86_64_GOTPCREL : Nat := 9
def rX86_64_32 : Nat := 10
def rX86_64_32S : Nat := 11

section Relocate

variable [CustomHasher]
variable (ifunc : BitVec 64 → BitVec 64) (core : ElfCore 64) (scope : List (LoadedCore 64))
  (preFind postFind : SymbolLookup 64)

/-- Fail with `reloc_error`. -/
def fail {α : Type} (rel : ElfRelType 64) (err : String) : Static K α := do
  let e ← Exec.lift (relocError Arch.x86_64 rel err core)
  throw (.err e)

/-- `find_symbol`, and the error when it finds nothing. The index of the library
is dropped. -/
def findSymbol (rel : ElfRelType 64) : Static K (BitVec 64) := do
  match ← Exec.lift (findSymbolAddr ifunc preFind postFind core scope rel.rSymbol) with
  | some (sym, _) => return sym
  | none => fail core rel "unknown symbol"

/-- A conversion whose failure is an error. -/
def inRange {α : Type} (rel : ElfRelType 64) : Option α → Static K α
  | some a => pure a
  | none => fail core rel "out of range integral type conversion attempted"

/-- The address of a GOT slot that holds `sym`. -/
def gotSlot (rel : ElfRelType 64) (sym : BitVec 64) : Static K (BitVec 64) := do
  match ← Static.addGotEntry rel.rSymbol with
  | .occupied got => return got
  | .vacant got => do
      Static.fill rel got sym
      return got

/-- The address of a PLT entry that jumps to `sym`. -/
def pltStub (rel : ElfRelType 64) (sym : BitVec 64) : Static K (BitVec 64) := do
  match ← Static.addPltEntry rel.rSymbol with
  | .occupied plt => return plt
  | .vacant plt got => do
      Static.fill rel got sym
      let callOffset ← Static.unwrap (toI32 (got - plt - 10))
      Static.modifyMem fun m => write m (plt + 6) (leBytes callOffset)
      return plt

/-- `X86_64Relocator::relocate`. -/
def relocate (rel : ElfRelType 64) : Static K Unit := do
  let append := rel.rAddend
  let p := core.base + rel.rOffset
  if rel.rType = rX86_64_64 then do
    let sym ← findSymbol ifunc core scope preFind postFind rel
    Static.patch rel p sym (leBytes (sym + append))
  else if rel.rType = rX86_64_PC32 then do
    let sym ← findSymbol ifunc core scope preFind postFind rel
    let val ← inRange core rel (toI32 (sym + append - p))
    Static.patch rel p sym (leBytes val)
  else if rel.rType = rX86_64_PLT32 then do
    let sym ← findSymbol ifunc core scope preFind postFind rel
    match toI32 (sym + append - p) with
    | some val => Static.patch rel p sym (leBytes val)
    | none => do
        let plt ← pltStub rel sym
        let val ← Static.unwrap (toI32 (plt + append - p))
        Static.link rel p plt (leBytes val)
  else if rel.rType = rX86_64_GOTPCREL then do
    let sym ← findSymbol ifunc core scope preFind postFind rel
    let got ← gotSlot rel sym
    let val ← Static.unwrap (toI32 (got + append - p))
    Static.link rel p got (leBytes val)
  else if rel.rType = rX86_64_32 then do
    let sym ← findSymbol ifunc core scope preFind postFind rel
    let val ← inRange core rel (toU32 (sym + append))
    Static.patch rel p sym (leBytes val)
  else if rel.rType = rX86_64_32S then do
    let sym ← findSymbol ifunc core scope preFind postFind rel
    let val ← inRange core rel (toI32 (sym + append))
    Static.patch rel p sym (leBytes val)
  else fail core rel "unknown symbol"

/-! ### The symbol of an entry -/

/-- The address that the symbol of an entry resolves to, if it does. -/
def symbolAddr (rSym : Nat) : Option (BitVec 64) :=
  match findSymbolAddr ifunc preFind postFind core scope rSym with
  | .ok (some (sym, _)) => some sym
  | _ => none

variable {ifunc core scope preFind postFind}
variable {rel : ElfRelType 64} {s : StaticState K}

theorem symbolAddr_eq_some_iff {rSym : Nat} {sym : BitVec 64} :
    symbolAddr ifunc core scope preFind postFind rSym = some sym ↔
      ∃ i, findSymbolAddr ifunc preFind postFind core scope rSym = .ok (some (sym, i)) := by
  unfold symbolAddr
  constructor
  · intro h
    split at h
    · rename_i i heq
      cases h
      exact ⟨i, heq⟩
    · cases h
  · rintro ⟨i, heq⟩
    rw [heq]

theorem fail_error {α : Type} (core : ElfCore 64) (rel : ElfRelType 64) (err : String)
    (s : StaticState K) : ∃ e, (fail core rel err : Static K α) s = .error e s := by
  unfold fail
  cases relocError Arch.x86_64 rel err core with
  | ok e => exact ⟨.err e, rfl⟩
  | error e => exact ⟨e, rfl⟩

theorem findSymbol_of_some {sym : BitVec 64}
    (h : symbolAddr ifunc core scope preFind postFind rel.rSymbol = some sym) :
    findSymbol ifunc core scope preFind postFind rel s = .ok sym s := by
  obtain ⟨i, heq⟩ := symbolAddr_eq_some_iff.mp h
  unfold findSymbol
  rw [heq]
  rfl

theorem findSymbol_of_none
    (h : symbolAddr ifunc core scope preFind postFind rel.rSymbol = none) :
    ∃ e, findSymbol ifunc core scope preFind postFind rel s = .error e s := by
  unfold symbolAddr at h
  unfold findSymbol
  cases hfind : findSymbolAddr ifunc preFind postFind core scope rel.rSymbol with
  | error e => exact ⟨e, rfl⟩
  | ok found =>
      cases found with
      | some found =>
          rw [hfind] at h
          cases h
      | none =>
          rw [Exec.bind_of_ok (Exec.lift_ok none s)]
          exact fail_error core rel _ s

/-- Relocating an entry whose symbol is unknown does nothing. -/
theorem relocate_of_none (h : symbolAddr ifunc core scope preFind postFind rel.rSymbol = none) :
    ∃ e, relocate ifunc core scope preFind postFind rel s = .error e s := by
  obtain ⟨e, he⟩ := findSymbol_of_none (s := s) h
  unfold relocate
  split_ifs
  all_goals
    first
    | exact ⟨e, Exec.bind_of_error he⟩
    | exact fail_error core rel _ s

/-- Relocating an entry whose symbol is known, type by type. -/
theorem relocate_of_some {sym : BitVec 64}
    (h : symbolAddr ifunc core scope preFind postFind rel.rSymbol = some sym) :
    relocate ifunc core scope preFind postFind rel s =
      (if rel.rType = rX86_64_64 then
        Static.patch rel (core.base + rel.rOffset) sym (leBytes (sym + rel.rAddend))
      else if rel.rType = rX86_64_PC32 then do
        let val ← inRange core rel (toI32 (sym + rel.rAddend - (core.base + rel.rOffset)))
        Static.patch rel (core.base + rel.rOffset) sym (leBytes val)
      else if rel.rType = rX86_64_PLT32 then
        match toI32 (sym + rel.rAddend - (core.base + rel.rOffset)) with
        | some val => Static.patch rel (core.base + rel.rOffset) sym (leBytes val)
        | none => do
            let plt ← pltStub rel sym
            let val ← Static.unwrap (toI32 (plt + rel.rAddend - (core.base + rel.rOffset)))
            Static.link rel (core.base + rel.rOffset) plt (leBytes val)
      else if rel.rType = rX86_64_GOTPCREL then do
        let got ← gotSlot rel sym
        let val ← Static.unwrap (toI32 (got + rel.rAddend - (core.base + rel.rOffset)))
        Static.link rel (core.base + rel.rOffset) got (leBytes val)
      else if rel.rType = rX86_64_32 then do
        let val ← inRange core rel (toU32 (sym + rel.rAddend))
        Static.patch rel (core.base + rel.rOffset) sym (leBytes val)
      else if rel.rType = rX86_64_32S then do
        let val ← inRange core rel (toI32 (sym + rel.rAddend))
        Static.patch rel (core.base + rel.rOffset) sym (leBytes val)
      else fail core rel "unknown symbol" : Static K Unit) s := by
  have hfind := findSymbol_of_some (s := s) h
  unfold relocate
  split_ifs
  all_goals
    first
    | exact Exec.bind_of_ok hfind
    | rfl

end Relocate

end X86_64Relocator

namespace Slice

/-- The addresses of the words of a slice. -/
def slots (fns : Slice 64) : List (BitVec 64) :=
  (List.range fns.count).map fun k => fns.ptr + BitVec.ofNat 64 (k * 8)

/-- The words of a slice. Relocation fills in function pointers, so they are read
when the slice is used. -/
def words (m : Bytes 64) (fns : Slice 64) : List (BitVec 64) := fns.slots.map (readWord m)

end Slice

/-- A loaded object file, with the PLT and GOT reserved for it. -/
structure RawObject [CustomHasher] (K : Type) where
  core : ElfCore 64
  relocation : List (List (ElfRelType 64))
  gotBase : BitVec 64
  pltBase : BitVec 64
  mprotect : EStateM Halt (OsState 64 K) Unit
  initArray : Option (Slice 64)

namespace RawObject

variable [CustomHasher]

/-- `(self.mprotect)()`. -/
def protect (object : RawObject K) : Static K Unit := fun s =>
  match object.mprotect s.os with
  | .ok _ os => .ok () { s with os }
  | .error e os => .error e { s with os }

/-- `(self.init)(None, self.init_array)`. -/
def callInit (object : RawObject K) : Static K Unit := do
  let s ← get
  Static.record (.initCalled (object.initArray.map (Slice.words s.os.mem)))

def relocateImpl (object : RawObject K) (ifunc : BitVec 64 → BitVec 64)
    (scope : List (LoadedCore 64)) (preFind postFind : SymbolLookup 64) :
    Static K (LoadedCore 64) := do
  object.relocation.forM fun reloc =>
    reloc.forM (X86_64Relocator.relocate ifunc object.core scope preFind postFind)
  object.protect
  object.callInit
  return LoadedCore.fromCore object.core

/-- Relocate an object from the start. -/
def run (object : RawObject K) (ifunc : BitVec 64 → BitVec 64) (scope : List (LoadedCore 64))
    (preFind postFind : SymbolLookup 64) (os : OsState 64 K) :
    EStateM.Result Halt (StaticState K) (LoadedCore 64) :=
  object.relocateImpl ifunc scope preFind postFind
    { os, pltgot := .new object.gotBase object.pltBase, trace := [] }

end RawObject

end ElfLoader
