import ElfLoader.Elf.Lookup
import ElfLoader.Segment.Basic

/-! # Loaded modules (`src/image/common/core.rs`)

An `ElfCore` is a shared handle; `id` is the identity of the allocation behind
it, which is what `Arc::as_ptr` compares. The symbol table is what the mapped
file holds: relocation never writes to it.
-/

namespace ElfLoader

/-- A strategy of the user: `SymbolLookup`. -/
abbrev SymbolLookup (w : Nat) := Name → Option (BitVec w)

variable {w : Nat} [CustomHasher]

structure ElfCore (w : Nat) where
  id : Nat
  name : Name
  symtab : SymbolTable w
  segments : ElfSegments w

structure LoadedCore (w : Nat) where
  core : ElfCore w
  deps : List (LoadedCore w)

namespace ElfCore

def base (core : ElfCore w) : BitVec w := core.segments.base

end ElfCore

namespace LoadedCore

def fromCore (core : ElfCore w) : LoadedCore w := { core, deps := [] }

def fromCoreDeps (core : ElfCore w) (deps : List (LoadedCore w)) : LoadedCore w := { core, deps }

def name (lib : LoadedCore w) : Name := lib.core.name

def symtab (lib : LoadedCore w) : SymbolTable w := lib.core.symtab

end LoadedCore

/-- The definition a symbol is bound to; no symbol means an undefined weak one. -/
structure SymDef (w : Nat) where
  sym : Option (SymRef w)
  lib : ElfCore w

namespace SymDef

/-- The address of a definition. `ifunc` is what the resolver function at an
address returns. -/
def convert (ifunc : BitVec w → BitVec w) (symdef : SymDef w) : BitVec w :=
  match symdef.sym with
  | some ref =>
      let addr := symdef.lib.base + ref.sym.stValue
      if ref.sym.stType = sttGnuIfunc then ifunc addr else addr
  | none => 0

end SymDef

namespace LoadedCore

/-- The address `lookup_filter` finds for a requirement in this library. -/
def getInfo (ifunc : BitVec w → BitVec w) (lib : LoadedCore w) (info : SymbolInfo) :
    Except Halt (Option (BitVec w)) := do
  let (found, _) ← lib.symtab.lookupFilter info (info.precompute w)
  return found.map fun sym => SymDef.convert ifunc { sym := some sym, lib := lib.core }

def get (ifunc : BitVec w → BitVec w) (lib : LoadedCore w) (name : Name) :
    Except Halt (Option (BitVec w)) := do
  lib.getInfo ifunc (← SymbolInfo.fromStr name none)

def getVersion (ifunc : BitVec w → BitVec w) (lib : LoadedCore w) (name version : Name) :
    Except Halt (Option (BitVec w)) := do
  lib.getInfo ifunc (← SymbolInfo.fromStr name (some version))

theorem getInfo_eq (ifunc : BitVec w → BitVec w) (lib : LoadedCore w) (info : SymbolInfo) :
    lib.getInfo ifunc info = (lib.symtab.provided info).map
      (Option.map fun sym => SymDef.convert ifunc { sym := some sym, lib := lib.core }) := by
  obtain ⟨pre', -, hlookup⟩ := lib.symtab.lookupFilter_sound (precompute_sound info)
  unfold getInfo
  rw [hlookup]
  cases lib.symtab.provided info with
  | error e => rfl
  | ok found => rfl

end LoadedCore

end ElfLoader
