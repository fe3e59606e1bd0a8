import ElfLoader.Relocation.Resolve
import ElfLoader.Relocation.Tables

/-! # Relocation of dynamic images (`src/relocation/dynamic.rs`)

The passes run in one state: memory, the two handlers with their own state, the
dependency flags of the helper and a trace. The trace is not part of the source;
it records which entry a handler was asked about and what it answered, and which
entry the default logic stored for, so that statements about a run can name
them.
-/

namespace ElfLoader

open ByteMemory

variable {w : Nat} {K P Q : Type}

/-- What a handler returns: `Option<Result<Option<usize>>>`. -/
abbrev Answer := Option (Except Error (Option Nat))

inductive Stage where
  | pre
  | post
deriving DecidableEq

/-- A store carries the memory it was made in, which is where an in-place addend
was read. -/
inductive Event (w : Nat) where
  | asked (stage : Stage) (ref : RelRef w)
  | answered (stage : Stage) (ref : RelRef w) (answer : Answer)
  | stored (ref : RelRef w) (before : Bytes w) (addr value : BitVec w)
  | copied (ref : RelRef w) (dest src : BitVec w) (len : Nat)
  | rebased (ref : RelRef w) (addr : BitVec w)
  | unhandled (ref : RelRef w)
  | relr (addr : BitVec w)
  | initCalled (initFn : Option (BitVec w)) (initArray : Option (List (BitVec w)))

structure ELFRelro (w : Nat) where
  addr : BitVec w
  len : BitVec w

/-- What relocation uses of its process: the target, the memory calls, what the
resolver function at an address returns, the address of the lazy binding
trampoline and the addresses of the module records. -/
structure Process (w : Nat) (K : Type) where
  arch : Arch w
  mmap : Mmap w K
  ifunc : BitVec w → BitVec w
  dlRuntimeResolve : BitVec w
  coreAddr : Nat → BitVec w

variable [CustomHasher]

structure RelocationContext (w : Nat) where
  rel : RelRef w
  lib : ElfCore w
  scope : List (LoadedCore w)

/-- A relocation handler with its own state `P`. It runs inside the process, so
it may also write memory, and it may panic. -/
structure RelocationHandler (w : Nat) (P : Type) where
  handle : RelocationContext w → EStateM Halt (P × Bytes w) Answer

structure LazyScope (w : Nat) where
  libs : List (ElfCore w)
  customScope : Option (SymbolLookup w)

structure RelocState (w : Nat) (K P Q : Type) where
  os : OsState w K
  pre : P
  post : Q
  dependencyFlags : List Bool
  lazyScope : Option (LazyScope w)
  isInit : Bool
  trace : List (Event w)

/-- Append an event to the trace. -/
def RelocState.push (s : RelocState w K P Q) (e : Event w) : RelocState w K P Q :=
  { s with trace := s.trace ++ [e] }

abbrev Reloc (w : Nat) (K P Q α : Type) := EStateM Halt (RelocState w K P Q) α

/-- What the dynamic section of a module says. -/
structure DynamicData (w : Nat) where
  core : ElfCore w
  lazy : Bool
  gotPlt : Option (BitVec w)
  tables : RelocTables w
  relro : Option (ELFRelro w)
  initFn : Option (BitVec w)
  initArray : Option (List (BitVec w))
  neededLibs : List Name

/-- A dynamic image: the data with its relocation tables split. -/
structure DynamicImage (arch : Arch w) extends DynamicData w where
  relocation : DynamicRelocation w
  relocation_eq : DynamicRelocation.new arch tables = .ok relocation

/-- `State::init`. -/
def DynamicData.init (arch : Arch w) (data : DynamicData w) : Except Halt (DynamicImage arch) :=
  match h : DynamicRelocation.new arch data.tables with
  | .ok relocation => .ok { toDynamicData := data, relocation, relocation_eq := h }
  | .error e => .error e

/-- `RelocHelper`, without the dependency flags, which are state. -/
structure RelocHelper (w : Nat) (P Q : Type) where
  scope : List (LoadedCore w)
  preFind : SymbolLookup w
  postFind : SymbolLookup w
  preHandler : RelocationHandler w P
  postHandler : RelocationHandler w Q

namespace Reloc

def record (e : Event w) : Reloc w K P Q Unit :=
  modify fun s => s.push e

def modifyMem (f : Bytes w → Bytes w) : Reloc w K P Q Unit :=
  modify fun s => { s with os := { s.os with mem := f s.os.mem } }

/-- `segments.write` on behalf of an entry. -/
def store (ref : RelRef w) (addr value : BitVec w) : Reloc w K P Q Unit := do
  let s ← get
  record (.stored ref s.os.mem addr value)
  modifyMem fun m => writeWord m addr value

/-- `helper.dependency_flags[idx] = true`. -/
def setFlag (idx : Nat) : Reloc w K P Q Unit := do
  let s ← get
  if idx < s.dependencyFlags.length then
    set { s with dependencyFlags := s.dependencyFlags.set idx true }
  else throw (.panic "index out of bounds")

def setFlag? : Option Nat → Reloc w K P Q Unit
  | some idx => setFlag idx
  | none => pure ()

/-- Run a handler on its part of the state. -/
def onPre (x : EStateM Halt (P × Bytes w) Answer) : Reloc w K P Q Answer := fun s =>
  match x (s.pre, s.os.mem) with
  | .ok a (pre, mem) => .ok a { s with pre, os := { s.os with mem } }
  | .error e (pre, mem) => .error e { s with pre, os := { s.os with mem } }

def onPost (x : EStateM Halt (Q × Bytes w) Answer) : Reloc w K P Q Answer := fun s =>
  match x (s.post, s.os.mem) with
  | .ok a (post, mem) => .ok a { s with post, os := { s.os with mem } }
  | .error e (post, mem) => .error e { s with post, os := { s.os with mem } }

/-- What `handle_pre` and `handle_post` make of an answer: whether the entry is
still to be handled. -/
def accept : Answer → Reloc w K P Q Bool
  | none => pure true
  | some (.error e) => throw (.err e)
  | some (.ok idx) => do
      setFlag? idx
      return false

/-- The body of `handle_pre` and `handle_post`. -/
def ask (stage : Stage) (ref : RelRef w) (handler : Reloc w K P Q Answer) :
    Reloc w K P Q Bool := do
  record (.asked stage ref)
  let answer ← handler
  record (.answered stage ref answer)
  accept answer

end Reloc

namespace RelocHelper

def handlePre (helper : RelocHelper w P Q) (hctx : RelocationContext w) : Reloc w K P Q Bool :=
  Reloc.ask .pre hctx.rel (Reloc.onPre (helper.preHandler.handle hctx))

def handlePost (helper : RelocHelper w P Q) (hctx : RelocationContext w) : Reloc w K P Q Bool :=
  Reloc.ask .post hctx.rel (Reloc.onPost (helper.postHandler.handle hctx))

end RelocHelper

/-- `reloc_error`. -/
def relocError (arch : Arch w) (rel : ElfRelType w) (err : String) (lib : ElfCore w) :
    Except Halt Error := do
  let relType := arch.relTypeToStr rel.rType
  if rel.rSymbol = 0 then
    return .relocation { file := lib.name, relType, symbolName := none, error := err }
  else
    let (_, info) ← lib.symtab.symbolIdx rel.rSymbol
    return .relocation { file := lib.name, relType, symbolName := some info.name, error := err }

namespace DynamicImage

/-! ## Relative relocations -/

section Relative

variable (proc : Process w K) (image : DynamicImage proc.arch)

/-- One entry of the relative part: base plus addend. -/
def relativeStep (ref : RelRef w) : Reloc w K P Q Unit := do
  let s ← get
  let base := image.core.base
  Reloc.store ref (base + ref.rel.rOffset) (base + ref.rel.addend proc.arch base s.os.mem)

/-- Add the base to the word at `addr`. -/
def relrWord (addr : BitVec w) : Reloc w K P Q Unit := do
  Reloc.record (.relr addr)
  Reloc.modifyMem fun m => writeWord m addr (image.core.base + readWord m addr)

/-- The loop over a bitmap entry. The bitmap loses a bit in each iteration, so
it is zero after `w` of them. -/
def relrBitmap (relocAddr : BitVec w) : Nat → BitVec w → Nat → Reloc w K P Q Unit
  | 0, _, _ => pure ()
  | fuel + 1, bitmap, idx => do
      if bitmap ≠ 0 then
        let bitmap := bitmap >>> 1
        if bitmap &&& 1#w ≠ 0 then
          relrWord proc image (relocAddr + BitVec.ofNat w (idx * (w / 8)))
        relrBitmap relocAddr fuel bitmap (idx + 1)

/-- The words of a `DT_RELR` table; `relocAddr` is the pointer the loop keeps. -/
def relrLoop : List (BitVec w) → BitVec w → Reloc w K P Q Unit
  | [], _ => pure ()
  | value :: words, relocAddr => do
      if value &&& 1#w = 0 then
        let relocAddr := image.core.base + value
        relrWord proc image relocAddr
        relrLoop words (relocAddr + BitVec.ofNat w (w / 8))
      else
        relrBitmap proc image relocAddr w value 0
        relrLoop words (relocAddr + BitVec.ofNat w ((w - 1) * (w / 8)))

def relocateRelative : Reloc w K P Q Unit :=
  match image.relocation.relative with
  | .rel rels => do
      if rels.head?.all (fun ref => ref.rel.rType = proc.arch.relRelative) then
        rels.forM (relativeStep proc image)
      else throw (.panic "assertion failed: rel.is_empty() || rel[0].r_type() == REL_RELATIVE")
  | .relr words => relrLoop proc image words 0

end Relative

/-! ## Symbol relocations -/

section Symbols

variable (proc : Process w K) (image : DynamicImage proc.arch) (helper : RelocHelper w P Q)

/-- `find_symbol_addr` for an entry of this image. -/
def findAddr (ref : RelRef w) : Except Halt (Option (BitVec w × Option Nat)) :=
  findSymbolAddr proc.ifunc helper.preFind helper.postFind image.core helper.scope ref.rel.rSymbol

/-- `hctx.find_symdef` for an entry of this image. -/
def findDef (ref : RelRef w) : Except Halt (Option (SymDef w × Option Nat)) :=
  findSymdef image.core helper.scope ref.rel.rSymbol

/-- `symdef.sym.unwrap()`. -/
def unwrapSym (symdef : SymDef w) : Except Halt (SymRef w) :=
  match symdef.sym with
  | some sym => .ok sym
  | none => .error (.panic "called `Option::unwrap()` on a `None` value")

/-- The `match` of `relocate_dynrel`: whether the default logic took the entry. -/
def dynrelDefault (ref : RelRef w) : Reloc w K P Q Bool := do
  let s ← get
  let base := image.core.base
  let rType := ref.rel.rType
  let addend := ref.rel.addend proc.arch base s.os.mem
  if rType = proc.arch.relGot ∨ rType = proc.arch.relSymbolic then
    match ← Exec.lift (findAddr proc image helper ref) with
    | some (symbol, idx) => do
        Reloc.setFlag? idx
        Reloc.store ref (base + ref.rel.rOffset) (symbol + addend)
        return true
    | none => return false
  else if rType = proc.arch.relDtpoff then
    match ← Exec.lift (findDef proc image helper ref) with
    | some (symdef, idx) => do
        Reloc.setFlag? idx
        let sym ← Exec.lift (unwrapSym symdef)
        Reloc.store ref (base + ref.rel.rOffset)
          (sym.sym.stValue + addend - proc.arch.tlsDtvOffset)
        return true
    | none => return false
  else if rType = proc.arch.relCopy then
    match ← Exec.lift (findDef proc image helper ref) with
    | some (symdef, idx) => do
        let (own, _) ← Exec.lift (image.core.symtab.symbolIdx ref.rel.rSymbol)
        let len := own.sym.stSize.toNat
        Reloc.setFlag? idx
        let sym ← Exec.lift (unwrapSym symdef)
        let dest := base + ref.rel.rOffset
        let src := symdef.lib.base + sym.sym.stValue
        Reloc.record (.copied ref dest src len)
        Reloc.modifyMem fun m => write m dest (read m src len)
        return true
    | none => return false
  else if rType = proc.arch.relIrelative then do
    Reloc.store ref (base + ref.rel.rOffset) (proc.ifunc (base + addend))
    return true
  else if rType = relNone then return true
  else return false

/-- The branches of `relocate_pltrel`. -/
def pltrelDefault (isLazy : Bool) (ref : RelRef w) : Reloc w K P Q Bool := do
  let s ← get
  let base := image.core.base
  let rType := ref.rel.rType
  let addend := ref.rel.addend proc.arch base s.os.mem
  if rType = proc.arch.relJumpSlot then
    if isLazy then do
      let addr := base + ref.rel.rOffset
      Reloc.record (.rebased ref addr)
      Reloc.modifyMem fun m => writeWord m addr (readWord m addr + base)
      return true
    else
      match ← Exec.lift (findAddr proc image helper ref) with
      | some (symbol, idx) => do
          Reloc.setFlag? idx
          Reloc.store ref (base + ref.rel.rOffset) symbol
          return true
      | none => return true
  else if rType = proc.arch.relIrelative then do
    Reloc.store ref (base + ref.rel.rOffset) (proc.ifunc (base + addend))
    return true
  else return false

/-- The end of an iteration whose entry is still to be handled: the post handler,
and the error when it declines. -/
def offerPost (ref : RelRef w) : Reloc w K P Q Unit := do
  if ← helper.handlePost { rel := ref, lib := image.core, scope := helper.scope } then
    Reloc.record (.unhandled ref)
    let e ← Exec.lift (relocError proc.arch ref.rel "Unhandled relocation" image.core)
    throw (.err e)

/-- One iteration of either loop: the pre handler, the default logic, the post
handler. -/
def relocStep (default : RelRef w → Reloc w K P Q Bool) (ref : RelRef w) : Reloc w K P Q Unit := do
  if ← helper.handlePre { rel := ref, lib := image.core, scope := helper.scope } then
    if ← default ref then return ()
    else offerPost proc image helper ref

def relocateDynrel : Reloc w K P Q Unit :=
  image.relocation.dynrel.forM
    (relocStep proc image helper (dynrelDefault proc image helper))

/-- `prepare_lazy_bind`. -/
def prepareLazyBind (got : BitVec w) : Reloc w K P Q Unit :=
  Reloc.modifyMem fun m =>
    let m := writeWord m (got + BitVec.ofNat w (proc.arch.dylibOffset * (w / 8)))
      (proc.coreAddr image.core.id)
    writeWord m (got + BitVec.ofNat w (proc.arch.resolveFunctionOffset * (w / 8)))
      proc.dlRuntimeResolve

/-- `ELFRelro::relro`. -/
def applyRelro (relro : ELFRelro w) : Reloc w K P Q Unit := fun s =>
  let stop := roundup (relro.addr + relro.len) (pageSize w)
  let start := rounddown relro.addr (pageSize w)
  match proc.mmap.mprotect start (stop - start) ProtFlags.protRead s.os with
  | .ok _ os => .ok () { s with os }
  | .error e os => .error e { s with os }

/-- What `relocate_pltrel` does after its loop. -/
def afterPltrel (isLazy : Bool) (lazyScope : Option (LazyScope w)) : Reloc w K P Q Unit := do
  if isLazy then
    if !image.relocation.pltrel.isEmpty then
      match image.gotPlt with
      | some got => prepareLazyBind proc image got
      | none => throw (.panic "called `Option::unwrap()` on a `None` value")
    if image.relocation.pltrel.isEmpty || lazyScope.isSome then
      match lazyScope with
      | some scope => modify fun s => { s with lazyScope := some scope }
      | none => pure ()
    else throw (.panic "lazy scope is not set")
  else
    match image.relro with
    | some relro => applyRelro proc relro
    | none => pure ()

def relocatePltrel (isLazy : Bool) (lazyScope : Option (LazyScope w)) : Reloc w K P Q Unit := do
  image.relocation.pltrel.forM
    (relocStep proc image helper (pltrelDefault proc image helper isLazy))
  afterPltrel proc image isLazy lazyScope

/-- `finish`: the flag first, then the init handler. -/
def finish : Reloc w K P Q Unit := do
  modify fun s => { s with isInit := true }
  Reloc.record (.initCalled image.initFn image.initArray)

/-- The libraries the image keeps alive. -/
def collectDeps (scope : List (LoadedCore w)) (flags : List Bool) : List (LoadedCore w) :=
  (scope.zip flags).filterMap fun entry =>
    if entry.2 || image.neededLibs.contains entry.1.name then some entry.1 else none

def makeLazyScope (isLazy : Bool) (scope : List (LoadedCore w))
    (lazyScope : Option (SymbolLookup w)) : Option (LazyScope w) :=
  if isLazy then
    some
      { libs := if lazyScope.isNone then
            (scope.filter fun lib => image.neededLibs.contains lib.name).map LoadedCore.core
          else []
        customScope := lazyScope }
  else none

/-- The passes, in the order `relocate_impl` runs them. -/
def passes (isLazy : Bool) (lazyScope : Option (LazyScope w)) : Reloc w K P Q Unit := do
  relocateRelative proc image
  relocateDynrel proc image helper
  relocatePltrel proc image helper isLazy lazyScope
  finish proc image

def relocateImpl (lazy : Option Bool) (lazyScope : Option (SymbolLookup w)) :
    Reloc w K P Q (LoadedCore w) := do
  if image.relocation.isEmpty then return LoadedCore.fromCore image.core
  else
    let isLazy := lazy.getD image.lazy
    modify fun s => { s with dependencyFlags := List.replicate helper.scope.length false }
    passes proc image helper isLazy (makeLazyScope proc image isLazy helper.scope lazyScope)
    let s ← get
    return LoadedCore.fromCoreDeps image.core
      (collectDeps proc image helper.scope s.dependencyFlags)

end Symbols

end DynamicImage

/-! ## Lazy binding -/

/-- `LazyScope::lookup`. The libraries are weak references; `alive` says which
allocations still exist. -/
def LazyScope.lookup (ifunc : BitVec w → BitVec w) (alive : Nat → Bool) (scope : LazyScope w)
    (name : Name) : Except Halt (Option (BitVec w)) :=
  match scope.customScope.bind (· name) with
  | some sym => .ok (some sym)
  | none =>
      Search.findFirst
        (fun lib => if alive lib.id then (LoadedCore.fromCore lib).get ifunc name else .ok none)
        scope.libs

namespace DynamicImage

variable (proc : Process w K) (image : DynamicImage proc.arch)

/-- The entry `dl_fixup` is called for. -/
def fixupEntry (relaIdx : Nat) : Except Halt (ElfRelType w) :=
  match image.tables.pltrel with
  | some slice =>
      match slice.rels[relaIdx]? with
      | some rela => .ok rela
      | none => .error .fault
  | none => .error (.panic "called `Option::unwrap()` on a `None` value")

/-- `dl_fixup`, with the allocations that exist when it is called. -/
def dlFixup (alive : Nat → Bool) (relaIdx : Nat) : Reloc w K P Q (BitVec w) := do
  let rela ← Exec.lift (fixupEntry proc image relaIdx)
  if rela.rType = proc.arch.relJumpSlot ∧ rela.rSymbol ≠ 0 then
    let (_, info) ← Exec.lift (image.core.symtab.symbolIdx rela.rSymbol)
    match (← get).lazyScope with
    | some scope =>
        match ← Exec.lift (scope.lookup proc.ifunc alive info.name) with
        | some symbol => do
            Reloc.store ⟨.plt, relaIdx, rela⟩ (image.core.base + rela.rOffset) symbol
            return symbol
        | none => throw (.panic "lazy bind fail")
    | none => throw (.panic "called `Option::unwrap()` on a `None` value")
  else throw (.panic "assertion failed: r_type == REL_JUMP_SLOT as usize && r_sym != 0")

end DynamicImage

end ElfLoader
