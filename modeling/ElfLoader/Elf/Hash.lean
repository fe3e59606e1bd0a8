import ElfLoader.Elf.Version
import ElfLoader.Library.Exec

/-! # Symbol tables and their hash tables (`src/elf/symbol.rs`, `src/elf/hash`)

Three kinds of hash table serve one lookup. A walk along a chain tests each
entry it reaches and stops at the first one accepted; the SysV chain is linked,
so a cyclic one is walked forever, which the walk answers with `Halt.diverge`
once it has seen more entries than the table has.
-/

namespace ElfLoader

variable {w : Nat}

/-- The hash function of the custom table (`FoldHasher` with its fixed seed). -/
class CustomHasher where
  hash : Name → UInt64

/-- A hash function to evaluate closed terms with. The tables of dynamic images
never consult it. -/
abbrev constantHasher : CustomHasher := ⟨fun _ => 0⟩

structure SymbolInfo where
  name : Name
  version : Option SymbolVersion
deriving DecidableEq

namespace SymbolInfo

def fromStr (name : Name) (version : Option Name) : Except Halt SymbolInfo :=
  match version with
  | none => .ok { name, version := none }
  | some v => do
      let version ← SymbolVersion.new v
      return { name, version := some version }

end SymbolInfo

structure PreCompute (w : Nat) where
  gnuhash : UInt32
  fofs : Nat
  fmask : BitVec w
  hash : Option UInt32
  custom : Option UInt64

structure ElfGnuHash (w : Nat) where
  nbucket : UInt32
  symbias : UInt32
  nbloom : UInt32
  nshift : UInt32
  blooms : List (BitVec w)
  buckets : List UInt32
  chains : List UInt32

namespace ElfGnuHash

def hash (name : Name) : UInt32 :=
  name.foldl (fun hash byte => hash * 33 + byte.toUInt32) 5381

/-- The tests before the chain: the first symbol of the bucket, or nothing when
the bloom filter or an empty bucket rules the name out. -/
def chainStart (hashtab : ElfGnuHash w) (pre : PreCompute w) : Except Halt (Option Nat) :=
  match hashtab.blooms[pre.fofs &&& (hashtab.nbloom - 1).toNat]? with
  | none => .error .fault
  | some filter =>
      if filter &&& pre.fmask = 0 then .ok none
      else if (filter >>> ((pre.gnuhash >>> hashtab.nshift).toNat % w)) &&& 1#w = 0 then .ok none
      else if hashtab.nbucket = 0 then
        .error (.panic "attempt to calculate the remainder with a divisor of zero")
      else
        match hashtab.buckets[pre.gnuhash.toNat % hashtab.nbucket.toNat]? with
        | none => .error .fault
        | some start => .ok (if start = 0 then none else some start.toNat)

/-- The indices a walk tests, in order: the entries of the chain whose hash is
the wanted one up to the end bit. The chain has to end inside the table. -/
def chain (hash : UInt32) : List UInt32 → Nat → Except Halt (List Nat)
  | [], _ => .error .fault
  | chainHash :: rest, idx =>
      let tail := if chainHash &&& 1 ≠ 0 then .ok [] else chain hash rest (idx + 1)
      tail.map fun tail => if hash ||| 1 = chainHash ||| 1 then idx :: tail else tail

end ElfGnuHash

structure ElfHash where
  nbucket : UInt32
  nchain : UInt32
  buckets : List UInt32
  chains : List UInt32

namespace ElfHash

def hashStep (hash : UInt32) (byte : UInt8) : UInt32 :=
  let hash := (hash <<< 4) + byte.toUInt32
  let g := hash &&& 0xf0000000
  (if g ≠ 0 then hash ^^^ (g >>> 24) else hash) &&& ~~~g

def hash (name : Name) : UInt32 := name.foldl hashStep 0

def chainStart (hashtab : ElfHash) (hash : UInt32) : Except Halt Nat :=
  if hashtab.nbucket = 0 then
    .error (.panic "attempt to calculate the remainder with a divisor of zero")
  else
    match hashtab.buckets[hash.toNat % hashtab.nbucket.toNat]? with
    | none => .error .fault
    | some start => .ok start.toNat

/-- The indices a walk from `chainIdx` tests, in order. -/
def chain (hashtab : ElfHash) : Nat → Nat → Except Halt (List Nat)
  | 0, _ => .error .diverge
  | fuel + 1, chainIdx =>
      if chainIdx = 0 then .ok []
      else
        match hashtab.chains[chainIdx]? with
        | none => .error .fault
        | some next => do
            let tail ← hashtab.chain fuel next.toNat
            return chainIdx :: tail

end ElfHash

structure TableEntry where
  name : Name
  idx : Nat
deriving DecidableEq

/-- The table of `hashbrown` that serves relocatable objects. Which of several
entries with equal names `find` returns is not specified. -/
structure CustomHash [CustomHasher] where
  entries : List TableEntry
  find : UInt64 → (TableEntry → Bool) → Option TableEntry
  find_mem : ∀ {h p e}, find h p = some e → e ∈ entries ∧ p e = true
  find_none : ∀ {h p}, find h p = none → ∀ e ∈ entries, CustomHasher.hash e.name = h → p e = false

variable [CustomHasher]

inductive HashTable (w : Nat) where
  | gnu (hashtab : ElfGnuHash w)
  | elf (hashtab : ElfHash)
  | custom (hashtab : CustomHash)

/-- Version data comes with the dynamic section; the table of an object, which
has the custom hash table, has none. -/
structure SymbolTable (w : Nat) where
  hashtab : HashTable w
  symtab : List (ElfSymbol w)
  strtab : List UInt8
  version : Option ELFVersion
  custom_unversioned : ∀ c, hashtab = .custom c → version = none

/-- `SymbolInfo::precompute`. -/
def SymbolInfo.precompute (w : Nat) (info : SymbolInfo) : PreCompute w :=
  let gnuhash := ElfGnuHash.hash info.name
  { gnuhash
    fofs := gnuhash.toNat / w
    fmask := 1#w <<< (gnuhash.toNat % w)
    hash := none
    custom := none }

namespace SymbolTable

/-- `&*symtab.add(idx)`. -/
def symbolAt (table : SymbolTable w) (idx : Nat) : Except Halt (ElfSymbol w) :=
  match table.symtab[idx]? with
  | some sym => .ok sym
  | none => .error .fault

def symbolIdx (table : SymbolTable w) (idx : Nat) : Except Halt (SymRef w × SymbolInfo) := do
  let sym ← table.symbolAt idx
  let name ← getStr table.strtab sym.stName.toNat
  let version ← getRequirement table.version idx
  return (⟨idx, sym⟩, { name, version })

/-- The test a walk makes on an entry: the name, then the version. -/
def acceptEntry (table : SymbolTable w) (info : SymbolInfo) (idx : Nat) :
    Except Halt (Option (SymRef w)) := do
  let sym ← table.symbolAt idx
  let symName ← getStr table.strtab sym.stName.toNat
  if symName = info.name then
    let accepted ← checkMatch table.version idx info.version
    return if accepted then some ⟨idx, sym⟩ else none
  else return none

/-- The loop of `ElfGnuHash::lookup`. -/
def gnuWalk (table : SymbolTable w) (info : SymbolInfo) (hash : UInt32) :
    List UInt32 → Nat → Except Halt (Option (SymRef w))
  | [], _ => .error .fault
  | chainHash :: rest, dynsymIdx =>
      let found :=
        if hash ||| 1 = chainHash ||| 1 then table.acceptEntry info dynsymIdx else .ok none
      found.bind fun
        | some sym => .ok (some sym)
        | none =>
            if chainHash &&& 1 ≠ 0 then .ok none
            else gnuWalk table info hash rest (dynsymIdx + 1)

def gnuLookup (table : SymbolTable w) (hashtab : ElfGnuHash w) (info : SymbolInfo)
    (pre : PreCompute w) : Except Halt (Option (SymRef w)) := do
  match ← hashtab.chainStart pre with
  | none => return none
  | some start =>
      if start < hashtab.symbias.toNat then .error .fault
      else
        table.gnuWalk info pre.gnuhash (hashtab.chains.drop (start - hashtab.symbias.toNat)) start

/-- The loop of `ElfHash::lookup`. -/
def elfWalk (table : SymbolTable w) (hashtab : ElfHash) (info : SymbolInfo) :
    Nat → Nat → Except Halt (Option (SymRef w))
  | 0, _ => .error .diverge
  | fuel + 1, chainIdx =>
      if chainIdx = 0 then .ok none
      else do
        match ← table.acceptEntry info chainIdx with
        | some sym => return some sym
        | none =>
            match hashtab.chains[chainIdx]? with
            | none => .error .fault
            | some next => elfWalk table hashtab info fuel next.toNat

def elfLookup (table : SymbolTable w) (hashtab : ElfHash) (info : SymbolInfo) (hash : UInt32) :
    Except Halt (Option (SymRef w)) := do
  let start ← hashtab.chainStart hash
  table.elfWalk hashtab info (hashtab.chains.length + 1) start

def customLookup (table : SymbolTable w) (hashtab : CustomHash) (info : SymbolInfo)
    (hash : UInt64) : Except Halt (Option (SymRef w)) :=
  match hashtab.find hash (fun entry => entry.name = info.name) with
  | none => .ok none
  | some entry => do
      let sym ← table.symbolIdx entry.idx
      return some sym.1

/-- `HashTable::lookup`; the hashes the call computes stay in the cache. -/
def lookup (table : SymbolTable w) (info : SymbolInfo) (pre : PreCompute w) :
    Except Halt (Option (SymRef w) × PreCompute w) :=
  match table.hashtab with
  | .gnu hashtab => do
      let found ← table.gnuLookup hashtab info pre
      return (found, pre)
  | .elf hashtab => do
      let hash := pre.hash.getD (ElfHash.hash info.name)
      let found ← table.elfLookup hashtab info hash
      return (found, { pre with hash := some hash })
  | .custom hashtab => do
      let hash := pre.custom.getD (CustomHasher.hash info.name)
      let found ← table.customLookup hashtab info hash
      return (found, { pre with custom := some hash })

def lookupFilter (table : SymbolTable w) (info : SymbolInfo) (pre : PreCompute w) :
    Except Halt (Option (SymRef w) × PreCompute w) := do
  let (found, pre) ← table.lookup info pre
  return (found.filter fun ref => ref.sym.isUsable, pre)

/-- `SymbolTable::lookup_by_name`. -/
def lookupByName (table : SymbolTable w) (name : Name) : Except Halt (Option (SymRef w)) := do
  let info ← SymbolInfo.fromStr name none
  let (found, _) ← table.lookup info (info.precompute w)
  return found

end SymbolTable

/-- The symbol table of a small dylib: every symbol on one SysV chain. -/
def oneBucket (symtab : List (ElfSymbol w)) (strtab : List UInt8) (version : Option ELFVersion) :
    SymbolTable w where
  hashtab := .elf
    { nbucket := 1
      nchain := .ofNat symtab.length
      buckets := [if 1 < symtab.length then 1 else 0]
      chains := (List.range symtab.length).map fun i =>
        if i = 0 ∨ i + 1 = symtab.length then 0 else .ofNat (i + 1) }
  symtab
  strtab
  version
  custom_unversioned := nofun

end ElfLoader
