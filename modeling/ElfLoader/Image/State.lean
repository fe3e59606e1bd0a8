import ElfLoader.Elf.InMemory
import ElfLoader.Image.Builder
import ElfLoader.Relocation.Finalisers

/-! # From an image to its tables (`State::init`, `src/image/common/dynamic.rs`)

The dynamic section is parsed when something of it is needed for the first time. Then
everything it points to is read from the memory of the module.
-/

namespace ElfLoader

open ByteMemory

variable {w : Nat} {D : Type}

/-- `*const ElfRelType`, read; `ElfRel` has no addend. -/
def ElfRelType.readFrom (arch : Arch w) (m : Bytes w) (ptr : BitVec w) : ElfRelType w where
  rOffset := readWord m ptr
  rInfo := readWord m (ptr + BitVec.ofNat w (w / 8))
  rAddend := if arch.inPlaceAddend then 0 else readWord m (ptr + BitVec.ofNat w (2 * (w / 8)))

def RelSlice.readFrom (arch : Arch w) (m : Bytes w) (slice : Slice w) : RelSlice w where
  ptr := slice.ptr
  rels := (List.range slice.count).map fun k =>
    .readFrom arch m (slice.ptr + BitVec.ofNat w (k * entrySize arch))

/-- The arguments of `DynamicRelocation::new`. -/
def ElfDynamic.relocTables (arch : Arch w) (m : Bytes w) (dynamic : ElfDynamic w) :
    RelocTables w where
  pltrel := dynamic.pltrel.map (.readFrom arch m)
  dynrel := dynamic.dynrel.map (.readFrom arch m)
  relr := fnArray m dynamic.relr
  relCount := dynamic.relCount.map BitVec.toNat

variable [CustomHasher]

/-- What `State::init` leaves. The arrays of functions are references into memory, which
is read when a handler is called. -/
structure LazyData (arch : Arch w) (D : Type) where
  image : DynamicImage arch
  initArrayFn : Option (Slice w)
  finiFn : Option (BitVec w)
  finiArrayFn : Option (Slice w)
  rpath : Option Name
  runpath : Option Name
  userData : D

/-- A string that may be missing. -/
def optionalStr (strtab : List UInt8) : Option (BitVec w) → Except Halt (Option Name)
  | none => .ok none
  | some off => (getStr strtab off.toNat).map some

namespace UninitImage

/-- The part of `State::init` behind `ElfDynamic::new`. `id` is the identity of the new
record of the module. -/
def ofDynamic (arch : Arch w) (m : Bytes w) (id : Nat) (image : UninitImage w D)
    (dynamic : ElfDynamic w) : Except Halt (LazyData arch D) := do
  let _ ← DynamicRelocation.new arch (dynamic.relocTables arch m)
  let symtab ← SymbolTable.parse m image.segments dynamic
  let neededLibs ← dynamic.neededLibs.mapM fun lib => getStr symtab.strtab lib.toNat
  let data ← DynamicData.init arch
    { core := { id, name := image.name, symtab, segments := image.segments }
      lazy := !dynamic.bindNow
      gotPlt := dynamic.gotPlt
      tables := dynamic.relocTables arch m
      relro := image.relro
      initFn := dynamic.initFn
      initArray := fnArray m dynamic.initArrayFn
      neededLibs }
  let rpath ← optionalStr symtab.strtab dynamic.rpathOff
  let runpath ← optionalStr symtab.strtab dynamic.runpathOff
  return {
    image := data
    initArrayFn := dynamic.initArrayFn
    finiFn := dynamic.finiFn
    finiArrayFn := dynamic.finiArrayFn
    rpath
    runpath
    userData := image.userData }

/-- `State::init`: the error of `ElfDynamic::new` is unwrapped. -/
def init (arch : Arch w) (m : Bytes w) (id : Nat) (image : UninitImage w D) :
    Except Halt (LazyData arch D) :=
  match ElfDynamic.new arch m image.segments image.dynamicPtr with
  | .ok dynamic => image.ofDynamic arch m id dynamic
  | .error (.err _) => .error (.panic "called `Result::unwrap()` on an `Err` value")
  | .error h => .error h

/-- The image of a module that needs nothing and has no search paths. -/
theorem init_ok {arch : Arch w} {m : Bytes w} (id : Nat) {image : UninitImage w D}
    {dynamic : ElfDynamic w} {reloc : DynamicRelocation w} {symtab : SymbolTable w}
    (hdynamic : ElfDynamic.new arch m image.segments image.dynamicPtr = .ok dynamic)
    (hreloc : DynamicRelocation.new arch (dynamic.relocTables arch m) = .ok reloc)
    (hsymtab : SymbolTable.parse m image.segments dynamic = .ok symtab)
    (hneeded : dynamic.neededLibs = []) (hrpath : dynamic.rpathOff = none)
    (hrunpath : dynamic.runpathOff = none) :
    ∃ data, image.init arch m id = .ok data ∧ data.image.relocation = reloc ∧
      data.image.toDynamicData =
        { core := { id, name := image.name, symtab, segments := image.segments }
          lazy := !dynamic.bindNow
          gotPlt := dynamic.gotPlt
          tables := dynamic.relocTables arch m
          relro := image.relro
          initFn := dynamic.initFn
          initArray := fnArray m dynamic.initArrayFn
          neededLibs := [] } := by
  have hinit : ∀ data : DynamicData w, data.tables = dynamic.relocTables arch m →
      ∃ dyn, data.init arch = .ok dyn ∧ dyn.relocation = reloc ∧ dyn.toDynamicData = data := by
    intro data htables
    unfold DynamicData.init
    split
    · rename_i relocation hnew
      rw [htables, hreloc] at hnew
      cases hnew
      exact ⟨_, rfl, rfl, rfl⟩
    · rename_i e hnew
      rw [htables, hreloc] at hnew
      cases hnew
  obtain ⟨dyn, hdyn, hrelocation, hdata⟩ := hinit
    { core := { id, name := image.name, symtab, segments := image.segments }
      lazy := !dynamic.bindNow
      gotPlt := dynamic.gotPlt
      tables := dynamic.relocTables arch m
      relro := image.relro
      initFn := dynamic.initFn
      initArray := fnArray m dynamic.initArrayFn
      neededLibs := [] } rfl
  refine ⟨{ image := dyn, initArrayFn := dynamic.initArrayFn, finiFn := dynamic.finiFn,
            finiArrayFn := dynamic.finiArrayFn, rpath := none, runpath := none,
            userData := image.userData }, ?_, hrelocation, hdata⟩
  unfold init
  rw [hdynamic]
  dsimp only
  unfold ofDynamic
  rw [hneeded, hrpath, hrunpath]
  refine Exec.except_bind_ok_iff.mpr ⟨reloc, hreloc, ?_⟩
  refine Exec.except_bind_ok_iff.mpr ⟨symtab, hsymtab, ?_⟩
  refine Exec.except_bind_ok_iff.mpr ⟨[], rfl, ?_⟩
  exact Exec.except_bind_ok_iff.mpr ⟨dyn, hdyn, rfl⟩

end UninitImage

end ElfLoader
