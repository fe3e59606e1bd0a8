import ElfLoader.Image.Object
import ElfLoader.Relocation.StaticDeps
import ElfLoader.Relocation.StaticReach
import ElfLoader.Segment.ByteExact

/-! # Objects behind the generic entry point (`Relocatable for RawElf`, `src/image/mod.rs`)

`RawElf` hands its seven arguments on to the three kinds of files. The scope of
an object holds libraries without user data, which is another type, so the arm
of objects passes the empty scope.
-/

namespace ElfLoader

open Exec X86_64Relocator

variable {K O D P Q : Type}

/-- What `Loader::load` returns, ready to be relocated. -/
inductive RawElf.Ready [CustomHasher] (proc : Process 64 K) where
  | dylib (image : DynamicImage proc.arch)
  | exec (image : DynamicImage proc.arch)
  | staticExec (core : ElfCore 64)
  | object (object : RawObject K)

/-- How a relocation of each kind ends. -/
inductive RawElf.Relocated [CustomHasher] (K P Q : Type) where
  | dynamic (r : EStateM.Result Halt (RelocState 64 K P Q) (LoadedCore 64))
  | static (core : ElfCore 64)
  | object (r : EStateM.Result Halt (StaticState K) (LoadedCore 64))

section Relocate

variable [CustomHasher]
variable (proc : Process 64 K) (helper : RelocHelper 64 P Q)

/-- `Relocatable for RawObject`: the handlers are not used. -/
def RawObject.relocate (object : RawObject K) (os : OsState 64 K) :
    EStateM.Result Halt (StaticState K) (LoadedCore 64) :=
  object.run proc.ifunc helper.scope helper.preFind helper.postFind os

/-- `Relocatable for RawElf`. -/
def RawElf.relocate (lazy : Option Bool) (lazyScope : Option (SymbolLookup 64))
    (os : OsState 64 K) (pre : P) (post : Q) : RawElf.Ready proc → RawElf.Relocated K P Q
  | .dylib image => .dynamic (image.run proc helper lazy lazyScope os pre post)
  | .exec image => .dynamic (image.run proc helper lazy lazyScope os pre post)
  | .staticExec core => .static core
  | .object raw => .object (raw.relocate proc { helper with scope := [] } os)

/-- The symbol resolves, or fails to, with the scope as without. -/
def SameLookup (object : RawObject K) (rel : ElfRelType 64) : Prop :=
  (findSymbolAddr proc.ifunc helper.preFind helper.postFind object.core helper.scope
      rel.rSymbol).map (Option.map Prod.fst) =
    (findSymbolAddr proc.ifunc helper.preFind helper.postFind object.core [] rel.rSymbol).map
      (Option.map Prod.fst)

variable {proc helper} {object : RawObject K} {rel : ElfRelType 64}

theorem findSymbol_of_same (h : SameLookup proc helper object rel) :
    (findSymbol proc.ifunc object.core helper.scope helper.preFind helper.postFind rel :
        Static K (BitVec 64)) =
      findSymbol proc.ifunc object.core [] helper.preFind helper.postFind rel := by
  unfold SameLookup at h
  unfold findSymbol
  cases hscope : findSymbolAddr proc.ifunc helper.preFind helper.postFind object.core
      helper.scope rel.rSymbol with
  | error e =>
      cases hempty : findSymbolAddr proc.ifunc helper.preFind helper.postFind object.core []
          rel.rSymbol with
      | error e' =>
          rw [hscope, hempty] at h
          cases h
          rfl
      | ok found' =>
          rw [hscope, hempty] at h
          cases h
  | ok found =>
      cases hempty : findSymbolAddr proc.ifunc helper.preFind helper.postFind object.core []
          rel.rSymbol with
      | error e' =>
          rw [hscope, hempty] at h
          cases h
      | ok found' =>
          rw [hscope, hempty] at h
          have hsame := Except.ok.inj h
          cases found with
          | none =>
              cases found' with
              | none => rfl
              | some found' => cases hsame
          | some found =>
              cases found' with
              | none => cases hsame
              | some found' =>
                  obtain ⟨sym, i⟩ := found
                  obtain ⟨sym', i'⟩ := found'
                  cases hsame
                  rfl

/-- An entry is relocated alike when its symbol resolves alike. -/
theorem relocate_of_same (h : rel.rType ∈ knownTypes → SameLookup proc helper object rel) :
    (X86_64Relocator.relocate proc.ifunc object.core helper.scope helper.preFind helper.postFind
        rel : Static K Unit) =
      X86_64Relocator.relocate proc.ifunc object.core [] helper.preFind helper.postFind rel := by
  by_cases hty : rel.rType ∈ knownTypes
  · unfold X86_64Relocator.relocate
    rw [findSymbol_of_same (h hty)]
  · funext s
    rw [relocate_of_unknown hty, relocate_of_unknown hty]

variable (proc helper object) in
/-- Every entry that the direct relocation comes to and that looks its symbol up
resolves it with the scope as without. -/
def ScopeUnused (s : StaticState K) : Prop :=
  ∀ before rel after s₁, object.relocation.flatten = before ++ rel :: after →
    before.forM (X86_64Relocator.relocate proc.ifunc object.core helper.scope helper.preFind
      helper.postFind) s = .ok () s₁ →
    rel.rType ∈ knownTypes → SameLookup proc helper object rel

theorem run_of_scopeUnused (object : RawObject K) (os : OsState 64 K)
    (h : ScopeUnused proc helper object
      { os, pltgot := .new object.gotBase object.pltBase, trace := [] }) :
    object.run proc.ifunc [] helper.preFind helper.postFind os =
      object.run proc.ifunc helper.scope helper.preFind helper.postFind os := by
  have hloop := forM_congr_reached fun before rel after s₁ hsplit hbefore =>
    congrFun (relocate_of_same (h before rel after s₁ hsplit hbefore)) s₁
  rw [← forM_flatten, ← forM_flatten] at hloop
  unfold RawObject.run RawObject.relocateImpl
  generalize ({ os, pltgot := .new object.gotBase object.pltBase, trace := [] } :
    StaticState K) = s at hloop ⊢
  cases hdirect : object.relocation.forM (fun reloc => reloc.forM
      (X86_64Relocator.relocate proc.ifunc object.core helper.scope helper.preFind
        helper.postFind)) s with
  | ok u s₁ =>
      rw [hdirect] at hloop
      rw [bind_of_ok hdirect, bind_of_ok hloop.symm]
  | error e s₁ =>
      rw [hdirect] at hloop
      rw [bind_of_error hdirect, bind_of_error hloop.symm]

/-- A relocation that returned has found the symbol of every entry. -/
theorem run_ok_found {scope : List (LoadedCore 64)} {os : OsState 64 K} {loaded : LoadedCore 64}
    {s' : StaticState K}
    (h : object.run proc.ifunc scope helper.preFind helper.postFind os = .ok loaded s')
    (hrel : rel ∈ object.relocation.flatten) :
    ∃ addr, symbolAddr proc.ifunc object.core scope helper.preFind helper.postFind rel.rSymbol =
      some addr := by
  unfold RawObject.run RawObject.relocateImpl at h
  obtain ⟨_, s₁, hloop, -⟩ := bind_ok_iff.mp h
  rw [forM_flatten] at hloop
  obtain ⟨before, after, hsplit⟩ := List.append_of_mem hrel
  rw [hsplit, forM_append_apply] at hloop
  obtain ⟨_, s₂, -, hrest⟩ := bind_ok_iff.mp hloop
  obtain ⟨s₃, hstep, -⟩ := forM_cons_ok_iff.mp hrest
  cases hsym : symbolAddr proc.ifunc object.core scope helper.preFind helper.postFind
      rel.rSymbol with
  | some addr => exact ⟨addr, rfl⟩
  | none =>
      obtain ⟨e, he⟩ := relocate_of_none (s := s₂) hsym
      rw [he] at hstep
      cases hstep

end Relocate

/-! ## From the file -/

section Load

variable [CustomHasher]

/-- What an object is made of besides its sections. -/
structure ObjectParams (K : Type) where
  table : TableBuilder
  name : Name
  id : Nat
  /-- `SegmentBuilder::mprotect` of the sections. -/
  mprotect : List (ElfSegment 64) → EStateM Halt (OsState 64 K) Unit

/-- The end of `load_object_impl`. -/
def LoadedSections.toObject (params : ObjectParams K) (loaded : LoadedSections 64) :
    Load 64 K O (RawObject K) := do
  let s ← get
  let builder ← Exec.lift (ObjectBuilder.new params.table s.os.mem params.name loaded
    (params.mprotect loaded.segments))
  return builder.build params.id

variable (L : Loader 64 K D) (R : ElfReader 64 O) (params : ObjectParams K)

/-- `Loader::load_object`. -/
def Loader.loadRawObject : Load 64 K O (RawObject K) := do
  let loaded ← L.loadObject R
  loaded.toObject params

/-- `Loader::load`, for a file that is an object. -/
def Loader.loadRawElf : Load 64 K O (Option (RawObject K)) := do
  match ← L.load R params.name with
  | .object loaded => return some (← loaded.toObject params)
  | _ => return none

variable {L R params} {s s₁ : LoadState 64 K O} {ehdr : Ehdr 64}

/-- `load` reads the header and then does what `load_object` does. -/
theorem load_object_eq (hehdr : L.readEhdr R s = .ok ehdr s₁) (hty : ehdr.eType = etRel) :
    L.loadRawElf R params s = (L.loadRawObject R params >>= fun object => pure (some object)) s₁ := by
  have hload : L.load R params.name s =
      (L.loadObject R >>= fun loaded => pure (.object loaded)) s₁ := by
    unfold Loader.load
    rw [bind_of_ok hehdr, if_pos hty]
  unfold Loader.loadRawElf Loader.loadRawObject
  cases hobject : L.loadObject R s₁ with
  | error e s₂ =>
      rw [bind_of_error hobject] at hload
      rw [bind_of_error hload, bind_of_error (bind_of_error hobject)]
  | ok loaded s₂ =>
      rw [bind_of_ok hobject] at hload
      rw [bind_of_ok hload]
      cases hparts : (loaded.toObject params : Load 64 K O (RawObject K)) s₂ with
      | error e s₃ =>
          have hdirect := (bind_of_ok (f := fun loaded => loaded.toObject params) hobject).trans
            hparts
          rw [bind_of_error hdirect]
          exact bind_of_error hparts
      | ok object s₃ =>
          have hdirect := (bind_of_ok (f := fun loaded => loaded.toObject params) hobject).trans
            hparts
          rw [bind_of_ok hdirect]
          exact bind_of_ok hparts

end Load

section Sample

open ByteMemory

attribute [local instance] constantHasher

/-- A section header as it stands in a file. -/
def shdrBytes (shdr : ElfShdr 64) : List UInt8 :=
  leBytes shdr.shName.toBitVec ++ leBytes shdr.shType.toBitVec ++ leBytes shdr.shFlags ++
    leBytes shdr.shAddr ++ leBytes shdr.shOffset ++ leBytes shdr.shSize ++
    leBytes shdr.shLink.toBitVec ++ leBytes shdr.shInfo.toBitVec ++ leBytes shdr.shAddralign ++
    leBytes shdr.shEntsize

/-- Data, symbols, names and relocations. -/
def pointerShdrs : List (ElfShdr 64) :=
  [default,
    { (default : ElfShdr 64) with
      shType := 1, shFlags := 3, shOffset := 64, shSize := 8, shAddralign := 8 },
    { (default : ElfShdr 64) with
      shType := shtSymtab, shOffset := 72, shSize := 48, shLink := 3, shAddralign := 8,
      shEntsize := 24 },
    { (default : ElfShdr 64) with shType := 3, shOffset := 120, shSize := 3, shAddralign := 1 },
    { (default : ElfShdr 64) with
      shType := shtRela, shOffset := 128, shSize := 24, shLink := 2, shInfo := 1,
      shAddralign := 8, shEntsize := 24 }]

/-- An object whose data is a pointer to the undefined symbol `f`. -/
def pointerFile : List UInt8 :=
  [0x7f, 0x45, 0x4c, 0x46, 2, 1, 1] ++ List.replicate 9 0 ++ leBytes (1 : BitVec 16) ++
    leBytes (62 : BitVec 16) ++ leBytes (1 : BitVec 32) ++ List.replicate 16 0 ++
    leBytes (152 : BitVec 64) ++ List.replicate 4 0 ++ leBytes (64 : BitVec 16) ++
    List.replicate 4 0 ++ leBytes (64 : BitVec 16) ++ leBytes (5 : BitVec 16) ++
    List.replicate 2 0 ++ List.replicate 8 0 ++
    -- the null symbol and `f`
    List.replicate 24 0 ++ [1, 0, 0, 0, 0x10, 0, 0, 0] ++ List.replicate 16 0 ++
    [0, 102, 0] ++ List.replicate 5 0 ++
    -- `R_X86_64_64` for symbol 1
    List.replicate 8 0 ++ leBytes (0x100000001 : BitVec 64) ++ List.replicate 8 0 ++
    pointerShdrs.flatMap shdrBytes

def pointerLoader : Loader 64 Unit Unit where
  arch := .x86_64
  emArch := 62
  staticReloc := X86_64Relocator.staticReloc
  mmap := unixMmap pointerFile 0x10000
  hook := fun _ _ _ _ => .ok ()
  userData := ()

def pointerParams : ObjectParams Unit where
  table := .plain
  name := [111]
  id := 1
  mprotect := fun _ => pure ()

def emptyProcess : LoadState 64 Unit Unit := ⟨emptyMemory, (), []⟩

theorem pointerFile_header : ∃ ehdr,
    pointerLoader.readEhdr (bytesReader pointerFile none) emptyProcess = .ok ehdr emptyProcess ∧
      ehdr.eType = etRel := by
  have hread : (match ElfBuf.prepareEhdr 62 (bytesReader pointerFile none : ElfReader 64 Unit)
      () with
    | .ok ehdr _ => decide (ehdr.eType = etRel)
    | .error _ _ => false) = true := by decide +kernel
  cases hehdr : ElfBuf.prepareEhdr 62 (bytesReader pointerFile none : ElfReader 64 Unit) () with
  | error e o =>
      rw [hehdr] at hread
      cases hread
  | ok ehdr o =>
      rw [hehdr] at hread
      exact ⟨ehdr, Load.onObject_ok_iff.mpr ⟨o, hehdr, rfl⟩, of_decide_eq_true hread⟩

/-- The run ended in `Err`. -/
def isErr {σ α : Type} : EStateM.Result Halt σ α → Bool
  | .error (.err _) _ => true
  | _ => false

end Sample

end ElfLoader
