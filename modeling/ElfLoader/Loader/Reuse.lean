import ElfLoader.Image.EntryPoint
import ElfLoader.Loader.Readers

/-! # One loader, many files (`Loader` of `src/loader.rs`, with its buffer)

The entry points again, on the state that holds the buffer. What a caller sees of them
is what the entry points show that read every header into a buffer of its own.
-/

namespace ElfLoader

open Exec BufState

variable {w : Nat} {K O D α : Type}

/-- The methods of `Loader` that read a file. -/
inductive Method (w : Nat) where
  | readEhdr
  | readPhdr (ehdr : Ehdr w)
  | load
  | loadDylib
  | loadExec
  | loadObject

/-- What they return. -/
inductive Outcome (w : Nat) (D : Type) where
  | ehdr (ehdr : Ehdr w)
  | phdrs (phdrs : List (ElfPhdr w))
  | elf (elf : RawElf w D)
  | dylib (image : UninitImage w D)
  | exec (image : RawExec w D)
  | object (parts : LoadedSections w)

namespace Loader

section Methods

variable (L : Loader w K D)

/-- A method, when every header is read into a buffer of its own. -/
def invoke (R : ElfReader w O) (name : Name) : Method w → Load w K O (Outcome w D)
  | .readEhdr => return .ehdr (← L.readEhdr R)
  | .readPhdr ehdr => return .phdrs (← readPhdr R ehdr)
  | .load => return .elf (← L.load R name)
  | .loadDylib => return .dylib (← L.loadDylib R name)
  | .loadExec => return .exec (← L.loadExec R name)
  | .loadObject => return .object (← L.loadObject R)

/-! ## The methods with the shared buffer -/

variable (R : BufReader w O) (name : Name)

def readEhdrIn : BufLoad w K O (Ehdr w) := ElfBuf.prepareEhdrIn L.emArch R

def readPhdrIn (ehdr : Ehdr w) : BufLoad w K O (List (ElfPhdr w)) := ElfBuf.preparePhdrsIn R ehdr

def loadStaticImplIn (ehdr : Ehdr w) (phdrs : List (ElfPhdr w)) :
    BufLoad w K O (StaticImage w D) :=
  BufLoad.lift (L.loadStaticImpl R.toReader name ehdr phdrs)

def loadDynamicImplIn (ehdr : Ehdr w) (phdrs : List (ElfPhdr w)) :
    BufLoad w K O (UninitImage w D) :=
  BufLoad.lift (L.loadDynamicImpl R.toReader name ehdr phdrs)

/-- `load_object_impl`. The headers in the buffer are laid out by `SectionSegments::new`
and rebased by `ObjectBuilder::new`; those of the two own sections are not among them. -/
def loadObjectImplIn (ehdr : Ehdr w) : BufLoad w K O (LoadedSections w) := do
  let shdrs ← BufLoad.unwrapResult (ElfBuf.prepareShdrsMutIn R ehdr)
  let created ← BufLoad.lift (Load.onObject (SectionSegments.new L.staticReloc R.toReader shdrs))
  let laidOut := created.2.dropLast.dropLast
  ElfBuf.storeShdrs laidOut
  let loaded ← BufLoad.lift (created.1.loadSegments L.mmap R.toReader)
  ElfBuf.storeShdrs (laidOut.map fun shdr => { shdr with shAddr := shdr.shAddr + loaded.1.base })
  return {
    shdrs := created.2
    space := loaded.1
    segments := loaded.2
    gotBase := created.1.gotBase
    pltBase := created.1.pltBase }

def loadDylibIn : BufLoad w K O (UninitImage w D) := do
  let ehdr ← L.readEhdrIn R
  if ehdr.isDylib then
    let phdrs ← readPhdrIn R ehdr
    L.loadDynamicImplIn R name ehdr phdrs
  else throw (.err (.parseEhdr "file type mismatch"))

def loadExecIn : BufLoad w K O (RawExec w D) := do
  let ehdr ← L.readEhdrIn R
  if ehdr.isExecutable then
    let phdrs ← readPhdrIn R ehdr
    if hasType ptDynamic phdrs then
      return .dynamic (← L.loadDynamicImplIn R name ehdr phdrs)
    else return .static (← L.loadStaticImplIn R name ehdr phdrs)
  else throw (.err (.parseEhdr "file type mismatch"))

def loadObjectIn : BufLoad w K O (LoadedSections w) := do
  let ehdr ← BufLoad.unwrapResult (L.readEhdrIn R)
  L.loadObjectImplIn R ehdr

def loadIn : BufLoad w K O (RawElf w D) := do
  let ehdr ← L.readEhdrIn R
  if ehdr.eType = etRel then return .object (← L.loadObjectIn R)
  else if ehdr.eType = etExec then return .exec (← L.loadExecIn R name)
  else if ehdr.eType = etDyn then
    let phdrs ← readPhdrIn R ehdr
    let isPie := hasType ptInterp phdrs || !hasType ptDynamic phdrs
    if isPie then return .exec (← L.loadExecIn R name)
    else return .dylib (← L.loadDylibIn R name)
  else return .exec (← L.loadExecIn R name)

def invokeIn : Method w → BufLoad w K O (Outcome w D)
  | .readEhdr => return .ehdr (← L.readEhdrIn R)
  | .readPhdr ehdr => return .phdrs (← readPhdrIn R ehdr)
  | .load => return .elf (← L.loadIn R name)
  | .loadDylib => return .dylib (← L.loadDylibIn R name)
  | .loadExec => return .exec (← L.loadExecIn R name)
  | .loadObject => return .object (← L.loadObjectIn R)

/-! ## What they show -/

theorem readEhdrIn_hides :
    Hides BufState.load Ready (L.readEhdrIn R : BufLoad w K O (Ehdr w)) (L.readEhdr R.toReader) :=
  ElfBuf.prepareEhdrIn_hides L.emArch R

theorem readPhdrIn_hides [WordSize w] (ehdr : Ehdr w) :
    Hides BufState.load Ready (readPhdrIn R ehdr : BufLoad w K O (List (ElfPhdr w)))
      (readPhdr R.toReader ehdr) :=
  ElfBuf.preparePhdrsIn_hides R ehdr

theorem loadObjectImplIn_hides (ehdr : Ehdr w) :
    Hides BufState.load Ready (L.loadObjectImplIn R ehdr : BufLoad w K O (LoadedSections w))
      (L.loadObjectImpl R.toReader ehdr) := by
  unfold loadObjectImplIn loadObjectImpl
  refine Hides.bind (BufLoad.unwrapResult_hides (ElfBuf.prepareShdrsMutIn_hides R ehdr)) ?_
  intro shdrs
  refine Hides.bind (BufLoad.lift_hides _) fun created => ElfBuf.storeShdrs_hides _ ?_
  refine Hides.bind (BufLoad.lift_hides _) fun loaded => ElfBuf.storeShdrs_hides _ ?_
  exact Hides.pure _

theorem loadObjectIn_hides :
    Hides BufState.load Ready (L.loadObjectIn R : BufLoad w K O (LoadedSections w))
      (L.loadObject R.toReader) :=
  Hides.bind (BufLoad.unwrapResult_hides (L.readEhdrIn_hides R)) (L.loadObjectImplIn_hides R)

variable [WordSize w]

theorem loadDylibIn_hides :
    Hides BufState.load Ready (L.loadDylibIn R name : BufLoad w K O (UninitImage w D))
      (L.loadDylib R.toReader name) := by
  refine Hides.bind (L.readEhdrIn_hides R) fun ehdr => Hides.ite ?_ (Hides.throw _)
  exact Hides.bind (readPhdrIn_hides R ehdr) fun phdrs => BufLoad.lift_hides _

theorem loadExecIn_hides :
    Hides BufState.load Ready (L.loadExecIn R name : BufLoad w K O (RawExec w D))
      (L.loadExec R.toReader name) := by
  refine Hides.bind (L.readEhdrIn_hides R) fun ehdr => Hides.ite ?_ (Hides.throw _)
  refine Hides.bind (readPhdrIn_hides R ehdr) fun phdrs => Hides.ite ?_ ?_
  · exact Hides.bind (BufLoad.lift_hides _) fun image => Hides.pure _
  · exact Hides.bind (BufLoad.lift_hides _) fun image => Hides.pure _

theorem loadIn_hides :
    Hides BufState.load Ready (L.loadIn R name : BufLoad w K O (RawElf w D))
      (L.load R.toReader name) := by
  have hexec : Hides BufState.load Ready
      (L.loadExecIn R name >>= fun image => pure (RawElf.exec image) : BufLoad w K O (RawElf w D))
      (L.loadExec R.toReader name >>= fun image => pure (RawElf.exec image)) :=
    Hides.bind (L.loadExecIn_hides R name) fun image => Hides.pure _
  refine Hides.bind (L.readEhdrIn_hides R) fun ehdr => Hides.ite ?_ (Hides.ite hexec ?_)
  · exact Hides.bind (L.loadObjectIn_hides R) fun parts => Hides.pure _
  · refine Hides.ite ?_ hexec
    refine Hides.bind (readPhdrIn_hides R ehdr) fun phdrs => Hides.ite hexec ?_
    exact Hides.bind (L.loadDylibIn_hides R name) fun image => Hides.pure _

/-- The methods refine those that have no buffer to share. -/
theorem invokeIn_hides (m : Method w) :
    Hides BufState.load Ready (L.invokeIn R name m : BufLoad w K O (Outcome w D))
      (L.invoke R.toReader name m) := by
  cases m with
  | readEhdr => exact Hides.bind (L.readEhdrIn_hides R) fun ehdr => Hides.pure _
  | readPhdr ehdr => exact Hides.bind (readPhdrIn_hides R ehdr) fun phdrs => Hides.pure _
  | load => exact Hides.bind (L.loadIn_hides R name) fun elf => Hides.pure _
  | loadDylib => exact Hides.bind (L.loadDylibIn_hides R name) fun image => Hides.pure _
  | loadExec => exact Hides.bind (L.loadExecIn_hides R name) fun image => Hides.pure _
  | loadObject => exact Hides.bind (L.loadObjectIn_hides R) fun parts => Hides.pure _

end Methods

end Loader

/-! ## A history of calls -/

/-- One call of a method: the file that it is handed, and the state of the process and
of the file in which it is made. -/
structure Call (w : Nat) (K : Type) where
  Object : Type
  reader : BufReader w Object
  name : Name
  start : LoadState w K Object
  method : Method w

/-- The call, on a loader whose buffer is `buf`. -/
def Call.run (L : Loader w K D) (c : Call w K) (buf : List UInt8) :
    EStateM.Result Halt (BufState w K c.Object) (Outcome w D) :=
  L.invokeIn c.reader c.name c.method { load := c.start, buf }

/-- The buffer of a loader after a history of calls. -/
def Loader.bufAfter (L : Loader w K D) (calls : List (Call w K)) : List UInt8 :=
  calls.foldl (fun buf c => (finalState (c.run L buf)).buf) (ElfBuf.new w)

theorem ElfBuf.new_ready [WordSize w] (load : LoadState w K O) :
    Ready { load, buf := ElfBuf.new w } := by
  unfold Ready ElfBuf.new
  rw [List.length_replicate]
  refine ⟨le_refl _, ?_⟩
  rcases WordSize.eq_32_or_64 (w := w) with rfl | rfl <;> decide

/-- Whatever was called, and however it ended. -/
theorem Loader.bufAfter_ready [WordSize w] (L : Loader w K D) (calls : List (Call w K))
    (load : LoadState w K O) : Ready { load, buf := L.bufAfter calls } := by
  unfold Loader.bufAfter
  induction calls using List.reverseRecOn with
  | nil => exact ElfBuf.new_ready load
  | append_singleton calls c ih =>
      rw [List.foldl_append]
      exact (L.invokeIn_hides c.reader c.name c.method).keeps { load := c.start, buf := _ } ih

/-- A call on a loader that has been used returns what it returns on a new one, and
leaves the process and the file alike. -/
theorem reused_loader_forgets [WordSize w] (L : Loader w K D) (earlier : List (Call w K))
    (next : Call w K) :
    mapState BufState.load (next.run L (L.bufAfter earlier)) =
      mapState BufState.load (next.run L (ElfBuf.new w)) :=
  (L.invokeIn_hides next.reader next.name next.method).agree (L.bufAfter_ready earlier next.start)
    (ElfBuf.new_ready next.start) rfl

/-- A buffer full of ones, read as a header and refused. -/
def refusedCall : Call 64 Unit where
  Object := Unit
  reader := ByteSlice.bufReader ⟨List.replicate 100 1, by decide⟩
  name := []
  start := emptyState
  method := .readEhdr

/-- An executable of one page. -/
def onePageCall : Call 64 Unit where
  Object := Unit
  reader := ElfBinary.bufReader ⟨fileOf etExec [onePage], by decide⟩
  name := []
  start := emptyState
  method := .loadExec

def onePageLoader : Loader 64 Unit Unit := loaderOn (fileOf etExec [onePage]) 0x10000

/-- The refused header is still in the buffer when the executable is loaded. -/
theorem one_page_after_refusal :
    onePageLoader.bufAfter [refusedCall] ≠ ElfBuf.new 64 ∧
      returned (onePageCall.run onePageLoader (ElfBuf.new 64)) = true ∧
      mapState BufState.load
          (onePageCall.run onePageLoader (onePageLoader.bufAfter [refusedCall])) =
        mapState BufState.load (onePageCall.run onePageLoader (ElfBuf.new 64)) :=
  ⟨by decide, by decide +kernel,
    reused_loader_forgets onePageLoader [refusedCall] onePageCall⟩

end ElfLoader
