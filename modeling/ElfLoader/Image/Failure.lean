import ElfLoader.Image.EntryPoint

/-! # Failures that are detected and failures that are reported

A reader that says when it has failed, a header that does not pass validation,
a missing `PT_DYNAMIC` and a dynamic section without a hash table are all found
by the loader. Whether the caller sees an `Err` depends on what stands between
the place where the failure is found and the entry point: `?` passes it on,
`unwrap` and `expect` turn it into a panic, and one loop skips it.
-/

namespace ElfLoader

variable {w : Nat} {K O D α : Type}

/-! ## Calls -/

/-- The reader, with a note of whether it has ever returned `Err`. -/
def ElfReader.noting (R : ElfReader w O) : ElfReader w (O × Bool) where
  read := fun len offset o =>
    match R.read len offset o.1 with
    | .ok bytes o' => .ok bytes (o', o.2)
    | .error (.err e) o' => .error (.err e) (o', true)
    | .error h o' => .error h (o', o.2)
  asFd := fun o => R.asFd o.1

/-- The reader has returned `Err`. -/
def ReadFailed (s : LoadState w K (O × Bool)) : Prop := s.object.2 = true

/-- What follows a load: the rest of `relocate`, which no longer reads the file.
For an object this starts with `ObjectBuilder::new`. -/
structure AfterLoad (w : Nat) (K D α : Type) where
  dynamic : UninitImage w D → ElfDynamic w → EStateM Halt (OsState w K) α
  static : StaticImage w D → EStateM Halt (OsState w K) α
  object : LoadedSections w → EStateM Halt (OsState w K) α

/-- The kinds `load` decides between. -/
inductive Kind where
  | dylib
  | exec
  | object
deriving DecidableEq

/-- The four entry points. -/
inductive EntryPoint where
  | load
  | kind (k : Kind)
deriving DecidableEq

namespace Loader

variable (L : Loader w K D) (R : ElfReader w O) (name : Name) (after : AfterLoad w K D α)

/-- `relocate` of a dynamic image: its state is forced first (`State::init`). -/
def relocateDynamic (image : UninitImage w D) : Load w K O α := do
  let s ← get
  let dynamic ← unwrapResult
    (Exec.lift (ElfDynamic.new L.arch s.os.mem image.segments image.dynamicPtr))
  Load.onOs (after.dynamic image dynamic)

def relocate : RawElf w D → Load w K O α
  | .dylib image => L.relocateDynamic after image
  | .exec (.dynamic image) => L.relocateDynamic after image
  | .exec (.static image) => Load.onOs (after.static image)
  | .object parts => Load.onOs (after.object parts)

/-- `load_dylib`, `load_exec` and `load_object`. -/
def loadKind : Kind → Load w K O (RawElf w D)
  | .dylib => do return .dylib (← L.loadDylib R name)
  | .exec => do return .exec (← L.loadExec R name)
  | .object => do return .object (← L.loadObject R)

/-- How `load` chooses. -/
def dispatch : Load w K O Kind := do
  let ehdr ← L.readEhdr R
  if ehdr.eType = etRel then return .object
  else if ehdr.eType = etExec then return .exec
  else if ehdr.eType = etDyn then
    let phdrs ← readPhdr R ehdr
    if hasType ptInterp phdrs || !hasType ptDynamic phdrs then return .exec else return .dylib
  else return .exec

/-- An entry point followed by `relocate`. -/
def call : EntryPoint → Load w K O α
  | .load => L.load R name >>= L.relocate after
  | .kind k => L.loadKind R name k >>= L.relocate after

theorem call_kind (k : Kind) :
    L.call R name after (.kind k) = (L.loadKind R name k >>= L.relocate after) := rfl

theorem load_eq : L.load R name = (L.dispatch R >>= L.loadKind R name) := by
  funext s
  unfold load dispatch
  cases hehdr : L.readEhdr R s with
  | error e s₁ =>
      rw [Exec.bind_of_error hehdr, Exec.bind_of_error (Exec.bind_of_error hehdr)]
  | ok ehdr s₁ =>
      rw [Exec.bind_of_ok hehdr]
      change _ = EStateM.bind (L.readEhdr R >>= _) (L.loadKind R name) s
      unfold EStateM.bind
      rw [Exec.bind_of_ok hehdr]
      split
      · rfl
      · split
        · rfl
        · split
          · cases hphdrs : readPhdr R ehdr s₁ with
            | error e s₂ => rw [Exec.bind_of_error hphdrs, Exec.bind_of_error hphdrs]
            | ok phdrs s₂ =>
                rw [Exec.bind_of_ok hphdrs, Exec.bind_of_ok hphdrs]
                split
                · rfl
                · rfl
          · rfl

end Loader

/-! ## What `unwrap` does -/

theorem unwrapResult_of_ok {x : Load w K O α} {s s' : LoadState w K O} {a : α}
    (h : x s = .ok a s') : unwrapResult x s = .ok a s' := by
  simp only [unwrapResult, h]

theorem finalState_unwrapResult (x : Load w K O α) (s : LoadState w K O) :
    Exec.finalState (unwrapResult x s) = Exec.finalState (x s) := by
  unfold unwrapResult
  cases x s with
  | ok a s' => rfl
  | error h s' =>
      cases h with
      | err e => rfl
      | panic msg => rfl
      | fault => rfl
      | diverge => rfl

/-- An unwrapped error is never reported. -/
theorem unwrapResult_ne_err {x : Load w K O α} {s s' : LoadState w K O} {e : Error} :
    unwrapResult x s ≠ .error (.err e) s' := by
  unfold unwrapResult
  cases x s with
  | ok a s₁ => simp
  | error h s₁ =>
      cases h with
      | err e' => simp
      | panic msg => simp
      | fault => simp
      | diverge => simp

/-! ## Steps that pass an error of the reader on -/

/-- The call returned `Err`. -/
def IsErr (h : Halt) : Prop := ∃ e, h = .err e

/-- A failed read ends the computation with an `Err`. -/
abbrev PassesOn (x : Load w K (O × Bool) α) : Prop := Exec.Surfaces ReadFailed IsErr x

namespace PassesOn

open Exec

variable {M : Mmap w K} {R : ElfReader w O}

theorem onOs (x : EStateM Halt (OsState w K) α) :
    PassesOn (Load.onOs x : Load w K (O × Bool) α) := by
  apply Surfaces.of_frame
  intro s
  unfold Load.onOs
  cases x s.os with
  | ok a os => exact Iff.rfl
  | error e os => exact Iff.rfl

theorem record (c : MemCall w) : PassesOn (Load.record c : Load w K (O × Bool) Unit) :=
  Surfaces.of_frame fun _ => Iff.rfl

theorem modifyMem (f : ByteMemory.Bytes w → ByteMemory.Bytes w) :
    PassesOn (Load.modifyMem f : Load w K (O × Bool) Unit) :=
  Surfaces.of_frame fun _ => Iff.rfl

theorem read (len : Nat) (offset : BitVec w) :
    PassesOn (Load.onObject (R.noting.read len offset) : Load w K (O × Bool) (List UInt8)) := by
  have hrun : ∀ s : LoadState w K (O × Bool),
      (∃ h s', Load.onObject (R.noting.read len offset) s = .error h s' ∧ ReadFailed s' ∧ IsErr h) ∨
        (ReadFailed (finalState (Load.onObject (R.noting.read len offset) s)) ↔ ReadFailed s) := by
    intro s
    unfold Load.onObject ElfReader.noting
    simp only
    cases R.read len offset s.object.1 with
    | ok bytes o => exact .inr Iff.rfl
    | error h o =>
        cases h with
        | err e => exact .inl ⟨_, _, rfl, rfl, e, rfl⟩
        | panic msg => exact .inr Iff.rfl
        | fault => exact .inr Iff.rfl
        | diverge => exact .inr Iff.rfl
  constructor
  · intro s hs
    rcases hrun s with ⟨h, s', hread, hfailed, -⟩ | hframe
    · rw [hread]
      exact hfailed
    · exact hframe.mpr hs
  · intro s a s' hs hok
    rcases hrun s with ⟨h, s₁, hread, -, -⟩ | hframe
    · rw [hread] at hok
      cases hok
    · rw [hok] at hframe
      exact fun hF => hs (hframe.mp hF)
  · intro s e s' hs herr hF
    rcases hrun s with ⟨h, s₁, hread, -, hIs⟩ | hframe
    · rw [hread] at herr
      cases herr
      exact hIs
    · rw [herr] at hframe
      exact absurd (hframe.mp hF) hs

/-- The reader notes the `Err` it returns. -/
theorem failed_of_read {len : Nat} {offset : BitVec w} {o o' : O × Bool} {e : Error}
    (h : R.noting.read len offset o = .error (.err e) o') : o'.2 = true := by
  unfold ElfReader.noting at h
  simp only at h
  cases hread : R.read len offset o.1 with
  | ok bytes o₁ =>
      rw [hread] at h
      cases h
  | error halt o₁ =>
      rw [hread] at h
      cases halt with
      | err e' =>
          cases h
          rfl
      | panic msg => cases h
      | fault => cases h
      | diverge => cases h

/-- Reading a table: one read, then a computation on the bytes. -/
theorem readThen (len : Nat) (offset : BitVec w) (f : List UInt8 → Except Halt α) :
    PassesOn (Load.onObject (R.noting.read len offset >>= fun buf => Exec.lift (f buf)) :
      Load w K (O × Bool) α) := by
  rw [Load.onObject_bind]
  refine Surfaces.bind (read len offset) fun buf => ?_
  rw [Load.onObject_lift]
  exact Surfaces.lift _

theorem readEhdr (L : Loader w K D) :
    PassesOn (L.readEhdr R.noting : Load w K (O × Bool) (Ehdr w)) :=
  readThen _ _ _

theorem readPhdr (ehdr : Ehdr w) :
    PassesOn (Loader.readPhdr R.noting ehdr : Load w K (O × Bool) (List (ElfPhdr w))) :=
  readThen _ _ fun buf => .ok (records ElfPhdr.ofBytes (phdrSize w) buf _)

theorem prepareShdrsMut (ehdr : Ehdr w) :
    PassesOn (Load.onObject (ElfBuf.prepareShdrsMut R.noting ehdr) :
      Load w K (O × Bool) (List (ElfShdr w))) :=
  readThen _ _ fun buf => .ok (records ElfShdr.ofBytes (shdrSize w) buf _)

/-! Loading a segment, step by step. -/

theorem mmapSegment (seg : ElfSegment w) : PassesOn (seg.mmapSegment M R.noting) := by
  refine Surfaces.bind (Surfaces.lift _) fun addr => Surfaces.bind Surfaces.get fun s => ?_
  dsimp only
  split
  · exact Surfaces.bind (record _) fun _ => Surfaces.bind (onOs _) fun _ => Surfaces.pure _
  · exact Surfaces.bind (record _) fun _ => Surfaces.bind (onOs _) fun _ => Surfaces.pure _

theorem copyInfo (ptr : BitVec w) (info : FileMapInfo w) :
    PassesOn (ElfSegment.copyInfo R.noting ptr info : Load w K (O × Bool) Unit) :=
  Surfaces.bind (record _) fun _ => Surfaces.bind (read _ _) fun _ => modifyMem _

theorem copyData (seg : ElfSegment w) :
    PassesOn (seg.copyData R.noting : Load w K (O × Bool) Unit) := by
  unfold ElfSegment.copyData
  refine Surfaces.ite ?_ (Surfaces.pure ())
  exact Surfaces.bind (Surfaces.lift _) fun ptr => Surfaces.forM fun info _ => copyInfo ptr info

theorem fillZero (seg : ElfSegment w) : PassesOn (seg.fillZero M : Load w K (O × Bool) Unit) := by
  unfold ElfSegment.fillZero
  refine Surfaces.ite ?_ (Surfaces.pure ())
  refine Surfaces.bind (Surfaces.lift _) fun addr => Surfaces.bind (record _) fun _ => ?_
  refine Surfaces.bind (modifyMem _) fun _ => Surfaces.ite ?_ (Surfaces.pure ())
  exact Surfaces.bind (record _) fun _ => Surfaces.bind (onOs _) fun _ => Surfaces.pure ()

theorem mprotect (seg : ElfSegment w) : PassesOn (seg.mprotect M : Load w K (O × Bool) Unit) := by
  unfold ElfSegment.mprotect
  refine Surfaces.ite ?_ (Surfaces.pure ())
  refine Surfaces.bind (Surfaces.lift _) fun addr => Surfaces.bind (Surfaces.lift _) fun ptr => ?_
  exact Surfaces.bind (record _) fun _ => onOs _

theorem load (base : BitVec w) (seg : ElfSegment w) : PassesOn (seg.load M R.noting base) :=
  Surfaces.bind (Surfaces.lift _) fun _ => Surfaces.bind (mmapSegment _) fun seg =>
    Surfaces.bind (copyData seg) fun _ => Surfaces.bind (fillZero seg) fun _ => Surfaces.pure seg

theorem loadAll (base : BitVec w) (segs : List (ElfSegment w)) :
    PassesOn (ElfSegment.loadAll M R.noting base segs) := by
  induction segs with
  | nil => exact Surfaces.pure []
  | cons seg segs ih =>
      exact Surfaces.bind (load base seg) fun _ => Surfaces.bind ih fun _ => Surfaces.pure _

theorem loadSegments {createSpace : Load w K (O × Bool) (ElfSegments w)}
    {createSegments : Load w K (O × Bool) (List (ElfSegment w))} (hspace : PassesOn createSpace)
    (hsegs : PassesOn createSegments) :
    PassesOn (ElfLoader.loadSegments M R.noting createSpace createSegments) :=
  Surfaces.bind hspace fun _ => Surfaces.bind hsegs fun _ => Surfaces.bind (loadAll _ _) fun _ =>
    Surfaces.pure _

theorem loadProgram (L : Loader w K D) (ehdr : Ehdr w) (phdrs : List (ElfPhdr w)) :
    PassesOn (L.loadProgram R.noting ehdr phdrs) := by
  refine Surfaces.bind Surfaces.get fun s => Surfaces.bind (loadSegments ?_ (Surfaces.pure _)) ?_
  · exact Surfaces.bind (record _) fun _ => Surfaces.bind (onOs _) fun _ => Surfaces.pure _
  · intro loaded
    exact Surfaces.bind (Surfaces.forM fun seg _ => mprotect seg) fun _ => Surfaces.pure _

theorem loadDynamicImpl (L : Loader w K D) (name : Name) (ehdr : Ehdr w)
    (phdrs : List (ElfPhdr w)) : PassesOn (L.loadDynamicImpl R.noting name ehdr phdrs) :=
  Surfaces.bind (loadProgram L ehdr phdrs) fun _ => Surfaces.bind Surfaces.get fun _ =>
    Surfaces.lift _

theorem loadStaticImpl (L : Loader w K D) (name : Name) (ehdr : Ehdr w)
    (phdrs : List (ElfPhdr w)) : PassesOn (L.loadStaticImpl R.noting name ehdr phdrs) :=
  Surfaces.bind (loadProgram L ehdr phdrs) fun _ => Surfaces.lift _

theorem mismatch : PassesOn (throw (.err (.parseEhdr "file type mismatch")) :
    Load w K (O × Bool) α) :=
  Surfaces.throw _

theorem loadDylib (L : Loader w K D) (name : Name) : PassesOn (L.loadDylib R.noting name) := by
  refine Surfaces.bind (readEhdr L) fun ehdr => Surfaces.ite ?_ mismatch
  exact Surfaces.bind (readPhdr ehdr) fun phdrs => loadDynamicImpl L name ehdr phdrs

theorem loadExec (L : Loader w K D) (name : Name) : PassesOn (L.loadExec R.noting name) := by
  refine Surfaces.bind (readEhdr L) fun ehdr => Surfaces.ite ?_ mismatch
  refine Surfaces.bind (readPhdr ehdr) fun phdrs => Surfaces.ite ?_ ?_
  · exact Surfaces.bind (loadDynamicImpl L name ehdr phdrs) fun _ => Surfaces.pure _
  · exact Surfaces.bind (loadStaticImpl L name ehdr phdrs) fun _ => Surfaces.pure _

theorem dispatch (L : Loader w K D) : PassesOn (L.dispatch R.noting) := by
  refine Surfaces.bind (readEhdr L) fun ehdr => Surfaces.ite (Surfaces.pure _) ?_
  refine Surfaces.ite (Surfaces.pure _) (Surfaces.ite ?_ (Surfaces.pure _))
  exact Surfaces.bind (readPhdr ehdr) fun phdrs =>
    Surfaces.ite (Surfaces.pure _) (Surfaces.pure _)

theorem relocate (L : Loader w K D) (after : AfterLoad w K D α) (raw : RawElf w D) :
    PassesOn (L.relocate after raw : Load w K (O × Bool) α) := by
  have hdynamic : ∀ image, PassesOn (L.relocateDynamic after image : Load w K (O × Bool) α) := by
    intro image
    refine Surfaces.bind Surfaces.get fun s => Surfaces.bind ?_ fun _ => onOs _
    apply Surfaces.of_frame
    intro s
    rw [finalState_unwrapResult, finalState_lift]
  cases raw with
  | dylib image => exact hdynamic image
  | exec image =>
      cases image with
      | dynamic image => exact hdynamic image
      | static image => exact onOs _
  | object parts => exact onOs _

end PassesOn

/-! ## Detected and reported -/

def RawElf.dynamicImage : RawElf w D → Option (UninitImage w D)
  | .dylib image => some image
  | .exec (.dynamic image) => some image
  | .exec (.static _) => none
  | .object _ => none

namespace Loader

variable (L : Loader w K D) (R : ElfReader w O) (name : Name) (after : AfterLoad w K D α)

/-- The header that is read next fails validation. -/
def HeaderInvalid (s : LoadState w K (O × Bool)) : Prop :=
  ∃ buf o h, R.noting.read (ehdrSize w) 0 s.object = .ok buf o ∧
    (Ehdr.new L.emArch buf : Except Halt (Ehdr w)) = .error h

/-- A shared object whose headers can be read has no `PT_DYNAMIC`. -/
def NoDynamic (s : LoadState w K (O × Bool)) (ehdr : Ehdr w) (phdrs : List (ElfPhdr w))
    (s₂ : LoadState w K (O × Bool)) : Prop :=
  ∃ s₁, L.readEhdr R.noting s = .ok ehdr s₁ ∧ ehdr.isDylib = true ∧
    readPhdr R.noting ehdr s₁ = .ok phdrs s₂ ∧ hasType ptDynamic phdrs = false

/-- The file is loaded, and `ElfDynamic::new` returns `Err`. -/
def DynamicInvalid (k : Kind) (s : LoadState w K (O × Bool)) : Prop :=
  ∃ raw image s₁ e, L.loadKind R.noting name k s = .ok raw s₁ ∧ raw.dynamicImage = some image ∧
    ElfDynamic.new L.arch s₁.os.mem image.segments image.dynamicPtr = .error (.err e)

def KindFails (k : Kind) (s : LoadState w K (O × Bool)) : Prop :=
  L.HeaderInvalid R s ∨ (k = .dylib ∧ ∃ ehdr phdrs s₂, L.NoDynamic R s ehdr phdrs s₂) ∨
    L.DynamicInvalid R name k s

/-- The failures that are found apart from those of the reader. -/
def Fails : EntryPoint → LoadState w K (O × Bool) → Prop
  | .kind k, s => L.KindFails R name k s
  | .load, s => L.HeaderInvalid R s ∨
      ∃ k s₁, L.dispatch R.noting s = .ok k s₁ ∧ L.KindFails R name k s₁

/-- Whatever failure is detected in the call, the call returns `Err`. -/
def Reported (entry : EntryPoint) (s : LoadState w K (O × Bool)) : Prop :=
  ReadFailed (Exec.finalState (L.call R.noting name after entry s)) ∨ L.Fails R name entry s →
    ∃ e s', L.call R.noting name after entry s = .error (.err e) s'

/-! ### When every failure is reported -/

/-- Loading the segments of the shared object, or a hook, returns `Err`. -/
def StopsBefore (ehdr : Ehdr w) (phdrs : List (ElfPhdr w)) (s : LoadState w K (O × Bool)) : Prop :=
  (∃ e s', L.loadProgram R.noting ehdr phdrs s = .error (.err e) s') ∨
    ∃ segs s' e, L.loadProgram R.noting ehdr phdrs s = .ok segs s' ∧
      List.foldlM ImageBuilder.parsePhdr (L.builder name ehdr segs) phdrs = .error (.err e)

/-- The file is loaded, and its dynamic section names no hash table. -/
def LoadsWithoutHash (k : Kind) (s : LoadState w K (O × Bool)) : Prop :=
  ∃ raw image s₁, L.loadKind R.noting name k s = .ok raw s₁ ∧ raw.dynamicImage = some image ∧
    ElfDynamic.LacksHash L.arch s₁.os.mem image.dynamicPtr

/-- What follows the layout of an object's sections. -/
def finishObject (parts : SectionSegments w × List (ElfShdr w)) : Load w K O α := do
  let loaded ← parts.1.loadSegments L.mmap R
  Load.onOs (after.object {
    shdrs := parts.2
    space := loaded.1
    segments := loaded.2
    gotBase := parts.1.gotBase
    pltBase := parts.1.pltBase })

/-- Both header tables of the object can be read, and no relocation section
fails to be read while the GOT is sized, unless the rest fails as well. -/
structure ObjectReads (s : LoadState w K (O × Bool)) : Prop where
  ehdr : ∀ e s', L.readEhdr R.noting s ≠ .error (.err e) s'
  shdrs : ∀ ehdr s₁, L.readEhdr R.noting s = .ok ehdr s₁ →
    ∀ e s', (Load.onObject (ElfBuf.prepareShdrsMut R.noting ehdr) :
      Load w K (O × Bool) _) s₁ ≠ .error (.err e) s'
  counted : ∀ ehdr s₁ shdrs s₂, L.readEhdr R.noting s = .ok ehdr s₁ →
    Load.onObject (ElfBuf.prepareShdrsMut R.noting ehdr) s₁ = .ok shdrs s₂ →
    ReadFailed (Exec.finalState
      (Load.onObject (SectionSegments.new L.staticReloc R.noting shdrs) s₂)) →
    ∃ parts s₃, Load.onObject (SectionSegments.new L.staticReloc R.noting shdrs) s₂ =
        .ok parts s₃ ∧
      ∃ e s', L.finishObject R.noting after parts s₃ = .error (.err e) s'

/-- The condition for a kind. -/
def KindSafe : Kind → LoadState w K (O × Bool) → Prop
  | .dylib, s => (∀ ehdr phdrs s₂, L.NoDynamic R s ehdr phdrs s₂ →
      L.StopsBefore R name ehdr phdrs s₂) ∧ ¬ L.LoadsWithoutHash R name .dylib s
  | .exec, s => ¬ L.LoadsWithoutHash R name .exec s
  | .object, s => L.ObjectReads R after s

/-- The condition for an entry point: `load` hands over to the kind it finds. -/
def Safe : EntryPoint → LoadState w K (O × Bool) → Prop
  | .kind k, s => L.KindSafe R name after k s
  | .load, s => ∀ k s₁, L.dispatch R.noting s = .ok k s₁ → L.KindSafe R name after k s₁

section Steps

variable {L R name after} {s s' : LoadState w K (O × Bool)}

theorem ehdr_new_error {emArch : UInt16} {buf : List UInt8} {h : Halt}
    (herr : (Ehdr.new emArch buf : Except Halt (Ehdr w)) = .error h) : IsErr h := by
  unfold Ehdr.new Ehdr.vaildate at herr
  simp only at herr
  repeat' split at herr
  all_goals first
    | (cases herr; exact ⟨_, rfl⟩)
    | cases herr

/-- Reading the header, in the three cases of the read and the check. -/
theorem readEhdr_of_read {buf : List UInt8} {o : O × Bool}
    (hread : R.noting.read (ehdrSize w) 0 s.object = .ok buf o) :
    L.readEhdr R.noting s = Exec.lift (Ehdr.new L.emArch buf) { s with object := o } := by
  unfold readEhdr ElfBuf.prepareEhdr
  rw [Load.onObject_bind, Exec.bind_of_ok (Load.onObject_ok_iff.mpr ⟨o, hread, rfl⟩),
    Load.onObject_lift]

theorem readEhdr_of_invalid (h : L.HeaderInvalid R s) :
    ∃ e s', L.readEhdr R.noting s = .error (.err e) s' := by
  obtain ⟨buf, o, halt, hread, hnew⟩ := h
  obtain ⟨e, rfl⟩ := ehdr_new_error hnew
  rw [readEhdr_of_read hread, hnew]
  exact ⟨e, _, rfl⟩

/-- A header that is not read is one that the reader refuses, or an invalid one. -/
theorem failed_of_readEhdr {e : Error}
    (h : L.readEhdr R.noting s = .error (.err e) s') : ReadFailed s' ∨ L.HeaderInvalid R s := by
  cases hread : R.noting.read (ehdrSize w) 0 s.object with
  | ok buf o =>
      rw [readEhdr_of_read hread] at h
      cases hnew : (Ehdr.new L.emArch buf : Except Halt (Ehdr w)) with
      | ok ehdr =>
          rw [hnew] at h
          cases h
      | error halt => exact .inr ⟨buf, o, halt, hread, hnew⟩
  | error halt o =>
      left
      have hfirst : (Load.onObject (R.noting.read (ehdrSize w) 0) : Load w K (O × Bool) _) s =
          .error halt { s with object := o } := by
        unfold Load.onObject
        rw [hread]
      unfold readEhdr ElfBuf.prepareEhdr at h
      rw [Load.onObject_bind, Exec.bind_of_error hfirst] at h
      cases h
      exact PassesOn.failed_of_read hread

theorem failed_of_prepareShdrs {ehdr : Ehdr w} {e : Error}
    (h : (Load.onObject (ElfBuf.prepareShdrsMut R.noting ehdr) : Load w K (O × Bool) _) s =
      .error (.err e) s') : ReadFailed s' := by
  unfold ElfBuf.prepareShdrsMut at h
  rw [Load.onObject_bind] at h
  cases hread : R.noting.read (ehdr.shdrRange.2 - ehdr.shdrRange.1).toNat ehdr.shdrRange.1
      s.object with
  | ok buf o =>
      rw [Exec.bind_of_ok (Load.onObject_ok_iff.mpr ⟨o, hread, rfl⟩)] at h
      cases h
  | error halt o =>
      have hfirst : (Load.onObject (R.noting.read (ehdr.shdrRange.2 - ehdr.shdrRange.1).toNat
          ehdr.shdrRange.1) : Load w K (O × Bool) _) s = .error halt { s with object := o } := by
        unfold Load.onObject
        rw [hread]
      rw [Exec.bind_of_error hfirst] at h
      cases h
      exact PassesOn.failed_of_read hread

theorem relocate_of_dynamicImage {raw : RawElf w D} {image : UninitImage w D}
    (h : raw.dynamicImage = some image) :
    (L.relocate after raw : Load w K O α) = L.relocateDynamic after image := by
  cases raw with
  | dylib i =>
      cases h
      rfl
  | exec i =>
      cases i with
      | dynamic i =>
          cases h
          rfl
      | static i => cases h
  | object parts => cases h

/-- An image whose dynamic section does not parse panics when it is relocated. -/
theorem relocateDynamic_ne_err {image : UninitImage w D} {t : LoadState w K O} {e : Error}
    (h : ElfDynamic.new L.arch t.os.mem image.segments image.dynamicPtr = .error (.err e))
    (e' : Error) (t' : LoadState w K O) : L.relocateDynamic after image t ≠ .error (.err e') t' := by
  unfold relocateDynamic
  rw [Exec.bind_of_ok (Exec.get_apply t), h]
  intro heq
  cases heq

theorem dynamicInvalid_iff {k : Kind} :
    L.DynamicInvalid R name k s ↔ L.LoadsWithoutHash R name k s := by
  constructor
  · rintro ⟨raw, image, s₁, e, hload, himage, hnew⟩
    exact ⟨raw, image, s₁, hload, himage, ElfDynamic.new_err_iff.mp ⟨e, hnew⟩⟩
  · rintro ⟨raw, image, s₁, hload, himage, hlacks⟩
    obtain ⟨e, hnew⟩ := ElfDynamic.new_err_iff.mpr hlacks
    exact ⟨raw, image, s₁, e, hload, himage, hnew⟩

theorem not_reported_of_dynamicInvalid {k : Kind} (h : L.DynamicInvalid R name k s) :
    ¬ L.Reported R name after (.kind k) s := by
  intro hreported
  obtain ⟨e, s', hcall⟩ := hreported (.inr (.inr (.inr h)))
  obtain ⟨raw, image, s₁, e₁, hload, himage, hnew⟩ := h
  rw [call_kind, Exec.bind_of_ok hload, relocate_of_dynamicImage himage] at hcall
  exact relocateDynamic_ne_err hnew e s' hcall

/-! A shared object without `PT_DYNAMIC`. -/

theorem storePhdr_dynamicPtr {b b' : ImageBuilder w D} {phdr : ElfPhdr w}
    (htype : phdr.pType ≠ ptDynamic) (h : b.storePhdr phdr = .ok b') :
    b'.dynamicPtr = b.dynamicPtr := by
  unfold ImageBuilder.storePhdr at h
  rw [if_neg htype] at h
  split at h
  · cases h
    rfl
  · split at h
    · cases h
      rfl
    · split at h
      · obtain ⟨ptr, -, hret⟩ := Exec.except_bind_ok_iff.mp h
        cases hret
        rfl
      · cases h
        rfl

theorem parsePhdrs_dynamicPtr {phdrs : List (ElfPhdr w)} (hnone : hasType ptDynamic phdrs = false)
    {b b' : ImageBuilder w D} (h : List.foldlM ImageBuilder.parsePhdr b phdrs = .ok b') :
    b'.dynamicPtr = b.dynamicPtr := by
  induction phdrs generalizing b with
  | nil =>
      cases h
      rfl
  | cons phdr phdrs ih =>
      simp only [hasType, List.any_cons, Bool.or_eq_false_iff, decide_eq_false_iff_not] at hnone
      rw [List.foldlM_cons] at h
      obtain ⟨b₁, hphdr, hrest⟩ := Exec.except_bind_ok_iff.mp h
      rw [ih hnone.2 hrest]
      unfold ImageBuilder.parsePhdr at hphdr
      cases hhook : b.hook b.name phdr b.segments b.userData with
      | error e =>
          rw [hhook] at hphdr
          cases hphdr
      | ok userData =>
          rw [hhook] at hphdr
          exact storePhdr_dynamicPtr (b := { b with userData }) hnone.1 hphdr

/-- Without `PT_DYNAMIC` the load returns `Err` only from a step before the
dynamic section is asked for. -/
theorem loadDynamicImpl_err_iff {ehdr : Ehdr w} {phdrs : List (ElfPhdr w)}
    (hnone : hasType ptDynamic phdrs = false) :
    (∃ e s', L.loadDynamicImpl R.noting name ehdr phdrs s = .error (.err e) s') ↔
      L.StopsBefore R name ehdr phdrs s := by
  unfold loadDynamicImpl StopsBefore
  cases hprogram : L.loadProgram R.noting ehdr phdrs s with
  | error halt s₁ =>
      rw [Exec.bind_of_error hprogram]
      simp
  | ok segs s₁ =>
      rw [Exec.bind_of_ok hprogram, Exec.bind_of_ok (Exec.get_apply s₁)]
      unfold ImageBuilder.buildDynamic
      cases hparse : List.foldlM ImageBuilder.parsePhdr (L.builder name ehdr segs) phdrs with
      | error halt =>
          simp [bind, Except.bind, Exec.lift, hparse]
      | ok b =>
          have hptr : b.dynamicPtr = none := parsePhdrs_dynamicPtr hnone hparse
          simp [bind, Except.bind, hptr, Exec.lift, hparse]

/-- Without `PT_DYNAMIC` no image is built. -/
theorem loadDynamicImpl_ne_ok {ehdr : Ehdr w} {phdrs : List (ElfPhdr w)} {image : UninitImage w D}
    (hnone : hasType ptDynamic phdrs = false) :
    L.loadDynamicImpl R.noting name ehdr phdrs s ≠ .ok image s' := by
  intro h
  obtain ⟨segs, s₁, -, h⟩ := Exec.bind_ok_iff.mp h
  rw [Exec.bind_of_ok (Exec.get_apply s₁)] at h
  obtain ⟨hbuild, -⟩ := Exec.lift_ok_iff.mp h
  obtain ⟨b, hparse, hbuild⟩ := Exec.except_bind_ok_iff.mp hbuild
  have hptr : b.dynamicPtr = none := parsePhdrs_dynamicPtr hnone hparse
  simp only [hptr] at hbuild
  cases hbuild

theorem loadDylib_of_noDynamic {ehdr : Ehdr w} {phdrs : List (ElfPhdr w)}
    {s₂ : LoadState w K (O × Bool)} (h : L.NoDynamic R s ehdr phdrs s₂) :
    L.loadDylib R.noting name s = L.loadDynamicImpl R.noting name ehdr phdrs s₂ := by
  obtain ⟨s₁, hehdr, hdylib, hphdrs, -⟩ := h
  unfold loadDylib
  rw [Exec.bind_of_ok hehdr, if_pos hdylib, Exec.bind_of_ok hphdrs]

/-- An error of the load is the error of the call. -/
theorem call_of_error {k : Kind} {halt : Halt}
    (h : L.loadKind R.noting name k s = .error halt s') :
    L.call R.noting name after (.kind k) s = .error halt s' := by
  rw [call_kind, Exec.bind_of_error h]

theorem loadKind_dylib_error {halt : Halt} (h : L.loadDylib R.noting name s = .error halt s') :
    L.loadKind R.noting name .dylib s = .error halt s' :=
  Exec.bind_of_error h

/-- The two kinds that start with the header pass its errors on. -/
theorem loadKind_of_readEhdr {k : Kind} (hk : k ≠ .object) {halt : Halt}
    (h : L.readEhdr R.noting s = .error halt s') :
    L.loadKind R.noting name k s = .error halt s' := by
  cases k with
  | dylib => exact Exec.bind_of_error (Exec.bind_of_error h)
  | exec => exact Exec.bind_of_error (Exec.bind_of_error h)
  | object => exact absurd rfl hk

theorem passesOn_call {k : Kind} (hk : k ≠ .object) :
    PassesOn (L.call R.noting name after (.kind k)) := by
  refine Exec.Surfaces.bind ?_ fun raw => PassesOn.relocate L after raw
  cases k with
  | dylib => exact Exec.Surfaces.bind (PassesOn.loadDylib L name) fun _ => Exec.Surfaces.pure _
  | exec => exact Exec.Surfaces.bind (PassesOn.loadExec L name) fun _ => Exec.Surfaces.pure _
  | object => exact absurd rfl hk

/-- Images report everything but a missing dynamic section and a missing hash
table. -/
theorem image_reported_iff {k : Kind} (hk : k ≠ .object) (hs : ¬ ReadFailed s) :
    L.Reported R name after (.kind k) s ↔
      (k = .dylib → ∀ ehdr phdrs s₂, L.NoDynamic R s ehdr phdrs s₂ →
        L.StopsBefore R name ehdr phdrs s₂) ∧ ¬ L.LoadsWithoutHash R name k s := by
  constructor
  · intro hreported
    constructor
    · rintro rfl ehdr phdrs s₂ hnone
      have hload : L.loadDylib R.noting name s = L.loadDynamicImpl R.noting name ehdr phdrs s₂ :=
        loadDylib_of_noDynamic hnone
      obtain ⟨e, s', hcall⟩ := hreported (.inr (.inr (.inl ⟨rfl, ehdr, phdrs, s₂, hnone⟩)))
      obtain ⟨s₁, -, -, -, htype⟩ := hnone
      rw [← loadDynamicImpl_err_iff htype, ← hload]
      cases hdylib : L.loadDylib R.noting name s with
      | error halt t =>
          rw [call_of_error (loadKind_dylib_error hdylib)] at hcall
          cases hcall
          exact ⟨e, s', rfl⟩
      | ok image t =>
          rw [hload] at hdylib
          exact absurd hdylib (loadDynamicImpl_ne_ok htype)
    · intro hlacks
      exact not_reported_of_dynamicInvalid (dynamicInvalid_iff.mpr hlacks) hreported
  · rintro ⟨hdynamic, hhash⟩ hfail
    rcases hfail with hread | hheader | ⟨rfl, ehdr, phdrs, s₂, hnone⟩ | hinvalid
    · obtain ⟨halt, s', hcall, e, rfl⟩ := (passesOn_call hk).stops hs hread
      exact ⟨e, s', hcall⟩
    · obtain ⟨e, s', hehdr⟩ := readEhdr_of_invalid hheader
      exact ⟨e, s', call_of_error (loadKind_of_readEhdr hk hehdr)⟩
    · have hload : L.loadDylib R.noting name s = L.loadDynamicImpl R.noting name ehdr phdrs s₂ :=
        loadDylib_of_noDynamic hnone
      have hstops := hdynamic rfl ehdr phdrs s₂ hnone
      obtain ⟨s₁, -, -, -, htype⟩ := hnone
      obtain ⟨e, s', herr⟩ := (loadDynamicImpl_err_iff htype).mpr hstops
      rw [← hload] at herr
      exact ⟨e, s', call_of_error (loadKind_dylib_error herr)⟩
    · exact absurd (dynamicInvalid_iff.mp hinvalid) hhash

/-! Objects. -/

theorem countShdr_ne_err {S : StaticReloc} {sets : Finset Nat × Finset Nat} {shdr : ElfShdr w}
    {o o' : O} {e : Error} : PltGotSection.countShdr S R sets shdr o ≠ .error (.err e) o' := by
  unfold PltGotSection.countShdr
  split
  · simp
  · split
    · simp
    · cases R.read shdr.shSize.toNat shdr.shOffset o with
      | ok buf o₁ => simp
      | error halt o₁ =>
          cases halt with
          | err e' => simp
          | panic msg => simp
          | fault => simp
          | diverge => simp

/-- Sizing the GOT never returns `Err`: a section that cannot be read is skipped. -/
theorem sectionSegments_ne_err {S : StaticReloc} {shdrs : List (ElfShdr w)} {o o' : O} {e : Error} :
    SectionSegments.new S R shdrs o ≠ .error (.err e) o' := by
  have hfold : ∀ (shdrs : List (ElfShdr w)) (sets : Finset Nat × Finset Nat) (o : O),
      shdrs.foldlM (PltGotSection.countShdr S R) sets o ≠ .error (.err e) o' := by
    intro shdrs
    induction shdrs with
    | nil =>
        intro sets o h
        cases h
    | cons shdr shdrs ih =>
        intro sets o h
        rw [List.foldlM_cons] at h
        cases hcount : PltGotSection.countShdr S R sets shdr o with
        | ok sets' o₁ =>
            rw [Exec.bind_of_ok hcount] at h
            exact ih sets' o₁ h
        | error halt o₁ =>
            rw [Exec.bind_of_error hcount] at h
            cases h
            exact countShdr_ne_err hcount
  intro h
  unfold SectionSegments.new PltGotSection.countNeededEntries at h
  cases hcount : shdrs.foldlM (PltGotSection.countShdr S R) (∅, ∅) o with
  | ok sets o₁ =>
      rw [bind_assoc, Exec.bind_of_ok hcount] at h
      cases h
  | error halt o₁ =>
      rw [bind_assoc, Exec.bind_of_error hcount] at h
      cases h
      exact hfold shdrs _ _ hcount

theorem call_object : L.call R name after (.kind .object) =
    (unwrapResult (L.readEhdr R) >>= fun ehdr =>
      unwrapResult (Load.onObject (ElfBuf.prepareShdrsMut R ehdr)) >>= fun shdrs =>
        Load.onObject (SectionSegments.new L.staticReloc R shdrs) >>= L.finishObject R after) := by
  simp only [call, loadKind, loadObject, loadObjectImpl, bind_assoc, pure_bind, relocate]
  rfl

theorem passesOn_finishObject (parts : SectionSegments w × List (ElfShdr w)) :
    PassesOn (L.finishObject R.noting after parts) := by
  refine Exec.Surfaces.bind (PassesOn.loadSegments ?_ (Exec.Surfaces.pure _)) fun _ =>
    PassesOn.onOs _
  exact Exec.Surfaces.bind (PassesOn.record _) fun _ =>
    Exec.Surfaces.bind (PassesOn.onOs _) fun _ => Exec.Surfaces.pure _

/-- What an unwrapped step leaves when it did not return. -/
theorem unwrapResult_error {x : Load w K O α} {t t' : LoadState w K O} {halt : Halt}
    (h : x t = .error halt t') : ∃ halt', unwrapResult x t = .error halt' t' := by
  unfold unwrapResult
  rw [h]
  cases halt with
  | err e => exact ⟨_, rfl⟩
  | panic msg => exact ⟨_, rfl⟩
  | fault => exact ⟨_, rfl⟩
  | diverge => exact ⟨_, rfl⟩

/-- A call on an object goes through its header, its section headers and the
layout of its sections. -/
theorem call_object_of_ok {ehdr : Ehdr w} {shdrs : List (ElfShdr w)}
    {s₁ s₂ : LoadState w K (O × Bool)} (hehdr : L.readEhdr R.noting s = .ok ehdr s₁)
    (hshdrs : Load.onObject (ElfBuf.prepareShdrsMut R.noting ehdr) s₁ = .ok shdrs s₂) :
    L.call R.noting name after (.kind .object) s =
      (Load.onObject (SectionSegments.new L.staticReloc R.noting shdrs) >>=
        L.finishObject R.noting after) s₂ := by
  rw [call_object, Exec.bind_of_ok (unwrapResult_of_ok hehdr),
    Exec.bind_of_ok (unwrapResult_of_ok hshdrs)]

theorem object_reads_of_reported (h : L.Reported R name after (.kind .object) s) :
    L.ObjectReads R after s where
  ehdr := by
    intro e s' hehdr
    obtain ⟨halt, hunwrap⟩ := unwrapResult_error hehdr
    have hcall : L.call R.noting name after (.kind .object) s = .error halt s' := by
      rw [call_object, Exec.bind_of_error hunwrap]
    have hfail : ReadFailed (Exec.finalState (L.call R.noting name after (.kind .object) s)) ∨
        L.Fails R name (.kind .object) s := by
      rcases failed_of_readEhdr hehdr with hread | hheader
      · left
        rw [hcall]
        exact hread
      · exact .inr (.inl hheader)
    obtain ⟨e', t, herr⟩ := h hfail
    rw [hcall] at herr
    cases herr
    exact unwrapResult_ne_err hunwrap
  shdrs := by
    intro ehdr s₁ hehdr e s' hshdrs
    obtain ⟨halt, hunwrap⟩ := unwrapResult_error hshdrs
    have hcall : L.call R.noting name after (.kind .object) s = .error halt s' := by
      rw [call_object, Exec.bind_of_ok (unwrapResult_of_ok hehdr), Exec.bind_of_error hunwrap]
    have hread : ReadFailed (Exec.finalState (L.call R.noting name after (.kind .object) s)) := by
      rw [hcall]
      exact failed_of_prepareShdrs hshdrs
    obtain ⟨e', t, herr⟩ := h (.inl hread)
    rw [hcall] at herr
    cases herr
    exact unwrapResult_ne_err hunwrap
  counted := by
    intro ehdr s₁ shdrs s₂ hehdr hshdrs hread
    have hcall : L.call R.noting name after (.kind .object) s =
        (Load.onObject (SectionSegments.new L.staticReloc R.noting shdrs) >>=
          L.finishObject R.noting after) s₂ := call_object_of_ok hehdr hshdrs
    cases hnew : Load.onObject (SectionSegments.new L.staticReloc R.noting shdrs) s₂ with
    | ok parts s₃ =>
        rw [hnew] at hread
        rw [Exec.bind_of_ok hnew] at hcall
        have hfinal : ReadFailed (Exec.finalState (L.finishObject R.noting after parts s₃)) :=
          (passesOn_finishObject parts).kept s₃ hread
        rw [← hcall] at hfinal
        obtain ⟨e, s', herr⟩ := h (.inl hfinal)
        rw [hcall] at herr
        exact ⟨parts, s₃, rfl, e, s', herr⟩
    | error halt s₃ =>
        rw [hnew] at hread
        rw [Exec.bind_of_error hnew] at hcall
        have hfinal : ReadFailed
            (Exec.finalState (L.call R.noting name after (.kind .object) s)) := by
          rw [hcall]
          exact hread
        obtain ⟨e, s', herr⟩ := h (.inl hfinal)
        rw [hcall] at herr
        cases herr
        obtain ⟨o, hobject, -⟩ := Load.onObject_error_iff.mp hnew
        exact absurd hobject sectionSegments_ne_err

theorem reported_of_object_reads (hs : ¬ ReadFailed s) (h : L.ObjectReads R after s) :
    L.Reported R name after (.kind .object) s := by
  rintro (hread | hheader | ⟨hk, -⟩ | ⟨raw, image, s₁, e, hload, himage, -⟩)
  · cases hehdr : L.readEhdr R.noting s with
    | error halt s₁ =>
        exfalso
        obtain ⟨halt', hunwrap⟩ := unwrapResult_error hehdr
        rw [call_object, Exec.bind_of_error hunwrap] at hread
        obtain ⟨e, rfl⟩ := (PassesOn.readEhdr L).error hs hehdr hread
        exact h.ehdr e s₁ hehdr
    | ok ehdr s₁ =>
        have hs₁ := (PassesOn.readEhdr L).ok hs hehdr
        cases hshdrs : (Load.onObject (ElfBuf.prepareShdrsMut R.noting ehdr) :
            Load w K (O × Bool) _) s₁ with
        | error halt s₂ =>
            exfalso
            obtain ⟨halt', hunwrap⟩ := unwrapResult_error hshdrs
            rw [call_object, Exec.bind_of_ok (unwrapResult_of_ok hehdr),
              Exec.bind_of_error hunwrap] at hread
            obtain ⟨e, rfl⟩ := (PassesOn.prepareShdrsMut ehdr).error hs₁ hshdrs hread
            exact h.shdrs ehdr s₁ hehdr e s₂ hshdrs
        | ok shdrs s₂ =>
            rw [call_object_of_ok hehdr hshdrs] at hread ⊢
            by_cases hcount : ReadFailed (Exec.finalState
                (Load.onObject (SectionSegments.new L.staticReloc R.noting shdrs) s₂))
            · obtain ⟨parts, s₃, hnew, e, s', herr⟩ :=
                h.counted ehdr s₁ shdrs s₂ hehdr hshdrs hcount
              rw [Exec.bind_of_ok hnew]
              exact ⟨e, s', herr⟩
            · cases hnew : Load.onObject (SectionSegments.new L.staticReloc R.noting shdrs) s₂ with
              | error halt s₃ =>
                  rw [Exec.bind_of_error hnew] at hread
                  rw [hnew] at hcount
                  exact absurd hread hcount
              | ok parts s₃ =>
                  rw [Exec.bind_of_ok hnew] at hread ⊢
                  rw [hnew] at hcount
                  obtain ⟨halt, s', herr, e, rfl⟩ :=
                    (passesOn_finishObject parts).stops hcount hread
                  exact ⟨e, s', herr⟩
  · obtain ⟨e, s', hehdr⟩ := readEhdr_of_invalid hheader
    exact absurd hehdr (h.ehdr e s')
  · cases hk
  · -- an object has no dynamic section
    obtain ⟨parts, s₂, -, hret⟩ := Exec.bind_ok_iff.mp hload
    cases hret
    cases himage

/-- The condition for each kind is exact. -/
theorem kind_reported_iff {k : Kind} (hs : ¬ ReadFailed s) :
    L.Reported R name after (.kind k) s ↔ L.KindSafe R name after k s := by
  cases k with
  | dylib =>
      rw [image_reported_iff (by simp) hs]
      simp only [true_implies]
      exact Iff.rfl
  | exec =>
      rw [image_reported_iff (by simp) hs]
      simp only [reduceCtorEq, false_implies, true_and]
      exact Iff.rfl
  | object => exact ⟨object_reads_of_reported, reported_of_object_reads hs⟩

theorem call_load : L.call R name after .load =
    (L.dispatch R >>= fun k => L.call R name after (.kind k)) := by
  simp only [call, load_eq, bind_assoc]

end Steps

/-- Every detected failure reaches the caller as `Err` exactly when the file
keeps clear of the places where an error is unwrapped or skipped. -/
theorem failures_reported_iff (entry : EntryPoint) (os : OsState w K) (o : O)
    (calls : List (MemCall w)) :
    L.Reported R name after entry ⟨os, (o, false), calls⟩ ↔
      L.Safe R name after entry ⟨os, (o, false), calls⟩ := by
  have hs : ¬ ReadFailed (⟨os, (o, false), calls⟩ : LoadState w K (O × Bool)) := by
    simp [ReadFailed]
  generalize (⟨os, (o, false), calls⟩ : LoadState w K (O × Bool)) = s at hs
  cases entry with
  | kind k => exact kind_reported_iff hs
  | load =>
      constructor
      · intro hreported k s₁ hdispatch
        have hcall : L.call R.noting name after .load s =
            L.call R.noting name after (.kind k) s₁ := by
          rw [call_load, Exec.bind_of_ok hdispatch]
        refine (kind_reported_iff ((PassesOn.dispatch L).ok hs hdispatch)).mp fun hfail => ?_
        rw [← hcall] at hfail ⊢
        exact hreported (hfail.imp_right fun hkind => .inr ⟨k, s₁, hdispatch, hkind⟩)
      · intro hsafe hfail
        cases hdispatch : L.dispatch R.noting s with
        | error halt s' =>
            have hcall : L.call R.noting name after .load s = .error halt s' := by
              rw [call_load, Exec.bind_of_error hdispatch]
            rw [hcall] at hfail ⊢
            rcases hfail with hread | hheader | ⟨k, s₁, hok, -⟩
            · obtain ⟨e, rfl⟩ := (PassesOn.dispatch L).error hs hdispatch hread
              exact ⟨e, s', rfl⟩
            · obtain ⟨e, s₁, hehdr⟩ := readEhdr_of_invalid hheader
              have hsame : L.dispatch R.noting s = .error (.err e) s₁ := Exec.bind_of_error hehdr
              rw [hdispatch] at hsame
              cases hsame
              exact ⟨e, _, rfl⟩
            · rw [hdispatch] at hok
              cases hok
        | ok k s₁ =>
            have hcall : L.call R.noting name after .load s =
                L.call R.noting name after (.kind k) s₁ := by
              rw [call_load, Exec.bind_of_ok hdispatch]
            have hkind := (kind_reported_iff ((PassesOn.dispatch L).ok hs hdispatch)).mpr
              (hsafe k s₁ hdispatch)
            rw [hcall] at hfail ⊢
            rcases hfail with hread | hheader | ⟨k', s', hok, hfails⟩
            · exact hkind (.inl hread)
            · obtain ⟨e, s', hehdr⟩ := readEhdr_of_invalid hheader
              have hsame : L.dispatch R.noting s = .error (.err e) s' := Exec.bind_of_error hehdr
              rw [hdispatch] at hsame
              cases hsame
            · rw [hdispatch] at hok
              cases hok
              exact hkind (.inr hfails)

end Loader

/-! ## A reader that fails -/

def refusingReader : ElfReader 64 Unit where
  read := fun _ _ o => .error (.err (.io "read failed")) o
  asFd := fun _ => none

def nothingAfter : AfterLoad 64 Unit Unit Unit where
  dynamic := fun _ _ => pure ()
  static := fun _ => pure ()
  object := fun _ => pure ()

/-- `load_object` unwraps the error of the reader; `load` passes it on. -/
theorem load_object_panics_on_read_error :
    ¬ (loaderOn [] 0).Reported refusingReader [] nothingAfter (.kind .object)
        ⟨emptyState.os, ((), false), []⟩ ∧
      (loaderOn [] 0).Reported refusingReader [] nothingAfter .load
        ⟨emptyState.os, ((), false), []⟩ := by
  constructor
  · intro hreported
    obtain ⟨e, s', hcall⟩ := hreported (.inl rfl)
    cases hcall
  · intro _
    exact ⟨_, _, rfl⟩

end ElfLoader
