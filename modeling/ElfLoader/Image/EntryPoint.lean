import ElfLoader.Loader
import ElfLoader.Segment.ByteExact

/-! # The entry point of a loaded image

The bias of an image is what `mmap_reserve` decides; the entry point is computed
by two builders, one of which adds the bias and one of which does not.
-/

namespace ElfLoader

variable {w : Nat} {K O D : Type}

namespace ImageBuilder

/-- What the loop over the program headers leaves alone. -/
structure Frame (b b' : ImageBuilder w D) : Prop where
  hook : b'.hook = b.hook
  name : b'.name = b.name
  ehdr : b'.ehdr = b.ehdr
  segments : b'.segments = b.segments

theorem Frame.refl (b : ImageBuilder w D) : Frame b b := ⟨rfl, rfl, rfl, rfl⟩

theorem Frame.trans {b₁ b₂ b₃ : ImageBuilder w D} (h : Frame b₁ b₂) (h' : Frame b₂ b₃) :
    Frame b₁ b₃ :=
  ⟨h'.hook.trans h.hook, h'.name.trans h.name, h'.ehdr.trans h.ehdr,
    h'.segments.trans h.segments⟩

theorem storePhdr_frame {b b' : ImageBuilder w D} {phdr : ElfPhdr w}
    (h : b.storePhdr phdr = .ok b') : Frame b b' := by
  unfold storePhdr at h
  split at h
  · obtain ⟨ptr, -, hret⟩ := Exec.except_bind_ok_iff.mp h
    cases hret
    exact ⟨rfl, rfl, rfl, rfl⟩
  · split at h
    · cases h
      exact ⟨rfl, rfl, rfl, rfl⟩
    · split at h
      · cases h
        exact ⟨rfl, rfl, rfl, rfl⟩
      · split at h
        · obtain ⟨ptr, -, hret⟩ := Exec.except_bind_ok_iff.mp h
          cases hret
          exact ⟨rfl, rfl, rfl, rfl⟩
        · cases h
          exact Frame.refl b

theorem parsePhdr_frame {b b' : ImageBuilder w D} {phdr : ElfPhdr w}
    (h : b.parsePhdr phdr = .ok b') : Frame b b' := by
  unfold parsePhdr at h
  cases hhook : b.hook b.name phdr b.segments b.userData with
  | error e =>
      rw [hhook] at h
      cases h
  | ok userData =>
      rw [hhook] at h
      have hframe := storePhdr_frame h
      exact ⟨hframe.hook, hframe.name, hframe.ehdr, hframe.segments⟩

theorem parsePhdrs_frame {b b' : ImageBuilder w D} {phdrs : List (ElfPhdr w)}
    (h : List.foldlM parsePhdr b phdrs = .ok b') : Frame b b' := by
  induction phdrs generalizing b with
  | nil =>
      cases h
      exact Frame.refl _
  | cons phdr phdrs ih =>
      rw [List.foldlM_cons] at h
      obtain ⟨b₁, hphdr, hrest⟩ := Exec.except_bind_ok_iff.mp h
      exact (parsePhdr_frame hphdr).trans (ih hrest)

/-- A dynamic image of a shared object starts at the biased entry. -/
theorem buildDynamic_entry {b : ImageBuilder w D} {m : ByteMemory.Bytes w}
    {phdrs : List (ElfPhdr w)} {image : UninitImage w D} (h : b.buildDynamic m phdrs = .ok image) :
    image.segments = b.segments ∧
      image.entry = b.ehdr.eEntry + if b.ehdr.isDylib then b.segments.base else 0 := by
  obtain ⟨b', hparse, h⟩ := Exec.except_bind_ok_iff.mp h
  have hframe := parsePhdrs_frame hparse
  cases hptr : b'.dynamicPtr with
  | none =>
      simp only [hptr] at h
      cases h
  | some ptr =>
      simp only [hptr] at h
      obtain ⟨interp, -, hret⟩ := Exec.except_bind_ok_iff.mp h
      cases hret
      simp only [hframe.ehdr, hframe.segments, and_self]

theorem buildStatic_entry {b : ImageBuilder w D} {phdrs : List (ElfPhdr w)}
    {image : StaticImage w D} (h : b.buildStatic phdrs = .ok image) :
    image.segments = b.segments ∧ image.entry = b.ehdr.eEntry := by
  obtain ⟨b', hparse, hret⟩ := Exec.except_bind_ok_iff.mp h
  have hframe := parsePhdrs_frame hparse
  cases hret
  simp only [hframe.ehdr, hframe.segments, and_self]

end ImageBuilder

namespace Loader

variable {L : Loader w K D} {R : ElfReader w O} {name : Name} {ehdr : Ehdr w}
  {phdrs : List (ElfPhdr w)} {s s' s₁ s₂ : LoadState w K O}

/-- The lowest page that a header of the table touches. -/
def minPage (phdrs : List (ElfPhdr w)) : BitVec w := (parseSegments phdrs false).2.2

/-- The image lies where `mmap_reserve` has put it. -/
theorem loadProgram_base {segs : ElfSegments w} {p : BitVec w} {os : OsState w K}
    (hreserve : L.mmap.mmapReserve (parseSegments phdrs ehdr.isDylib).1
      (parseSegments phdrs ehdr.isDylib).2.1 (R.asFd s.object).isSome s.os = .ok p os)
    (h : L.loadProgram R ehdr phdrs s = .ok segs s') : segs.base = p - minPage phdrs := by
  unfold loadProgram at h
  rw [Exec.bind_of_ok (Exec.get_apply s)] at h
  obtain ⟨loaded, s₁, hload, h⟩ := Exec.bind_ok_iff.mp h
  obtain ⟨-, s₂, -, hret⟩ := Exec.bind_ok_iff.mp h
  cases hret
  obtain ⟨space, s₃, hspace, hload⟩ := Exec.bind_ok_iff.mp hload
  obtain ⟨created, s₄, -, hload⟩ := Exec.bind_ok_iff.mp hload
  obtain ⟨segments, s₅, -, hret⟩ := Exec.bind_ok_iff.mp hload
  cases hret
  obtain ⟨p', os', hos, rfl, -⟩ := ProgramSegments.createSpace_ok_iff.mp hspace
  rw [hreserve] at hos
  cases hos
  rfl

theorem base_add_eq_iff {base entry : BitVec w} : entry = base + entry ↔ base = 0 := by
  constructor
  · intro h
    have hcancel : 0#w + entry = base + entry := by
      rw [BitVec.zero_add]
      exact h
    exact (BitVec.add_left_inj entry).mp hcancel.symm
  · rintro rfl
    exact (BitVec.zero_add entry).symm

/-- The parts of a load as an executable that returned. -/
theorem loadExec_ok (hehdr : L.readEhdr R s = .ok ehdr s₁)
    (hphdrs : readPhdr R ehdr s₁ = .ok phdrs s₂) {exec : RawExec w D}
    (h : L.loadExec R name s = .ok exec s') :
    if hasType ptDynamic phdrs then
      ∃ image, exec = .dynamic image ∧ L.loadDynamicImpl R name ehdr phdrs s₂ = .ok image s'
    else ∃ image, exec = .static image ∧ L.loadStaticImpl R name ehdr phdrs s₂ = .ok image s' := by
  unfold loadExec at h
  rw [Exec.bind_of_ok hehdr] at h
  split at h
  · rw [Exec.bind_of_ok hphdrs] at h
    split
    · rename_i hdyn
      rw [if_pos hdyn] at h
      obtain ⟨image, s₃, hload, hret⟩ := Exec.bind_ok_iff.mp h
      cases hret
      exact ⟨image, rfl, hload⟩
    · rename_i hdyn
      rw [if_neg hdyn] at h
      obtain ⟨image, s₃, hload, hret⟩ := Exec.bind_ok_iff.mp h
      cases hret
      exact ⟨image, rfl, hload⟩
  · cases h

theorem loadDylib_ok (hehdr : L.readEhdr R s = .ok ehdr s₁)
    (hphdrs : readPhdr R ehdr s₁ = .ok phdrs s₂) {image : UninitImage w D}
    (h : L.loadDylib R name s = .ok image s') :
    ehdr.isDylib = true ∧ L.loadDynamicImpl R name ehdr phdrs s₂ = .ok image s' := by
  unfold loadDylib at h
  rw [Exec.bind_of_ok hehdr] at h
  split at h
  · rename_i hdylib
    rw [Exec.bind_of_ok hphdrs] at h
    exact ⟨hdylib, h⟩
  · cases h

section Entry

variable {p : BitVec w} {os : OsState w K}

theorem loadDynamicImpl_entry
    (hreserve : L.mmap.mmapReserve (parseSegments phdrs ehdr.isDylib).1
      (parseSegments phdrs ehdr.isDylib).2.1 (R.asFd s.object).isSome s.os = .ok p os)
    {image : UninitImage w D} (h : L.loadDynamicImpl R name ehdr phdrs s = .ok image s') :
    image.segments.base = p - minPage phdrs ∧
      image.entry = ehdr.eEntry + if ehdr.isDylib then image.segments.base else 0 := by
  obtain ⟨segs, s₁, hprogram, h⟩ := Exec.bind_ok_iff.mp h
  rw [Exec.bind_of_ok (Exec.get_apply s₁)] at h
  obtain ⟨hbuild, -⟩ := Exec.lift_ok_iff.mp h
  obtain ⟨hsegs, hentry⟩ := ImageBuilder.buildDynamic_entry hbuild
  rw [hsegs]
  exact ⟨loadProgram_base hreserve hprogram, hentry⟩

theorem loadStaticImpl_entry
    (hreserve : L.mmap.mmapReserve (parseSegments phdrs ehdr.isDylib).1
      (parseSegments phdrs ehdr.isDylib).2.1 (R.asFd s.object).isSome s.os = .ok p os)
    {image : StaticImage w D} (h : L.loadStaticImpl R name ehdr phdrs s = .ok image s') :
    image.segments.base = p - minPage phdrs ∧ image.entry = ehdr.eEntry := by
  obtain ⟨segs, s₁, hprogram, h⟩ := Exec.bind_ok_iff.mp h
  obtain ⟨hbuild, -⟩ := Exec.lift_ok_iff.mp h
  obtain ⟨hsegs, hentry⟩ := ImageBuilder.buildStatic_entry hbuild
  rw [hsegs]
  exact ⟨loadProgram_base hreserve hprogram, hentry⟩

theorem sub_minPage_eq_zero_iff : p - minPage phdrs = 0 ↔ p = minPage phdrs := by
  constructor
  · intro h
    have hback : p = p - minPage phdrs + minPage phdrs := by grind
    rw [hback, h]
    grind
  · rintro rfl
    exact BitVec.sub_self _

/-- A shared object starts at its biased entry. An executable does if and only
if it is a dynamic `ET_DYN` image, or lies exactly at its own lowest page. -/
theorem entry_point_iff (hehdr : L.readEhdr R s = .ok ehdr s₁)
    (hphdrs : readPhdr R ehdr s₁ = .ok phdrs s₂)
    (hreserve : L.mmap.mmapReserve (parseSegments phdrs ehdr.isDylib).1
      (parseSegments phdrs ehdr.isDylib).2.1 (R.asFd s₂.object).isSome s₂.os = .ok p os) :
    (∀ exec s', L.loadExec R name s = .ok exec s' →
      exec.base = p - minPage phdrs ∧
        (exec.entry = exec.base + ehdr.eEntry ↔
          (hasType ptDynamic phdrs = true ∧ ehdr.isDylib = true) ∨ p = minPage phdrs)) ∧
      ∀ image s', L.loadDylib R name s = .ok image s' →
        image.segments.base = p - minPage phdrs ∧
          image.entry = image.segments.base + ehdr.eEntry := by
  constructor
  · intro exec s' h
    have hparts := loadExec_ok hehdr hphdrs h
    cases hdyn : hasType ptDynamic phdrs with
    | true =>
        rw [if_pos hdyn] at hparts
        obtain ⟨image, rfl, hload⟩ := hparts
        obtain ⟨hbase, hentry⟩ := loadDynamicImpl_entry hreserve hload
        refine ⟨hbase, ?_⟩
        change image.entry = image.segments.base + ehdr.eEntry ↔ _
        cases hdylib : ehdr.isDylib with
        | true =>
            rw [hdylib, if_pos rfl] at hentry
            simp only [hentry, BitVec.add_comm, and_self, true_or]
        | false =>
            rw [hdylib] at hentry
            simp only [Bool.false_eq_true, ↓reduceIte] at hentry
            have hsame : image.entry = ehdr.eEntry := by
              rw [hentry]
              exact BitVec.add_zero _
            rw [hsame, base_add_eq_iff, hbase, sub_minPage_eq_zero_iff]
            simp
    | false =>
        rw [if_neg (by simp [hdyn])] at hparts
        obtain ⟨image, rfl, hload⟩ := hparts
        obtain ⟨hbase, hentry⟩ := loadStaticImpl_entry hreserve hload
        refine ⟨hbase, ?_⟩
        change image.entry = image.segments.base + ehdr.eEntry ↔ _
        rw [hentry, base_add_eq_iff, hbase, sub_minPage_eq_zero_iff]
        simp
  · intro image s' h
    obtain ⟨hdylib, hload⟩ := loadDylib_ok hehdr hphdrs h
    obtain ⟨hbase, hentry⟩ := loadDynamicImpl_entry hreserve hload
    rw [hdylib, if_pos rfl] at hentry
    exact ⟨hbase, by rw [hentry, BitVec.add_comm]⟩

end Entry

end Loader

/-! ## An executable with no dynamic section -/

/-- A 64-bit x86 file: the header with entry `0x1010`, and the program headers. -/
def fileOf (eType : UInt16) (phdrs : List (ElfPhdr 64)) : List UInt8 :=
  [0x7f, 0x45, 0x4c, 0x46, 2, 1, 1] ++ List.replicate 9 0 ++
    ByteMemory.leBytes eType.toBitVec ++ [62, 0, 1, 0, 0, 0] ++
    ByteMemory.leBytes (0x1010 : BitVec 64) ++ ByteMemory.leBytes (64 : BitVec 64) ++
    List.replicate 12 0 ++ [64, 0, 56, 0] ++ ByteMemory.leBytes (BitVec.ofNat 16 phdrs.length) ++
    [64, 0, 0, 0, 0, 0] ++
    phdrs.flatMap fun phdr => ByteMemory.leBytes phdr.pType.toBitVec ++
      ByteMemory.leBytes phdr.pFlags.toBitVec ++ ByteMemory.leBytes phdr.pOffset ++
      ByteMemory.leBytes phdr.pVaddr ++ ByteMemory.leBytes phdr.pPaddr ++
      ByteMemory.leBytes phdr.pFilesz ++ ByteMemory.leBytes phdr.pMemsz ++
      ByteMemory.leBytes phdr.pAlign

def onePage : ElfPhdr 64 where
  pType := ptLoad
  pFlags := pfR
  pOffset := 0
  pVaddr := 0x1000
  pPaddr := 0x1000
  pFilesz := 120
  pMemsz := 120
  pAlign := 0x1000

/-- A loader on a kernel that maps `file` and places free reservations at `free`. -/
def loaderOn (file : List UInt8) (free : BitVec 64) : Loader 64 Unit Unit where
  arch := Arch.x86_64
  emArch := 62
  staticReloc := X86_64Relocator.staticReloc
  mmap := unixMmap file free
  hook := fun _ _ _ _ => .ok ()
  userData := ()

def emptyState : LoadState 64 Unit Unit := ⟨⟨fun _ => 0, ()⟩, (), []⟩

set_option maxRecDepth 20000 in
/-- The entry of a static `ET_DYN` file stays unbiased. -/
theorem static_pie_entry_unbiased :
    ∃ exec s', (loaderOn (fileOf etDyn [onePage]) 0x10000).loadExec
        (bytesReader (fileOf etDyn [onePage]) none) [] emptyState = .ok exec s' ∧
      exec.base = 0xf000 ∧ exec.entry = 0x1010 ∧ exec.entry ≠ exec.base + 0x1010 := by
  refine ⟨_, _, rfl, ?_⟩
  decide

set_option maxRecDepth 20000 in
/-- The same headers as `ET_EXEC` are placed at their own addresses. -/
theorem static_exec_entry :
    ∃ exec s', (loaderOn (fileOf etExec [onePage]) 0x10000).loadExec
        (bytesReader (fileOf etExec [onePage]) none) [] emptyState = .ok exec s' ∧
      exec.entry = exec.base + 0x1010 := by
  obtain ⟨exec, s', hload⟩ : ∃ exec s', (loaderOn (fileOf etExec [onePage]) 0x10000).loadExec
      (bytesReader (fileOf etExec [onePage]) none) [] emptyState = .ok exec s' := ⟨_, _, rfl⟩
  have hentry := ((Loader.entry_point_iff rfl rfl rfl).1 exec s' hload).2.mpr
    (.inr (by decide))
  exact ⟨exec, s', hload, hentry⟩

end ElfLoader
