import ElfLoader.Image.Paddr
import ElfLoader.Image.Phdrs
import ElfLoader.Segment.Behind

/-! # What a load leaves in memory

A load of a dynamic library that returns has read the headers of the file, has every
segment in memory, and has found the dynamic section.
-/

namespace ElfLoader

open ByteMemory

variable {w : Nat} {K O D : Type}

/-! ## The file header in its bytes -/

theorem Ehdr.readsOnly_ofBytes : ReadsOnly (Ehdr.ofBytes (w := w)) (ehdrSize w) := by
  intro bytes rest h
  unfold ehdrSize at h
  unfold Ehdr.ofBytes
  rw [field16_append rest (by omega), field16_append rest (by omega),
    field32_append rest (by omega), fieldWord_append rest (by omega),
    fieldWord_append rest (by omega), fieldWord_append rest (by omega),
    field32_append rest (by omega), field16_append rest (by omega),
    field16_append rest (by omega), field16_append rest (by omega),
    field16_append rest (by omega), field16_append rest (by omega),
    field16_append rest (by omega), List.take_append_of_le_length (by omega)]

theorem fileEhdr_eq_ofBytes {file : List UInt8} (h : ehdrSize w ≤ file.length) :
    (fileEhdr file : Ehdr w) = Ehdr.ofBytes file := by
  have hread := Ehdr.readsOnly_ofBytes (w := w) (file.take (ehdrSize w))
    (file.drop (ehdrSize w)) (by rw [List.length_take]; omega)
  rw [List.take_append_drop] at hread
  exact hread.symm

namespace Loader

variable {L : Loader w K D} {R : ElfReader w O} {name : Name} {file : List UInt8}
  {s s' s₁ : LoadState w K O}

/-! ## The headers -/

theorem readEhdr_ok (hR : ReadsFile R file) {ehdr : Ehdr w}
    (h : L.readEhdr R s = .ok ehdr s₁) : ehdr = Ehdr.ofBytes file := by
  obtain ⟨o, hobject, rfl⟩ := Load.onObject_ok_iff.mp h
  obtain ⟨buf, o₁, hbuf, hnew⟩ := Exec.bind_ok_iff.mp hobject
  obtain ⟨hheader, rfl⟩ := Exec.lift_ok_iff.mp hnew
  obtain ⟨-, -, hret⟩ := Exec.except_bind_ok_iff.mp hheader
  cases hret
  obtain ⟨hbytes, hlen⟩ := hR.read hbuf
  have htake : buf = file.take (ehdrSize w) := by simpa using hbytes
  rw [htake, List.length_take] at hlen
  rw [htake]
  exact fileEhdr_eq_ofBytes (by omega)

theorem readPhdr_ok [WordSize w] (hR : ReadsFile R file) {ehdr : Ehdr w}
    {phdrs : List (ElfPhdr w)} (hentsize : ehdr.ePhentsize.toNat = phdrSize w)
    (h : readPhdr R ehdr s = .ok phdrs s₁) : phdrs = ehdr.phdrTable file := by
  obtain ⟨o, hobject, rfl⟩ := Load.onObject_ok_iff.mp h
  exact preparePhdrs_ok hR hentsize hobject

/-! ## The segments -/

/-- Protecting the segments changes no byte. -/
theorem mprotectAll_mem {M : Mmap w K}
    (hprotect : ∀ {addr len prot os u os'}, M.mprotect addr len prot os = .ok u os' →
      os'.mem = os.mem) {segs : List (ElfSegment w)}
    (h : ElfSegment.mprotectAll M segs s = .ok () s') : s'.os.mem = s.os.mem := by
  unfold ElfSegment.mprotectAll at h
  induction segs generalizing s with
  | nil =>
      cases h
      rfl
  | cons seg segs ih =>
      obtain ⟨s₁, hone, hrest⟩ := Exec.forM_cons_ok_iff.mp h
      rw [ih hrest]
      unfold ElfSegment.mprotect at hone
      split at hone
      · simp only [Exec.bind_ok_iff, Exec.lift_ok_iff, Load.onOs_ok_iff] at hone
        obtain ⟨_, _, ⟨-, rfl⟩, _, _, ⟨-, rfl⟩, _, _, hrec, os, hos, rfl⟩ := hone
        cases hrec
        exact hprotect hos
      · cases hone
        rfl

section Segments

variable [WordSize w] {ehdr : Ehdr w} {phdrs : List (ElfPhdr w)}
  (hM : MapsFile L.mmap file)
  (hprotect : ∀ {addr len prot os u os'}, L.mmap.mprotect addr len prot os = .ok u os' →
    os'.mem = os.mem)
  (hR : ReadsFile R file)
  (hload : ∀ ph ∈ phdrs, ph.pType = ptLoad → ph.Loadable file)
  (hdisj : (phdrs.filter fun ph => ph.pType = ptLoad).Pairwise fun p q => Disjoint p.pages q.pages)

include hM hprotect hR hload hdisj

theorem loadProgram_holds {segs : ElfSegments w}
    (h : L.loadProgram R ehdr phdrs s = .ok segs s') : segs.Holds phdrs file s'.os.mem := by
  unfold loadProgram at h
  rw [Exec.bind_of_ok (Exec.get_apply s)] at h
  obtain ⟨⟨space, loaded⟩, s₁, hrun, h⟩ := Exec.bind_ok_iff.mp h
  obtain ⟨_, s₂, hall, hret⟩ := Exec.bind_ok_iff.mp h
  cases hret
  rw [mprotectAll_mem hprotect hall]
  have hloads : ∀ ph ∈ phdrs.filter (fun ph => ph.pType = ptLoad), ph.Loadable file := by
    intro ph hph
    obtain ⟨hmem, htype⟩ := List.mem_filter.mp hph
    exact hload ph hmem (of_decide_eq_true htype)
  exact loadSegments_holds hM hR { phdrs, isDylib := ehdr.isDylib, useFile := _ } hloads hdisj hrun

/-- What an image has of its file. -/
theorem loadDynamicImpl_holds {image : UninitImage w D}
    (h : L.loadDynamicImpl R name ehdr phdrs s = .ok image s') :
    image.segments.Holds phdrs file s'.os.mem ∧
      (dynamicPaddr phdrs).map image.segments.getPtr = some image.dynamicPtr := by
  obtain ⟨segs, s₁, hprogram, h⟩ := Exec.bind_ok_iff.mp h
  rw [Exec.bind_of_ok (Exec.get_apply s₁)] at h
  obtain ⟨hbuild, rfl⟩ := Exec.lift_ok_iff.mp h
  obtain ⟨hsegs, -⟩ := ImageBuilder.buildDynamic_entry hbuild
  obtain ⟨hptr, -⟩ := ImageBuilder.buildDynamic_dynamicPtr rfl hbuild
  have hholds := loadProgram_holds hM hprotect hR hload hdisj hprogram
  rw [hsegs]
  exact ⟨hholds, hptr⟩

end Segments

/-! ## The kind of the file -/

/-- A file with a dynamic section and no interpreter is loaded as a library. -/
theorem load_dylib_ok [WordSize w] (hR : ReadsFile R file)
    (htype : (Ehdr.ofBytes file : Ehdr w).eType = etDyn)
    (hentsize : (Ehdr.ofBytes file : Ehdr w).ePhentsize.toNat = phdrSize w)
    (hdynamic : hasType ptDynamic ((Ehdr.ofBytes file : Ehdr w).phdrTable file) = true)
    (hinterp : hasType ptInterp ((Ehdr.ofBytes file : Ehdr w).phdrTable file) = false)
    {raw : RawElf w D} (h : L.load R name s = .ok raw s') :
    ∃ image s₁, raw = .dylib image ∧ L.loadDynamicImpl R name (Ehdr.ofBytes file)
      ((Ehdr.ofBytes file : Ehdr w).phdrTable file) s₁ = .ok image s' := by
  have hnot : etDyn ≠ etRel ∧ etDyn ≠ etExec := by decide
  unfold load at h
  obtain ⟨ehdr, s₁, hehdr, h⟩ := Exec.bind_ok_iff.mp h
  cases readEhdr_ok hR hehdr
  rw [if_neg (by rw [htype]; exact hnot.1), if_neg (by rw [htype]; exact hnot.2),
    if_pos htype] at h
  obtain ⟨phdrs, s₂, hphdrs, h⟩ := Exec.bind_ok_iff.mp h
  cases readPhdr_ok hR hentsize hphdrs
  rw [hdynamic, hinterp] at h
  obtain ⟨image, s₃, hload, hret⟩ := Exec.bind_ok_iff.mp h
  cases hret
  unfold loadDylib at hload
  obtain ⟨ehdr, s₄, hehdr, hload⟩ := Exec.bind_ok_iff.mp hload
  cases readEhdr_ok hR hehdr
  rw [if_pos (show (Ehdr.ofBytes file : Ehdr w).isDylib = true from decide_eq_true htype)] at hload
  obtain ⟨phdrs, s₅, hphdrs, hload⟩ := Exec.bind_ok_iff.mp hload
  cases readPhdr_ok hR hentsize hphdrs
  exact ⟨image, s₅, rfl, hload⟩

end Loader

end ElfLoader
