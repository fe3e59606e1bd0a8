import ElfLoader.Image.EntryPoint
import ElfLoader.Library.Splice

/-! # The program headers an image reports

`create_phdrs` takes the headers from the address of `PT_PHDR`, from a loaded segment
that covers the table in the file, or from the copy that the loader has read. All three
are the table of the file.
-/

namespace ElfLoader

open ByteMemory Splice

variable {w : Nat} {O D : Type}

/-! ## The table in the file -/

/-- `ElfPhdrs::as_slice`. Mapped headers are read where they are in memory. -/
def ElfPhdrs.asSlice (m : Bytes w) : ElfPhdrs w → List (ElfPhdr w)
  | .mmap phdrs =>
      records ElfPhdr.ofBytes (phdrSize w) (read m phdrs.ptr (phdrs.count * phdrSize w)) phdrs.count
  | .vec phdrs => phdrs

/-- The length in bytes of `e_phnum` native entries. -/
def Ehdr.phdrTableSize (ehdr : Ehdr w) : Nat := ehdr.ePhnum.toNat * phdrSize w

/-- The table at `e_phoff`. -/
def Ehdr.phdrTable (ehdr : Ehdr w) (file : List UInt8) : List (ElfPhdr w) :=
  records ElfPhdr.ofBytes (phdrSize w) (slice file ehdr.ePhoff.toNat ehdr.phdrTableSize)
    ehdr.ePhnum.toNat

@[simp] theorem records_length {R : Type} (ofBytes : List UInt8 → R) (size : Nat)
    (buf : List UInt8) (count : Nat) : (records ofBytes size buf count).length = count := by
  rw [records, List.length_map, List.length_range]

namespace ElfPhdr

/-- The bytes of the file that the segment holds are in memory. -/
def ContentLoaded (file : List UInt8) (base : BitVec w) (m : Bytes w) (ph : ElfPhdr w) : Prop :=
  ∀ k < ph.pFilesz.toNat,
    file[ph.pOffset.toNat + k]? = some (m (base + ph.pVaddr + BitVec.ofNat w k))

instance (file : List UInt8) (base : BitVec w) (m : Bytes w) (ph : ElfPhdr w) :
    Decidable (ph.ContentLoaded file base m) :=
  inferInstanceAs (Decidable (∀ k < ph.pFilesz.toNat, _))

/-- The bytes of `p` are bytes of `load`, at the same distance of address and offset. -/
structure LiesIn (p load : ElfPhdr w) : Prop where
  distance : p.pVaddr - p.pOffset = load.pVaddr - load.pOffset
  start : load.pOffset.toNat ≤ p.pOffset.toNat
  stop : p.pOffset.toNat + p.pMemsz.toNat ≤ load.pOffset.toNat + load.pFilesz.toNat

/-- A `PT_PHDR` header is the table, and in a loaded segment. -/
structure IsTable (ehdr : Ehdr w) (phdrs : List (ElfPhdr w)) (p : ElfPhdr w) : Prop where
  offset : p.pOffset = ehdr.ePhoff
  memsz : p.pMemsz.toNat = ehdr.phdrTableSize
  inside : ∃ load ∈ phdrs, load.pType = ptLoad ∧ p.LiesIn load

theorem Loaded.content {file : List UInt8} {base : BitVec w} {m : Bytes w} {ph : ElfPhdr w}
    (h : ph.Loaded file base m) (hsize : ph.pFilesz.toNat ≤ ph.pMemsz.toNat) :
    ph.ContentLoaded file base m :=
  fun k hk => (h k (Nat.lt_of_lt_of_le hk hsize)).1 hk

/-- Bytes of the file in a loaded segment are read back at their distance from its start. -/
theorem ContentLoaded.read_eq {file : List UInt8} {base : BitVec w} {m : Bytes w}
    {load : ElfPhdr w} (h : load.ContentLoaded file base m) {off n : Nat}
    (hstart : load.pOffset.toNat ≤ off)
    (hstop : off + n ≤ load.pOffset.toNat + load.pFilesz.toNat) :
    read m (base + load.pVaddr + BitVec.ofNat w (off - load.pOffset.toNat)) n =
      slice file off n := by
  apply List.ext_getElem?
  intro i
  rw [slice_getElem?]
  by_cases hi : i < n
  · have hbyte := h (off - load.pOffset.toNat + i) (by omega)
    rw [show load.pOffset.toNat + (off - load.pOffset.toNat + i) = off + i by omega,
      BitVec.ofNat_add, ← BitVec.add_assoc] at hbyte
    rw [if_pos hi, hbyte, ByteMemory.read, List.getElem?_map, List.getElem?_range hi]
    rfl
  · rw [if_neg hi, List.getElem?_eq_none (by rw [read_length]; omega)]

end ElfPhdr

section Table

variable {ehdr : Ehdr w} {file : List UInt8} {m : Bytes w}

theorem asSlice_mmap {s : Slice w} (hcount : s.count = ehdr.ePhnum.toNat)
    (hread : read m s.ptr ehdr.phdrTableSize = slice file ehdr.ePhoff.toNat ehdr.phdrTableSize) :
    (ElfPhdrs.mmap s).asSlice m = ehdr.phdrTable file := by
  rw [ElfPhdrs.asSlice, hcount, Ehdr.phdrTable, ← hread]
  rfl

theorem phdrSize_pos (w : Nat) : 0 < phdrSize w := by
  unfold phdrSize
  split <;> decide

variable [WordSize w]

theorem phdrTableSize_lt (ehdr : Ehdr w) : ehdr.phdrTableSize < 2 ^ w := by
  have hnum := ehdr.ePhnum.toNat_lt
  have hsize : phdrSize w ≤ 56 := by
    unfold phdrSize
    split <;> decide
  have hmul := Nat.mul_le_mul (Nat.le_of_lt hnum) hsize
  have hword : 2 ^ 32 ≤ 2 ^ w := by
    rcases WordSize.eq_32_or_64 (w := w) with rfl | rfl <;> decide
  unfold Ehdr.phdrTableSize
  omega

theorem phdrsSize_toNat (hentsize : ehdr.ePhentsize.toNat = phdrSize w) :
    (BitVec.ofNat w (ehdr.ePhentsize.toNat * ehdr.ePhnum.toNat)).toNat = ehdr.phdrTableSize := by
  rw [hentsize, Nat.mul_comm, BitVec.toNat_ofNat]
  exact Nat.mod_eq_of_lt (phdrTableSize_lt ehdr)

/-- What `prepare_phdrs` reads is the table. -/
theorem preparePhdrs_ok {R : ElfReader w O} (hR : ReadsFile R file)
    (hentsize : ehdr.ePhentsize.toNat = phdrSize w) {o o' : O} {phdrs : List (ElfPhdr w)}
    (h : ElfBuf.preparePhdrs R ehdr o = .ok phdrs o') : phdrs = ehdr.phdrTable file := by
  have hsize : (ehdr.phdrRange.2 - ehdr.phdrRange.1).toNat = ehdr.phdrTableSize := by
    change (ehdr.ePhoff + BitVec.ofNat w (ehdr.ePhentsize.toNat * ehdr.ePhnum.toNat) -
      ehdr.ePhoff).toNat = _
    rw [BitVec.add_comm, BitVec.add_sub_cancel]
    exact phdrsSize_toNat hentsize
  simp only [ElfBuf.preparePhdrs, Exec.bind_ok_iff] at h
  obtain ⟨buf, o₁, hread, hret⟩ := h
  cases hret
  rw [hsize] at hread ⊢
  obtain ⟨rfl, -⟩ := hR.read hread
  rw [Ehdr.phdrTableSize, Nat.mul_div_cancel _ (phdrSize_pos w)]
  rfl

end Table

/-! ## The three sources -/

namespace ImageBuilder

theorem parsePhdr_phdrMmap {b b' : ImageBuilder w D} {phdr : ElfPhdr w}
    (h : b.parsePhdr phdr = .ok b') :
    b'.phdrMmap = b.phdrMmap ∨ phdr.pType = ptPhdr ∧
      b'.phdrMmap = some (b.segments.getSlice (phdrSize w) phdr.pVaddr phdr.pMemsz) := by
  unfold parsePhdr at h
  cases hhook : b.hook b.name phdr b.segments b.userData with
  | error e =>
      rw [hhook] at h
      cases h
  | ok userData =>
      rw [hhook] at h
      unfold storePhdr at h
      dsimp only at h
      split at h
      · obtain ⟨ptr, -, hret⟩ := Exec.except_bind_ok_iff.mp h
        cases hret
        exact .inl rfl
      · split at h
        · cases h
          exact .inl rfl
        · split at h
          · cases h
            exact .inr ⟨‹_›, rfl⟩
          · split at h
            · obtain ⟨ptr, -, hret⟩ := Exec.except_bind_ok_iff.mp h
              cases hret
              exact .inl rfl
            · cases h
              exact .inl rfl

/-- The mapped headers are those of a `PT_PHDR` header, if there is one. -/
theorem parsePhdrs_phdrMmap {b b' : ImageBuilder w D} {phdrs : List (ElfPhdr w)}
    (h : phdrs.foldlM parsePhdr b = .ok b') :
    b'.phdrMmap = b.phdrMmap ∨ ∃ p ∈ phdrs, p.pType = ptPhdr ∧
      b'.phdrMmap = some (b.segments.getSlice (phdrSize w) p.pVaddr p.pMemsz) := by
  induction phdrs generalizing b with
  | nil =>
      cases h
      exact .inl rfl
  | cons phdr phdrs ih =>
      rw [List.foldlM_cons] at h
      obtain ⟨b₁, hphdr, hrest⟩ := Exec.except_bind_ok_iff.mp h
      rcases ih hrest with hsame | ⟨p, hp, htype, hmap⟩
      · rcases parsePhdr_phdrMmap hphdr with hsame' | ⟨htype, hmap⟩
        · exact .inl (hsame.trans hsame')
        · exact .inr ⟨phdr, List.mem_cons_self, htype, hsame.trans hmap⟩
      · rw [(parsePhdr_frame hphdr).segments] at hmap
        exact .inr ⟨p, List.mem_cons_of_mem _ hp, htype, hmap⟩

theorem findPhdrs_eq_some {b : ImageBuilder w D} {phdrs : List (ElfPhdr w)} {s : Slice w}
    (h : b.findPhdrs phdrs = some s) :
    ∃ load ∈ phdrs, load.pType = ptLoad ∧ load.pOffset ≤ b.ehdr.phdrRange.1 ∧
      b.ehdr.phdrRange.2 < load.pOffset + load.pFilesz ∧
      s = b.segments.getSlice (phdrSize w) (load.pVaddr + b.ehdr.phdrRange.1 - load.pOffset)
        (BitVec.ofNat w b.ehdr.phdrTableSize) := by
  unfold findPhdrs at h
  obtain ⟨load, hload, hfound⟩ := List.exists_of_findSome?_eq_some h
  obtain ⟨hmem, htype⟩ := List.mem_filter.mp hload
  dsimp only at hfound
  split at hfound
  · rename_i hcontains
    cases hfound
    simp only [Bool.and_eq_true, decide_eq_true_eq] at hcontains
    exact ⟨load, hmem, of_decide_eq_true htype, hcontains.1.1, hcontains.2.2, rfl⟩
  · cases hfound

section Reported

variable {ehdr : Ehdr w} {segs : ElfSegments w} {file : List UInt8} {m : Bytes w}

theorem getSlice_phdrTable {start len : BitVec w} (hlen : len.toNat = ehdr.phdrTableSize)
    (hread : read m (segs.base + start) ehdr.phdrTableSize =
      slice file ehdr.ePhoff.toNat ehdr.phdrTableSize) :
    (ElfPhdrs.mmap (segs.getSlice (phdrSize w) start len)).asSlice m = ehdr.phdrTable file := by
  refine asSlice_mmap ?_ hread
  change len.toNat / phdrSize w = _
  rw [hlen]
  exact Nat.mul_div_cancel _ (phdrSize_pos w)

/-- The view through `PT_PHDR`. -/
theorem isTable_asSlice (phdrs : List (ElfPhdr w)) {p : ElfPhdr w} (hp : p.IsTable ehdr phdrs)
    (hload : ∀ ph ∈ phdrs, ph.pType = ptLoad → ph.ContentLoaded file segs.base m) :
    (ElfPhdrs.mmap (segs.getSlice (phdrSize w) p.pVaddr p.pMemsz)).asSlice m =
      ehdr.phdrTable file := by
  obtain ⟨load, hmem, htype, hin⟩ := hp.inside
  refine getSlice_phdrTable hp.memsz ?_
  have hstart := hin.start
  have hstop := hin.stop
  rw [hp.memsz] at hstop
  rw [hp.offset] at hstart hstop
  rw [← (hload load hmem htype).read_eq hstart hstop]
  congr 1
  -- the two distances are the same
  have hdist := hin.distance
  rw [hp.offset] at hdist
  have haddr : BitVec.ofNat w (ehdr.ePhoff.toNat - load.pOffset.toNat) =
      ehdr.ePhoff - load.pOffset := by
    rw [← BitVec.toNat_sub_of_le (BitVec.le_def.mpr hstart), BitVec.ofNat_toNat,
      BitVec.setWidth_eq]
  rw [haddr]
  grind

variable [WordSize w]

/-- The view through a loaded segment that covers the table. -/
theorem findPhdrs_asSlice {b : ImageBuilder w D} {phdrs : List (ElfPhdr w)} {s : Slice w}
    (hentsize : b.ehdr.ePhentsize.toNat = phdrSize w)
    (hend : b.ehdr.ePhoff.toNat + b.ehdr.phdrTableSize < 2 ^ w)
    (hload : ∀ ph ∈ phdrs, ph.pType = ptLoad → ph.ContentLoaded file b.segments.base m)
    (h : b.findPhdrs phdrs = some s) : (ElfPhdrs.mmap s).asSlice m = b.ehdr.phdrTable file := by
  obtain ⟨load, hmem, htype, hstart, hstop, rfl⟩ := findPhdrs_eq_some h
  change load.pOffset ≤ b.ehdr.ePhoff at hstart
  refine getSlice_phdrTable ?_ ?_
  · rw [BitVec.toNat_ofNat]
    exact Nat.mod_eq_of_lt (phdrTableSize_lt b.ehdr)
  · have hstop' : b.ehdr.ePhoff.toNat + b.ehdr.phdrTableSize ≤
        load.pOffset.toNat + load.pFilesz.toNat := by
      have hwrap := Nat.mod_le (load.pOffset.toNat + load.pFilesz.toNat) (2 ^ w)
      rw [BitVec.lt_def, BitVec.toNat_add load.pOffset] at hstop
      change (b.ehdr.ePhoff + BitVec.ofNat w _).toNat < _ at hstop
      rw [BitVec.toNat_add, phdrsSize_toNat hentsize, Nat.mod_eq_of_lt hend] at hstop
      omega
    rw [← (hload load hmem htype).read_eq (BitVec.le_def.mp hstart) hstop',
      ← BitVec.toNat_sub_of_le hstart, BitVec.ofNat_toNat, BitVec.setWidth_eq]
    congr 1
    change b.segments.base + (load.pVaddr + b.ehdr.ePhoff - load.pOffset) = _
    grind

/-- The headers that an image reports are those of the file. -/
theorem createPhdrs_asSlice {hook : LoadHook w D} {name : Name} {userData : D}
    {b : ImageBuilder w D} {R : ElfReader w O} {o o' : O} {phdrs : List (ElfPhdr w)}
    (hR : ReadsFile R file) (hentsize : ehdr.ePhentsize.toNat = phdrSize w)
    (hend : ehdr.ePhoff.toNat + ehdr.phdrTableSize < 2 ^ w)
    (hread : ElfBuf.preparePhdrs R ehdr o = .ok phdrs o')
    (hphdr : ∀ p ∈ phdrs, p.pType = ptPhdr → p.IsTable ehdr phdrs)
    (hload : ∀ ph ∈ phdrs, ph.pType = ptLoad → ph.ContentLoaded file segs.base m)
    (hparse : phdrs.foldlM parsePhdr (new hook segs name ehdr userData) = .ok b) :
    ((b.createPhdrs phdrs).asSlice m).length = ehdr.ePhnum.toNat ∧
      (b.createPhdrs phdrs).asSlice m = ehdr.phdrTable file := by
  have hframe := parsePhdrs_frame hparse
  have hehdr : b.ehdr = ehdr := hframe.ehdr
  have hsegs : b.segments = segs := hframe.segments
  suffices h : (b.createPhdrs phdrs).asSlice m = ehdr.phdrTable file from
    ⟨by rw [h, Ehdr.phdrTable, records_length], h⟩
  unfold createPhdrs
  rcases parsePhdrs_phdrMmap hparse with hnone | ⟨p, hp, htype, hmap⟩
  · rw [show b.phdrMmap = none from hnone, Option.none_or]
    cases hfind : b.findPhdrs phdrs with
    | none => exact preparePhdrs_ok hR hentsize hread
    | some s =>
        rw [← hehdr] at hentsize hend ⊢
        rw [← hsegs] at hload
        exact findPhdrs_asSlice hentsize hend hload hfind
  · rw [hmap, Option.some_or]
    exact isTable_asSlice _ (hphdr p hp htype) hload

end Reported

end ImageBuilder

section Sample

/-- A page with a table of two headers, the first of which says where it is. -/
def tableHeaders : List (ElfPhdr 64) :=
  [{ pType := ptPhdr, pFlags := pfR, pOffset := 64, pVaddr := 64, pPaddr := 64, pFilesz := 112,
     pMemsz := 112, pAlign := 8 },
   { pType := ptLoad, pFlags := pfR, pOffset := 0, pVaddr := 0, pPaddr := 0, pFilesz := 176,
     pMemsz := 176, pAlign := 0x1000 }]

def tableFile : List UInt8 := fileOf etDyn tableHeaders

def tableEhdr : Ehdr 64 := Ehdr.ofBytes tableFile

def tableSegments : ElfSegments 64 := { memory := 0x10000, offset := 0, len := 0x1000 }

/-- The file at its place. -/
def tableMemory : Bytes 64 := write (fun _ => 0) 0x10000 tableFile

def quietHook : LoadHook 64 Unit := fun _ _ _ _ => .ok ()

theorem tableHeaders_isTable {p : ElfPhdr 64} (hp : p ∈ tableHeaders) (htype : p.pType = ptPhdr) :
    p.IsTable tableEhdr tableHeaders := by
  rcases List.mem_cons.mp hp with rfl | htail
  · refine ⟨by decide, by decide, _, List.mem_cons_of_mem _ List.mem_cons_self,
      rfl, ?_⟩
    exact ⟨by decide, by decide, by decide⟩
  · rw [List.mem_singleton.mp htail] at htype
    exact absurd htype (by decide)

set_option maxRecDepth 20000 in
theorem tableFile_reported :
    ∃ b, tableHeaders.foldlM ImageBuilder.parsePhdr
        (ImageBuilder.new quietHook tableSegments [] tableEhdr ()) = .ok b ∧
      ((b.createPhdrs tableHeaders).asSlice tableMemory).length = tableEhdr.ePhnum.toNat ∧
      (b.createPhdrs tableHeaders).asSlice tableMemory = tableEhdr.phdrTable tableFile := by
  obtain ⟨b, hparse⟩ : ∃ b, tableHeaders.foldlM ImageBuilder.parsePhdr
      (ImageBuilder.new quietHook tableSegments [] tableEhdr ()) = .ok b := ⟨_, rfl⟩
  have htable : tableEhdr.phdrTable tableFile = tableHeaders := by decide
  have hread : ElfBuf.preparePhdrs (bytesReader tableFile none) tableEhdr () =
      .ok (tableEhdr.phdrTable tableFile) () := rfl
  rw [htable] at hread
  exact ⟨b, hparse, ImageBuilder.createPhdrs_asSlice (bytesReader_readsFile _ _)
    (by decide) (by decide) hread (fun p hp htype => tableHeaders_isTable hp htype)
    (by decide) hparse⟩

end Sample

end ElfLoader
