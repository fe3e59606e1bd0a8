import ElfLoader.Image.Failure

/-! # Files that differ in physical addresses

Two runs of the loader, on two files with the same bytes outside the `p_paddr`
fields of their program headers. Every step of the second run follows the first
one, up to the bytes of these fields that a segment brings into memory; the one
place where a physical address decides anything is the pointer to the dynamic
section.
-/

namespace ElfLoader

open ByteMemory

variable {w : Nat} {K O D α : Type}

/-! ## The headers in a file -/

def fileEhdr (file : List UInt8) : Ehdr w := Ehdr.ofBytes (file.take (ehdrSize w))

/-- The length of the program header table in bytes. -/
def phdrTableLen (ehdr : Ehdr w) : Nat := (ehdr.phdrRange.2 - ehdr.phdrRange.1).toNat

def filePhdrs (file : List UInt8) : List (ElfPhdr w) :=
  let ehdr : Ehdr w := fileEhdr file
  records ElfPhdr.ofBytes (phdrSize w) ((file.drop ehdr.ePhoff.toNat).take (phdrTableLen ehdr))
    (phdrTableLen ehdr / phdrSize w)

/-- Only bytes of `p_paddr` fields differ. -/
structure OnlyPaddr (w : Nat) (file file' : List UInt8) : Prop where
  ehdr : ∀ i < ehdrSize w, file'[i]? = file[i]?
  field : ∀ i, file'[i]? ≠ file[i]? → ∃ k < (filePhdrs file : List (ElfPhdr w)).length,
    (fileEhdr file : Ehdr w).ePhoff.toNat + k * phdrSize w + paddrOff w ≤ i ∧
      i < (fileEhdr file : Ehdr w).ePhoff.toNat + k * phdrSize w + paddrOff w + w / 8

namespace ElfPhdr

/-- The header without its physical address. -/
def erasePaddr (phdr : ElfPhdr w) : ElfPhdr w := { phdr with pPaddr := 0 }

end ElfPhdr

/-- The same program headers up to `p_paddr`. -/
def SamePhdrs (phdrs phdrs' : List (ElfPhdr w)) : Prop :=
  phdrs'.map ElfPhdr.erasePaddr = phdrs.map ElfPhdr.erasePaddr

namespace OnlyPaddr

variable {file file' : List UInt8}

theorem take_eq (h : OnlyPaddr w file file') :
    file'.take (ehdrSize w) = file.take (ehdrSize w) := by
  apply List.ext_getElem?
  intro i
  rw [List.getElem?_take, List.getElem?_take]
  split
  · exact h.ehdr i ‹_›
  · rfl

theorem fileEhdr_eq (h : OnlyPaddr w file file') :
    (fileEhdr file' : Ehdr w) = fileEhdr file := by
  rw [fileEhdr, fileEhdr, h.take_eq]

/-- A field of a program header that has no byte in common with `p_paddr`. -/
theorem fieldNat_eq [WordSize w] (h : OnlyPaddr w file file') {n k off len : Nat}
    (hrecord : off + len ≤ phdrSize w) (hoff : off + len ≤ paddrOff w ∨ paddrOff w + w / 8 ≤ off) :
    fieldNat (((file'.drop (fileEhdr file : Ehdr w).ePhoff.toNat).take n).drop (k * phdrSize w))
        off len =
      fieldNat (((file.drop (fileEhdr file : Ehdr w).ePhoff.toNat).take n).drop (k * phdrSize w))
        off len := by
  unfold fieldNat
  congr 1
  apply List.ext_getElem?
  intro j
  simp only [List.getElem?_take, List.getElem?_drop]
  split
  · split
    · by_contra hne
      obtain ⟨k', -, hlo, hhi⟩ := h.field _ hne
      -- the two indices lie in one record, on both sides of its `p_paddr`
      rcases WordSize.eq_32_or_64 (w := w) with rfl | rfl
      · have hsize : phdrSize 32 = 32 := rfl
        simp only [hsize, paddrOff] at *
        omega
      · have hsize : phdrSize 64 = 56 := rfl
        simp only [hsize, paddrOff] at *
        omega
    · rfl
  · rfl

theorem ofBytes_eq [WordSize w] (h : OnlyPaddr w file file') (n k : Nat) :
    (ElfPhdr.ofBytes (((file'.drop (fileEhdr file : Ehdr w).ePhoff.toNat).take n).drop
        (k * phdrSize w)) : ElfPhdr w).erasePaddr =
      (ElfPhdr.ofBytes (((file.drop (fileEhdr file : Ehdr w).ePhoff.toNat).take n).drop
        (k * phdrSize w))).erasePaddr := by
  simp only [ElfPhdr.erasePaddr, ElfPhdr.ofBytes, field32, fieldWord]
  rcases WordSize.eq_32_or_64 (w := w) with rfl | rfl
  · have hsize : phdrSize 32 = 32 := rfl
    have hoff : paddrOff 32 = 12 := rfl
    congr 2 <;> exact h.fieldNat_eq (by simp [hsize]) (by simp [hoff])
  · have hsize : phdrSize 64 = 56 := rfl
    have hoff : paddrOff 64 = 24 := rfl
    congr 2 <;> exact h.fieldNat_eq (by simp [hsize]) (by simp [hoff])

theorem filePhdrs_same [WordSize w] (h : OnlyPaddr w file file') :
    SamePhdrs (filePhdrs file : List (ElfPhdr w)) (filePhdrs file') := by
  unfold SamePhdrs filePhdrs records
  simp only [h.fileEhdr_eq, List.map_map]
  apply List.map_congr_left
  intro k _
  exact h.ofBytes_eq _ k

end OnlyPaddr

/-! ## What is computed from the headers -/

namespace SamePhdrs

variable {phdrs phdrs' : List (ElfPhdr w)}

/-- A function that does not look at `p_paddr` of the headers. -/
theorem congr {β : Type} (h : SamePhdrs phdrs phdrs') (f : List (ElfPhdr w) → β)
    (hf : ∀ phdrs, f (phdrs.map ElfPhdr.erasePaddr) = f phdrs) : f phdrs' = f phdrs := by
  rw [← hf phdrs', ← hf phdrs, h]

theorem parseSegments_eq (h : SamePhdrs phdrs phdrs') (isDylib : Bool) :
    parseSegments phdrs' isDylib = parseSegments phdrs isDylib := by
  apply h.congr fun phdrs => parseSegments phdrs isDylib
  intro phdrs
  unfold parseSegments vaddrBounds
  rw [List.foldl_map]
  rfl

theorem hasType_eq (h : SamePhdrs phdrs phdrs') (t : UInt32) :
    hasType t phdrs' = hasType t phdrs := by
  apply h.congr (hasType t)
  intro phdrs
  unfold hasType
  rw [List.any_map]
  rfl

theorem findPhdrs_eq (h : SamePhdrs phdrs phdrs') (b : ImageBuilder w D) :
    b.findPhdrs phdrs' = b.findPhdrs phdrs := by
  apply h.congr b.findPhdrs
  intro phdrs
  unfold ImageBuilder.findPhdrs
  rw [List.filter_map, List.findSome?_map]
  rfl

/-- The segments are those of the same headers. -/
theorem segments_eq (h : SamePhdrs phdrs phdrs') :
    (phdrs'.filter fun phdr => phdr.pType = ptLoad).map ElfPhdr.createSegment =
      (phdrs.filter fun phdr => phdr.pType = ptLoad).map ElfPhdr.createSegment := by
  apply h.congr fun phdrs =>
    (phdrs.filter fun phdr => phdr.pType = ptLoad).map ElfPhdr.createSegment
  intro phdrs
  rw [List.filter_map, List.map_map]
  rfl

end SamePhdrs

/-! ## The same mapping and the same reader on two files -/

/-- The same state of the kernel, and the same memory outside `T`. -/
structure AgreeOff (T : Set (BitVec w)) (os os' : OsState w K) : Prop where
  kernel : os'.kernel = os.kernel
  mem : ∀ a ∉ T, os'.mem a = os.mem a

/-- One implementation of `Mmap`, as it behaves on two files: where a call
returns on one, it returns the same on the other, and a file mapping puts
different bytes only where the files differ. -/
structure SameMapping (M M' : Mmap w K) (file file' : List UInt8) : Prop where
  reserve : ∀ {addr len useFile os p os₁}, M.mmapReserve addr len useFile os = .ok p os₁ →
    M'.mmapReserve addr len useFile os = .ok p os₁
  mmap : ∀ {T addr len prot flags offset fd os os' r os₁},
    M.mmap (some addr) len prot flags offset fd os = .ok r os₁ → AgreeOff T os os' →
    (∀ k < len.toNat, file'[offset.toNat + k]? ≠ file[offset.toNat + k]? →
      addr + BitVec.ofNat w k ∈ T) →
    ∃ os₁', M'.mmap (some addr) len prot flags offset fd os' = .ok r os₁' ∧ AgreeOff T os₁ os₁'
  anonymous : ∀ {T addr len prot flags os os' p os₁},
    M.mmapAnonymous addr len prot flags os = .ok p os₁ → AgreeOff T os os' →
    ∃ os₁', M'.mmapAnonymous addr len prot flags os' = .ok p os₁' ∧ AgreeOff T os₁ os₁'
  mprotect : ∀ {T addr len prot os os' u os₁},
    M.mprotect addr len prot os = .ok u os₁ → AgreeOff T os os' →
    ∃ os₁', M'.mprotect addr len prot os' = .ok u os₁' ∧ AgreeOff T os₁ os₁'

/-- One implementation of `ElfReader` on two files: the object goes through the
same states. -/
structure SameReader (R R' : ElfReader w O) : Prop where
  asFd : ∀ o, R'.asFd o = R.asFd o
  read : ∀ {len offset o bytes o₁}, R.read len offset o = .ok bytes o₁ →
    ∃ bytes', R'.read len offset o = .ok bytes' o₁

/-- The two runs have issued the same calls and agree off `T`. -/
structure Agrees (T : Set (BitVec w)) (s s' : LoadState w K O) : Prop where
  os : AgreeOff T s.os s'.os
  object : s'.object = s.object
  calls : s'.calls = s.calls

theorem Agrees.refl (T : Set (BitVec w)) (s : LoadState w K O) : Agrees T s s :=
  ⟨⟨rfl, fun _ _ => rfl⟩, rfl, rfl⟩

/-- Where the differing bytes end up: at their places in the segments that a
`PT_LOAD` header brings into memory. -/
def paddrBytes (file file' : List UInt8) (base : BitVec w) (phdrs : List (ElfPhdr w)) :
    Set (BitVec w) :=
  { a | ∃ phdr ∈ phdrs, phdr.pType = ptLoad ∧ ∃ k,
    (k < phdr.createSegment.len.toNat ∨ k < phdr.createSegment.contentSize.toNat) ∧
    file'[(rounddown phdr.pOffset (pageSize w)).toNat + k]? ≠
      file[(rounddown phdr.pOffset (pageSize w)).toNat + k]? ∧
    a = base + rounddown phdr.pVaddr (pageSize w) + BitVec.ofNat w k }

section Steps

variable {M M' : Mmap w K} {R R' : ElfReader w O} {file file' : List UInt8}
  {T : Set (BitVec w)} {s s' : LoadState w K O}

/-- Two runs that both return the same value and agree off `T`. -/
abbrev SameRun (T : Set (BitVec w)) (r r' : EStateM.Result Halt (LoadState w K O) α) : Prop :=
  Exec.Follows (Agrees T) (fun a a' => a' = a) r r'

theorem sameRun_record (c : MemCall w) (h : Agrees T s s') :
    SameRun T (Load.record c s) (Load.record c s') := by
  refine (Exec.Follows.modify ?_).mono (fun _ _ h => h) fun _ _ _ => rfl
  exact ⟨h.os, h.object, by simp only [h.calls]⟩

theorem sameRun_modifyMem {f f' : Bytes w → Bytes w} (h : Agrees T s s')
    (hf : ∀ a ∉ T, f' s'.os.mem a = f s.os.mem a) :
    SameRun T (Load.modifyMem f s) (Load.modifyMem f' s') := by
  refine (Exec.Follows.modify ?_).mono (fun _ _ h => h) fun _ _ _ => rfl
  exact ⟨⟨h.os.kernel, hf⟩, h.object, h.calls⟩

theorem sameRun_onOs {x x' : EStateM Halt (OsState w K) α} (h : Agrees T s s')
    (hx : ∀ a os₁, x s.os = .ok a os₁ → ∃ os₁', x' s'.os = .ok a os₁' ∧ AgreeOff T os₁ os₁') :
    SameRun T (Load.onOs x s) (Load.onOs x' s') := by
  intro a t ht
  obtain ⟨os₁, hrun, rfl⟩ := Load.onOs_ok_iff.mp ht
  obtain ⟨os₁', hrun', hagree⟩ := hx a os₁ hrun
  exact ⟨a, { s' with os := os₁' }, Load.onOs_ok_iff.mpr ⟨os₁', hrun', rfl⟩, rfl, hagree, h.object,
    h.calls⟩

theorem sameRun_lift (r : Except Halt α) (h : Agrees T s s') :
    SameRun T (Exec.lift r s) (Exec.lift r s') :=
  Exec.Follows.lift (fun a ha => ⟨a, ha, rfl⟩) h

theorem sameRun_pure (a : α) (h : Agrees T s s') :
    SameRun T ((pure a : Load w K O α) s) ((pure a : Load w K O α) s') :=
  Exec.Follows.pure rfl h

/-! Segments. -/

/-- A segment with one piece of the file from its first byte on, whose differing
bytes lie in `T`. -/
structure OnePiece (file file' : List UInt8) (T : Set (BitVec w)) (addr : BitVec w)
    (seg : ElfSegment w) (info : FileMapInfo w) : Prop where
  mapInfo : seg.mapInfo = [info]
  start : info.start = 0
  addr_eq : seg.addr = .absolute addr
  differs : ∀ k, (k < seg.len.toNat ∨ k < info.filesz.toNat) →
    file'[info.offset.toNat + k]? ≠ file[info.offset.toNat + k]? → addr + BitVec.ofNat w k ∈ T

theorem sameRun_mmapSegment (hM : SameMapping M M' file file') (hR : SameReader R R')
    {addr : BitVec w} {seg : ElfSegment w} {info : FileMapInfo w}
    (hseg : OnePiece file file' T addr seg info) (h : Agrees T s s') :
    SameRun T (seg.mmapSegment M R s) (seg.mmapSegment M' R' s') := by
  unfold ElfSegment.mmapSegment
  rw [hseg.addr_eq, hseg.mapInfo]
  refine Exec.Follows.bind (sameRun_lift _ h) ?_
  rintro a _ t t' ha rfl hagree
  cases ha
  refine Exec.Follows.bind (Exec.Follows.get hagree) ?_
  rintro u u' t t' hu hobject hagree
  cases hu
  refine Exec.Follows.bind (sameRun_record _ hagree) ?_
  rintro _ _ t₁ t₁' _ _ hagree
  rw [hobject.object, hR.asFd]
  refine Exec.Follows.bind (sameRun_onOs hagree fun r os₁ hrun =>
    hM.mmap hrun hagree.os fun k hk => hseg.differs k (.inl hk)) ?_
  rintro mapped _ t₂ t₂' _ rfl hagree
  exact sameRun_pure _ hagree

theorem write_agrees {m m' : Bytes w} {addr : BitVec w} {bytes bytes' : List UInt8}
    (hm : ∀ a ∉ T, m' a = m a)
    (hbytes : ∀ k < bytes.length, bytes'[k]? ≠ bytes[k]? → addr + BitVec.ofNat w k ∈ T)
    (hlen : bytes'.length = bytes.length) :
    ∀ a ∉ T, write m' addr bytes' a = write m addr bytes a := by
  intro a ha
  by_cases hin : Within addr bytes.length a
  · have hsame : bytes'[(a - addr).toNat]? = bytes[(a - addr).toNat]? := by
      by_contra hne
      apply ha
      have haddr : addr + BitVec.ofNat w (a - addr).toNat = a := by
        rw [BitVec.ofNat_toNat, BitVec.setWidth_eq]
        grind
      rw [← haddr]
      exact hbytes _ hin hne
    simp only [write, hsame]
    split
    · rfl
    · exact hm a ha
  · rw [write_of_not_within hin, write_of_not_within (by rwa [hlen])]
    exact hm a ha

theorem fill_agrees {m m' : Bytes w} (hm : ∀ a ∉ T, m' a = m a) (start : BitVec w) (len : Nat)
    (b : UInt8) : ∀ a ∉ T, fill m' start len b a = fill m start len b a := by
  intro a ha
  unfold fill
  split
  · rfl
  · exact hm a ha

/-- A read of both files, byte by byte. -/
theorem read_both (hR : SameReader R R') (hfile : ReadsFile R file) (hfile' : ReadsFile R' file')
    {len : Nat} {offset : BitVec w} {o o₁ : O} {bytes : List UInt8}
    (hread : R.read len offset o = .ok bytes o₁) :
    ∃ bytes', R'.read len offset o = .ok bytes' o₁ ∧ bytes.length = len ∧ bytes'.length = len ∧
      (∀ k < len, bytes[k]? = file[offset.toNat + k]?) ∧
      ∀ k < len, bytes'[k]? = file'[offset.toNat + k]? := by
  obtain ⟨bytes', hread'⟩ := hR.read hread
  obtain ⟨hbytes, hlen⟩ := hfile.read hread
  obtain ⟨hbytes', hlen'⟩ := hfile'.read hread'
  refine ⟨bytes', hread', hlen, hlen', ?_, ?_⟩
  · intro k hk
    rw [hbytes, List.getElem?_take, if_pos hk, List.getElem?_drop]
  · intro k hk
    rw [hbytes', List.getElem?_take, if_pos hk, List.getElem?_drop]

theorem sameRun_copyData (hR : SameReader R R') (hfile : ReadsFile R file)
    (hfile' : ReadsFile R' file') {addr : BitVec w} {seg : ElfSegment w} {info : FileMapInfo w}
    (hseg : OnePiece file file' T addr seg info) (h : Agrees T s s') :
    SameRun T (seg.copyData R s) (seg.copyData R' s') := by
  unfold ElfSegment.copyData
  split
  · rw [hseg.addr_eq, hseg.mapInfo]
    refine Exec.Follows.bind (sameRun_lift _ h) ?_
    rintro ptr _ t t' hptr rfl hagree
    cases hptr
    refine Exec.Follows.bind (S := Agrees T) (V := fun a a' => a' = a) ?_
      fun u _ t₁ t₁' _ hu hagree => by
        subst hu
        exact sameRun_pure _ hagree
    unfold ElfSegment.copyInfo
    refine Exec.Follows.bind (sameRun_record _ hagree) ?_
    rintro _ _ t₁ t₁' _ _ hagree
    refine Exec.Follows.bind (S := Agrees T) (V := fun bytes bytes' =>
      bytes.length = info.filesz.toNat ∧ bytes'.length = info.filesz.toNat ∧
        (∀ k < info.filesz.toNat, bytes[k]? = file[info.offset.toNat + k]?) ∧
        ∀ k < info.filesz.toNat, bytes'[k]? = file'[info.offset.toNat + k]?) ?_ ?_
    · intro bytes t₂ hread
      obtain ⟨o, hobject, rfl⟩ := Load.onObject_ok_iff.mp hread
      obtain ⟨bytes', hread', hboth⟩ := read_both hR hfile hfile' hobject
      rw [← hagree.object] at hread'
      exact ⟨bytes', _, Load.onObject_ok_iff.mpr ⟨o, hread', rfl⟩, hboth, hagree.os, rfl,
        hagree.calls⟩
    · rintro bytes bytes' t₂ t₂' _ ⟨hlen, hlen', hbytes, hbytes'⟩ hagree
      refine sameRun_modifyMem hagree (write_agrees hagree.os.mem ?_ (by rw [hlen, hlen']))
      intro k hk hne
      rw [hlen] at hk
      rw [hbytes k hk, hbytes' k hk] at hne
      have hzero : addr + info.start = addr := by
        rw [hseg.start]
        exact BitVec.add_zero addr
      rw [hzero]
      exact hseg.differs k (.inr hk) hne
  · exact sameRun_pure _ h

theorem sameRun_fillZero (hM : SameMapping M M' file file') (seg : ElfSegment w)
    (h : Agrees T s s') : SameRun T (seg.fillZero M s) (seg.fillZero M' s') := by
  unfold ElfSegment.fillZero
  split
  · refine Exec.Follows.bind (sameRun_lift _ h) ?_
    rintro addr _ t t' _ rfl hagree
    refine Exec.Follows.bind (sameRun_record _ hagree) ?_
    rintro _ _ t₁ t₁' _ _ hagree
    refine Exec.Follows.bind (sameRun_modifyMem hagree (fill_agrees hagree.os.mem _ _ _)) ?_
    rintro _ _ t₂ t₂' _ _ hagree
    split
    · refine Exec.Follows.bind (sameRun_record _ hagree) ?_
      rintro _ _ t₃ t₃' _ _ hagree
      refine Exec.Follows.bind (sameRun_onOs hagree fun p os₁ hrun =>
        hM.anonymous hrun hagree.os) ?_
      rintro _ _ t₄ t₄' _ _ hagree
      exact sameRun_pure _ hagree
    · exact sameRun_pure _ hagree
  · exact sameRun_pure _ h

theorem sameRun_mprotect (hM : SameMapping M M' file file') (seg : ElfSegment w)
    (h : Agrees T s s') : SameRun T (seg.mprotect M s) (seg.mprotect M' s') := by
  unfold ElfSegment.mprotect
  split
  · refine Exec.Follows.bind (sameRun_lift _ h) ?_
    rintro addr _ t t' _ rfl hagree
    refine Exec.Follows.bind (sameRun_lift _ hagree) ?_
    rintro ptr _ t t' _ rfl hagree
    refine Exec.Follows.bind (sameRun_record _ hagree) ?_
    rintro _ _ t₁ t₁' _ _ hagree
    exact sameRun_onOs hagree fun u os₁ hrun => hM.mprotect hrun hagree.os
  · exact sameRun_pure _ h

/-- The segment of a header of the table, at its place in the image. -/
theorem onePiece_createSegment {base : BitVec w} {phdrs : List (ElfPhdr w)} {phdr : ElfPhdr w}
    (hmem : phdr ∈ phdrs) (hload : phdr.pType = ptLoad) (hT : T = paddrBytes file file' base phdrs)
    (needCopy : Bool) :
    OnePiece file file' T (base + rounddown phdr.pVaddr (pageSize w))
      { phdr.createSegment with
        addr := .absolute (base + rounddown phdr.pVaddr (pageSize w)), needCopy }
      { start := 0, filesz := phdr.createSegment.contentSize
        offset := rounddown phdr.pOffset (pageSize w) } where
  mapInfo := rfl
  start := rfl
  addr_eq := rfl
  differs := by
    intro k hk hne
    rw [hT]
    exact ⟨phdr, hmem, hload, k, hk, hne, rfl⟩

theorem sameRun_load (hM : SameMapping M M' file file') (hR : SameReader R R')
    (hfile : ReadsFile R file) (hfile' : ReadsFile R' file') {base : BitVec w}
    {phdrs : List (ElfPhdr w)} {phdr : ElfPhdr w} (hmem : phdr ∈ phdrs)
    (hload : phdr.pType = ptLoad) (hT : T = paddrBytes file file' base phdrs)
    (h : Agrees T s s') :
    SameRun T (phdr.createSegment.load M R base s) (phdr.createSegment.load M' R' base s') := by
  unfold ElfSegment.load
  refine Exec.Follows.bind (sameRun_lift _ h) ?_
  rintro seg _ t t' hseg rfl hagree
  cases hseg
  have hpiece : ∀ needCopy, OnePiece file file' T _ _ _ :=
    fun needCopy => onePiece_createSegment hmem hload hT needCopy
  refine Exec.Follows.bind (sameRun_mmapSegment hM hR (hpiece false) hagree) ?_
  rintro seg _ t t' hseg rfl hagree
  obtain ⟨-, needCopy, -, -, rfl⟩ := mmapSegment_ok rfl rfl hseg
  refine Exec.Follows.bind (sameRun_copyData hR hfile hfile' (hpiece needCopy) hagree) ?_
  rintro _ _ t t' _ _ hagree
  refine Exec.Follows.bind (sameRun_fillZero hM _ hagree) ?_
  rintro _ _ t t' _ _ hagree
  exact sameRun_pure _ hagree

theorem sameRun_loadAll (hM : SameMapping M M' file file') (hR : SameReader R R')
    (hfile : ReadsFile R file) (hfile' : ReadsFile R' file') {base : BitVec w}
    {phdrs loads : List (ElfPhdr w)} (hsub : ∀ phdr ∈ loads, phdr ∈ phdrs ∧ phdr.pType = ptLoad)
    (hT : T = paddrBytes file file' base phdrs) (h : Agrees T s s') :
    SameRun T (ElfSegment.loadAll M R base (loads.map ElfPhdr.createSegment) s)
      (ElfSegment.loadAll M' R' base (loads.map ElfPhdr.createSegment) s') := by
  induction loads generalizing s s' with
  | nil => exact sameRun_pure _ h
  | cons phdr loads ih =>
      obtain ⟨hmem, hload⟩ := hsub phdr List.mem_cons_self
      refine Exec.Follows.bind (sameRun_load hM hR hfile hfile' hmem hload hT h) ?_
      rintro seg _ t t' _ rfl hagree
      refine Exec.Follows.bind (ih (fun p hp => hsub p (List.mem_cons_of_mem phdr hp)) hagree) ?_
      rintro segs _ t t' _ rfl hagree
      exact sameRun_pure _ hagree

theorem sameRun_mprotectAll (hM : SameMapping M M' file file') (segs : List (ElfSegment w))
    (h : Agrees T s s') :
    SameRun T (ElfSegment.mprotectAll M segs s) (ElfSegment.mprotectAll M' segs s') := by
  refine (Exec.Follows.forM (fun seg _ t t' hagree => ?_) h).mono (fun _ _ h => h) fun _ _ _ => rfl
  exact (sameRun_mprotect hM seg hagree).mono (fun _ _ h => h) fun _ _ _ => trivial

/-- The space is reserved in the same place and the segments of both files are
loaded alike. -/
theorem loadSegments_same {ps : ProgramSegments w} {space : ElfSegments w}
    {segs : List (ElfSegment w)} {t : LoadState w K O}
    (h : ps.loadSegments M R s = .ok (space, segs) t) (ps' : ProgramSegments w)
    (hM : SameMapping M M' file file') (hR : SameReader R R') (hfile : ReadsFile R file)
    (hfile' : ReadsFile R' file') (hphdrs : SamePhdrs ps.phdrs ps'.phdrs)
    (hdylib : ps'.isDylib = ps.isDylib) (huse : ps'.useFile = ps.useFile) :
    ∃ t', ps'.loadSegments M' R' s = .ok (space, segs) t' ∧
      Agrees (paddrBytes file file' space.base ps.phdrs) t t' := by
  obtain ⟨space₁, s₁, hspace, h⟩ := Exec.bind_ok_iff.mp h
  obtain ⟨created, s₂, hcreated, h⟩ := Exec.bind_ok_iff.mp h
  cases hcreated
  obtain ⟨segments, s₃, hall, hret⟩ := Exec.bind_ok_iff.mp h
  cases hret
  have hspace' : ps'.createSpace M' s = .ok space s₁ := by
    obtain ⟨p, os, hreserve, rfl, rfl⟩ := ProgramSegments.createSpace_ok_iff.mp hspace
    apply ProgramSegments.createSpace_ok_iff.mpr
    simp only [hphdrs.parseSegments_eq, hdylib, huse]
    exact ⟨p, os, hM.reserve hreserve, rfl, rfl⟩
  -- from here on the two memories may differ in the bytes that the segments bring in
  obtain ⟨_, t', hall', rfl, hagree⟩ := sameRun_loadAll hM hR hfile hfile'
    (fun phdr hphdr => by simpa [ProgramSegments.loads] using hphdr) rfl (Agrees.refl _ _) _ _ hall
  have hloads : ps'.loads.map ElfPhdr.createSegment = ps.loads.map ElfPhdr.createSegment :=
    hphdrs.segments_eq
  refine ⟨t', ?_, hagree⟩
  unfold ProgramSegments.loadSegments loadSegments ProgramSegments.createSegments
  rw [Exec.bind_of_ok hspace', hloads, pure_bind, Exec.bind_of_ok hall']
  rfl

end Steps

/-! ## The builder -/

/-- `p_paddr` of the last `PT_DYNAMIC` header. -/
def dynamicPaddr (phdrs : List (ElfPhdr w)) : Option (BitVec w) :=
  ((phdrs.filter fun phdr => phdr.pType = ptDynamic).getLast?).map ElfPhdr.pPaddr

theorem dynamicPaddr_cons (phdr : ElfPhdr w) (phdrs : List (ElfPhdr w)) :
    dynamicPaddr (phdr :: phdrs) = (dynamicPaddr phdrs).or
      (if phdr.pType = ptDynamic then some phdr.pPaddr else none) := by
  unfold dynamicPaddr
  split
  · rename_i htype
    rw [List.filter_cons_of_pos (by simpa using htype), List.getLast?_cons]
    cases (phdrs.filter fun phdr => phdr.pType = ptDynamic).getLast? with
    | none => rfl
    | some last => rfl
  · rename_i htype
    rw [List.filter_cons_of_neg (by simpa using htype), Option.or_none]

/-- A hook of the user that does not look at `p_paddr`. -/
def HookIgnoresPaddr (hook : LoadHook w D) : Prop :=
  ∀ name phdr segs userData, hook name phdr segs userData = hook name phdr.erasePaddr segs userData

namespace ImageBuilder

variable {b b' b₁ b₁' : ImageBuilder w D} {phdr phdr' : ElfPhdr w} {phdrs phdrs' : List (ElfPhdr w)}

/-- The same builder up to the pointer to the dynamic section. -/
def SameButDynamic (b b' : ImageBuilder w D) : Prop := b' = { b with dynamicPtr := b'.dynamicPtr }

theorem SameButDynamic.refl (b : ImageBuilder w D) : SameButDynamic b b := rfl

theorem storePhdr_dynamic (h : b.storePhdr phdr = .ok b₁) (htype : phdr.pType = ptDynamic) :
    b.segments.getPtr phdr.pPaddr ≠ 0 ∧
      b₁ = { b with dynamicPtr := some (b.segments.getPtr phdr.pPaddr) } := by
  unfold storePhdr at h
  rw [if_pos htype] at h
  obtain ⟨ptr, hptr, hret⟩ := Exec.except_bind_ok_iff.mp h
  unfold nonNull at hptr
  split at hptr
  · cases hptr
  · cases hptr
    cases hret
    exact ⟨‹_›, rfl⟩

theorem storePhdr_of_nonNull (htype : phdr.pType = ptDynamic)
    (hptr : b.segments.getPtr phdr.pPaddr ≠ 0) :
    b.storePhdr phdr = .ok { b with dynamicPtr := some (b.segments.getPtr phdr.pPaddr) } := by
  unfold storePhdr nonNull
  rw [if_pos htype, if_neg hptr]
  rfl

/-- No other header looks at `p_paddr` or at the pointer stored so far. -/
theorem storePhdr_other (htype : phdr.pType ≠ ptDynamic) (p : BitVec w) (ptr : Option (BitVec w)) :
    ({ b with dynamicPtr := ptr } : ImageBuilder w D).storePhdr { phdr with pPaddr := p } =
      (b.storePhdr phdr).map fun b₁ => { b₁ with dynamicPtr := ptr } := by
  unfold storePhdr
  rw [if_neg htype, if_neg htype]
  split
  · rfl
  · split
    · rfl
    · split
      · cases nonNull (b.segments.getPtr phdr.pVaddr) with
        | ok q => rfl
        | error e => rfl
      · rfl

theorem storePhdr_dynamicPtr (h : b.storePhdr phdr = .ok b₁) (htype : phdr.pType ≠ ptDynamic) :
    b₁.dynamicPtr = b.dynamicPtr := by
  have hmap : b.storePhdr phdr = (b.storePhdr phdr).map _ :=
    storePhdr_other htype phdr.pPaddr b.dynamicPtr
  rw [h] at hmap
  rw [Except.ok.inj hmap]

theorem parsePhdr_ok (h : b.parsePhdr phdr = .ok b₁) :
    ∃ userData, b.hook b.name phdr b.segments b.userData = .ok userData ∧
      ({ b with userData } : ImageBuilder w D).storePhdr phdr = .ok b₁ := by
  unfold parsePhdr at h
  cases hhook : b.hook b.name phdr b.segments b.userData with
  | error e =>
      rw [hhook] at h
      cases h
  | ok userData =>
      rw [hhook] at h
      exact ⟨userData, rfl, h⟩

/-- The pointer to the dynamic section after the loop: `p_paddr` of the last
`PT_DYNAMIC` header, and none of them is null. -/
theorem parsePhdrs_dynamicPtr (h : List.foldlM parsePhdr b phdrs = .ok b₁) :
    b₁.dynamicPtr = ((dynamicPaddr phdrs).map b.segments.getPtr).or b.dynamicPtr ∧
      ∀ phdr ∈ phdrs, phdr.pType = ptDynamic → b.segments.getPtr phdr.pPaddr ≠ 0 := by
  induction phdrs generalizing b with
  | nil =>
      cases h
      exact ⟨rfl, by simp⟩
  | cons phdr phdrs ih =>
      rw [List.foldlM_cons] at h
      obtain ⟨b₂, hphdr, hrest⟩ := Exec.except_bind_ok_iff.mp h
      obtain ⟨hptr, hnull⟩ := ih hrest
      rw [(parsePhdr_frame hphdr).segments] at hptr hnull
      obtain ⟨userData, -, hstore⟩ := parsePhdr_ok hphdr
      rw [hptr, dynamicPaddr_cons]
      by_cases htype : phdr.pType = ptDynamic
      · obtain ⟨hne, rfl⟩ := storePhdr_dynamic hstore htype
        constructor
        · rw [if_pos htype]
          cases dynamicPaddr phdrs with
          | none => rfl
          | some p => rfl
        · rintro q (_ | ⟨_, hq⟩) hdyn
          · exact hne
          · exact hnull q hq hdyn
      · have hkeep := storePhdr_dynamicPtr hstore htype
        constructor
        · rw [if_neg htype, Option.or_none, hkeep]
        · rintro q (_ | ⟨_, hq⟩) hdyn
          · exact absurd hdyn htype
          · exact hnull q hq hdyn

theorem parsePhdr_same (hhook : HookIgnoresPaddr b.hook) (hb : SameButDynamic b b')
    (hphdr : phdr'.erasePaddr = phdr.erasePaddr) (h : b.parsePhdr phdr = .ok b₁)
    (hnull : phdr'.pType = ptDynamic → b.segments.getPtr phdr'.pPaddr ≠ 0) :
    ∃ b₁', b'.parsePhdr phdr' = .ok b₁' ∧ SameButDynamic b₁ b₁' := by
  obtain ⟨userData, hcall, hstore⟩ := parsePhdr_ok h
  have hphdr' : phdr' = { phdr with pPaddr := phdr'.pPaddr } := by
    have hfields := ElfPhdr.mk.inj hphdr
    cases phdr'
    cases phdr
    simp only at hfields
    simp [hfields]
  have hcall' : b'.hook b'.name phdr' b'.segments b'.userData = .ok userData := by
    rw [hb]
    change b.hook b.name phdr' b.segments b.userData = _
    rw [hhook, hphdr, ← hhook, hcall]
  have hparse : b'.parsePhdr phdr' =
      ({ b' with userData } : ImageBuilder w D).storePhdr phdr' := by
    simp only [parsePhdr, hcall']
  rw [hparse]
  by_cases htype : phdr.pType = ptDynamic
  · obtain ⟨-, rfl⟩ := storePhdr_dynamic hstore htype
    have htype' : phdr'.pType = ptDynamic := by
      rw [hphdr']
      exact htype
    refine ⟨_, storePhdr_of_nonNull htype' ?_, ?_⟩
    · rw [hb]
      exact hnull htype'
    · unfold SameButDynamic
      rw [hb]
  · have hother := storePhdr_other (b := { b with userData }) htype phdr'.pPaddr b'.dynamicPtr
    rw [hstore, ← hphdr'] at hother
    rw [hb]
    exact ⟨_, hother, rfl⟩

theorem parsePhdrs_same (hhook : HookIgnoresPaddr b.hook) (hb : SameButDynamic b b')
    (hphdrs : SamePhdrs phdrs phdrs') (h : List.foldlM parsePhdr b phdrs = .ok b₁)
    (hnull : ∀ phdr ∈ phdrs', phdr.pType = ptDynamic → b.segments.getPtr phdr.pPaddr ≠ 0) :
    ∃ b₁', List.foldlM parsePhdr b' phdrs' = .ok b₁' ∧ SameButDynamic b₁ b₁' := by
  induction phdrs generalizing b b' phdrs' with
  | nil =>
      cases h
      obtain rfl : phdrs' = [] := List.map_eq_nil_iff.mp hphdrs
      exact ⟨b', rfl, hb⟩
  | cons phdr phdrs ih =>
      obtain ⟨phdr', rest, rfl, hphdr, hrest⟩ := List.map_eq_cons_iff.mp hphdrs
      rw [List.foldlM_cons] at h
      obtain ⟨b₂, hparse, hfold⟩ := Exec.except_bind_ok_iff.mp h
      obtain ⟨b₂', hparse', hb₂⟩ :=
        parsePhdr_same hhook hb hphdr hparse (hnull phdr' List.mem_cons_self)
      have hframe := parsePhdr_frame hparse
      obtain ⟨b₁', hfold', hb₁⟩ := ih (by rwa [hframe.hook]) hb₂ hrest hfold (by
        rw [hframe.segments]
        exact fun p hp => hnull p (List.mem_cons_of_mem _ hp))
      refine ⟨b₁', ?_, hb₁⟩
      rw [List.foldlM_cons]
      exact Exec.except_bind_ok_iff.mpr ⟨b₂', hparse', hfold'⟩

/-- The interpreter pointer is the address of some `PT_INTERP` header. -/
theorem storePhdr_interp (h : b.storePhdr phdr = .ok b₁) {ptr : BitVec w}
    (hptr : b₁.interp = some ptr) :
    b.interp = some ptr ∨ phdr.pType = ptInterp ∧ ptr = b.segments.getPtr phdr.pVaddr := by
  unfold storePhdr at h
  split at h
  · obtain ⟨q, -, hret⟩ := Exec.except_bind_ok_iff.mp h
    cases hret
    exact .inl hptr
  · split at h
    · cases h
      exact .inl hptr
    · split at h
      · cases h
        exact .inl hptr
      · split at h
        · rename_i htype
          obtain ⟨q, hq, hret⟩ := Exec.except_bind_ok_iff.mp h
          cases hret
          cases hptr
          unfold nonNull at hq
          split at hq
          · cases hq
          · cases hq
            exact .inr ⟨htype, rfl⟩
        · cases h
          exact .inl hptr

theorem parsePhdrs_interp (h : List.foldlM parsePhdr b phdrs = .ok b₁) {ptr : BitVec w}
    (hptr : b₁.interp = some ptr) :
    b.interp = some ptr ∨
      ∃ phdr ∈ phdrs, phdr.pType = ptInterp ∧ ptr = b.segments.getPtr phdr.pVaddr := by
  induction phdrs generalizing b with
  | nil =>
      cases h
      exact .inl hptr
  | cons phdr phdrs ih =>
      rw [List.foldlM_cons] at h
      obtain ⟨b₂, hparse, hrest⟩ := Exec.except_bind_ok_iff.mp h
      rcases ih hrest with hbefore | ⟨q, hq, htype, heq⟩
      · obtain ⟨userData, -, hstore⟩ := parsePhdr_ok hparse
        rcases storePhdr_interp hstore hbefore with hold | ⟨htype, heq⟩
        · exact .inl hold
        · exact .inr ⟨phdr, List.mem_cons_self, htype, heq⟩
      · rw [(parsePhdr_frame hparse).segments] at heq
        exact .inr ⟨q, List.mem_cons_of_mem _ hq, htype, heq⟩

end ImageBuilder

/-! ## The interpreter path -/

theorem cStr_agrees {T : Set (BitVec w)} {m m' : Bytes w} (hm : ∀ a ∉ T, m' a = m a) {fuel : Nat}
    {ptr : BitVec w} {path : Name} (h : cStr m fuel ptr = .ok path)
    (hclear : ∀ i ≤ path.length, ptr + BitVec.ofNat w i ∉ T) : cStr m' fuel ptr = .ok path := by
  induction fuel generalizing ptr path with
  | zero => cases h
  | succ fuel ih =>
      have hzero : ptr + BitVec.ofNat w 0 = ptr := by simp
      have hfirst : m' ptr = m ptr := by
        apply hm
        rw [← hzero]
        exact hclear 0 (Nat.zero_le _)
      unfold cStr at h ⊢
      rw [hfirst]
      split
      · rename_i hend
        rw [if_pos hend] at h
        exact h
      · rename_i hend
        rw [if_neg hend] at h
        obtain ⟨rest, hrest, rfl⟩ := Exec.except_map_ok_iff.mp h
        rw [ih hrest]
        · rfl
        · intro i hi
          have hnext : ptr + 1 + BitVec.ofNat w i = ptr + BitVec.ofNat w (i + 1) := by
            rw [BitVec.ofNat_add]
            grind
          rw [hnext]
          exact hclear (i + 1) (Nat.succ_le_succ hi)

/-- No byte of an interpreter path in memory, up to its terminator, lies in `T`. -/
def PathClear (T : Set (BitVec w)) (m : Bytes w) (base : BitVec w) (phdrs : List (ElfPhdr w)) :
    Prop :=
  ∀ phdr ∈ phdrs, phdr.pType = ptInterp → ∀ path,
    cStr m (2 ^ w) (base + phdr.pVaddr) = .ok path →
      ∀ i ≤ path.length, base + phdr.pVaddr + BitVec.ofNat w i ∉ T

theorem readInterp_agrees {T : Set (BitVec w)} {m m' : Bytes w} (hm : ∀ a ∉ T, m' a = m a)
    {ptr : Option (BitVec w)} {path : Option Name} (h : readInterp m ptr = .ok path)
    (hclear : ∀ p ∈ ptr, ∀ bytes, cStr m (2 ^ w) p = .ok bytes →
      ∀ i ≤ bytes.length, p + BitVec.ofNat w i ∉ T) : readInterp m' ptr = .ok path := by
  cases ptr with
  | none => exact h
  | some p =>
      obtain ⟨bytes, hinterp, rfl⟩ := Exec.except_map_ok_iff.mp h
      obtain ⟨chars, hchars, hvalid⟩ := Exec.except_bind_ok_iff.mp hinterp
      have hchars' := cStr_agrees hm hchars (hclear p rfl chars hchars)
      have hinterp' : interpStr m' p = .ok bytes := by
        unfold interpStr
        rw [hchars']
        exact hvalid
      exact Exec.except_map_ok_iff.mpr ⟨bytes, hinterp', rfl⟩

/-! ## Whole loads -/

namespace Loader

variable {L : Loader w K D} {M' : Mmap w K} {R R' : ElfReader w O} {file file' : List UInt8}
  {name : Name} {ehdr : Ehdr w} {phdrs phdrs' : List (ElfPhdr w)} {s : LoadState w K O}

theorem loadProgram_same (hM : SameMapping L.mmap M' file file') (hR : SameReader R R')
    (hfile : ReadsFile R file) (hfile' : ReadsFile R' file') (hphdrs : SamePhdrs phdrs phdrs')
    {segs : ElfSegments w} {t : LoadState w K O} (h : L.loadProgram R ehdr phdrs s = .ok segs t) :
    ∃ t', ({ L with mmap := M' } : Loader w K D).loadProgram R' ehdr phdrs' s = .ok segs t' ∧
      Agrees (paddrBytes file file' segs.base phdrs) t t' := by
  unfold loadProgram at h ⊢
  rw [Exec.bind_of_ok (Exec.get_apply s)] at h ⊢
  obtain ⟨⟨space, segments⟩, s₁, hload, h⟩ := Exec.bind_ok_iff.mp h
  obtain ⟨_, s₂, hprotect, hret⟩ := Exec.bind_ok_iff.mp h
  cases hret
  obtain ⟨s₁', hload', hagree⟩ := loadSegments_same hload
    ⟨phdrs', ehdr.isDylib, (R'.asFd s.object).isSome⟩ hM hR hfile hfile' hphdrs rfl
    (congrArg Option.isSome (hR.asFd s.object))
  obtain ⟨_, t', hprotect', rfl, hagree⟩ := sameRun_mprotectAll hM segments hagree _ _ hprotect
  refine ⟨t', ?_, hagree⟩
  rw [Exec.bind_of_ok hload', Exec.bind_of_ok hprotect']
  rfl

end Loader

/-! ## Images up to `p_paddr` -/

inductive SameElfPhdrs : ElfPhdrs w → ElfPhdrs w → Prop where
  | mmap (slice : Slice w) : SameElfPhdrs (.mmap slice) (.mmap slice)
  | vec {phdrs phdrs' : List (ElfPhdr w)} (h : SamePhdrs phdrs phdrs') :
      SameElfPhdrs (.vec phdrs) (.vec phdrs')

structure SameImage (image image' : UninitImage w D) : Prop where
  entry : image'.entry = image.entry
  interp : image'.interp = image.interp
  name : image'.name = image.name
  phdrs : SameElfPhdrs image.phdrs image'.phdrs
  dynamicPtr : image'.dynamicPtr = image.dynamicPtr
  segments : image'.segments = image.segments
  relro : image'.relro = image.relro
  userData : image'.userData = image.userData

/-- The same image; relocatable objects have no program headers and are not
compared. -/
def SameRaw : RawElf w D → RawElf w D → Prop
  | .dylib image, .dylib image' => SameImage image image'
  | .exec (.dynamic image), .exec (.dynamic image') => SameImage image image'
  | .exec (.static image), .exec (.static image') => image' = image
  | _, _ => False

/-- The base of the segments that the image owns. -/
def RawElf.base : RawElf w D → BitVec w
  | .dylib image => image.segments.base
  | .exec image => image.base
  | .object parts => parts.space.base

/-- The dynamic section is found at the same place in both files. -/
structure SameDynamic (base : BitVec w) (phdrs phdrs' : List (ElfPhdr w)) : Prop where
  last : dynamicPaddr phdrs' = dynamicPaddr phdrs
  nonNull : ∀ phdr ∈ phdrs', phdr.pType = ptDynamic → base + phdr.pPaddr ≠ 0

theorem sameDynamic_of_none {base : BitVec w} {phdrs phdrs' : List (ElfPhdr w)}
    (h : hasType ptDynamic phdrs = false) (h' : hasType ptDynamic phdrs' = false) :
    SameDynamic base phdrs phdrs' := by
  have hnone : ∀ phdrs : List (ElfPhdr w), hasType ptDynamic phdrs = false →
      ∀ phdr ∈ phdrs, phdr.pType ≠ ptDynamic := by
    intro phdrs hphdrs
    simpa [hasType] using hphdrs
  have hlast : ∀ phdrs : List (ElfPhdr w), hasType ptDynamic phdrs = false →
      dynamicPaddr phdrs = none := by
    intro phdrs hphdrs
    unfold dynamicPaddr
    rw [List.filter_eq_nil_iff.mpr (by simpa using hnone phdrs hphdrs)]
    rfl
  refine ⟨by rw [hlast phdrs h, hlast phdrs' h'], fun phdr hmem hdyn => ?_⟩
  exact absurd hdyn (hnone phdrs' h' phdr hmem)

namespace ImageBuilder

variable {b : ImageBuilder w D} {phdrs phdrs' : List (ElfPhdr w)} {T : Set (BitVec w)}
  {m m' : Bytes w} {image : UninitImage w D}

theorem createPhdrs_same (b : ImageBuilder w D) (h : SamePhdrs phdrs phdrs') :
    SameElfPhdrs (b.createPhdrs phdrs) (b.createPhdrs phdrs') := by
  unfold createPhdrs
  rw [h.findPhdrs_eq]
  cases b.phdrMmap.or (b.findPhdrs phdrs) with
  | none => exact .vec h
  | some slice => exact .mmap slice

/-- The image that a builder is turned into. -/
def finish (b : ImageBuilder w D) (phdrs : List (ElfPhdr w)) (dynamicPtr : BitVec w)
    (interp : Option Name) : UninitImage w D where
  entry := b.ehdr.eEntry + if b.ehdr.isDylib then b.segments.base else 0
  interp
  name := b.name
  phdrs := b.createPhdrs phdrs
  dynamicPtr
  segments := b.segments
  relro := b.relro
  userData := b.userData

theorem buildDynamic_ok_iff : b.buildDynamic m phdrs = .ok image ↔
    ∃ b₁ dynamicPtr interp, List.foldlM parsePhdr b phdrs = .ok b₁ ∧
      b₁.dynamicPtr = some dynamicPtr ∧ readInterp m b₁.interp = .ok interp ∧
      image = b₁.finish phdrs dynamicPtr interp := by
  constructor
  · intro h
    obtain ⟨b₁, hparse, h⟩ := Exec.except_bind_ok_iff.mp h
    cases hptr : b₁.dynamicPtr with
    | none =>
        simp only [hptr] at h
        cases h
    | some ptr =>
        simp only [hptr] at h
        obtain ⟨interp, hinterp, hret⟩ := Exec.except_bind_ok_iff.mp h
        cases hret
        exact ⟨b₁, ptr, interp, hparse, hptr, hinterp, rfl⟩
  · rintro ⟨b₁, ptr, interp, hparse, hptr, hinterp, rfl⟩
    refine Exec.except_bind_ok_iff.mpr ⟨b₁, hparse, ?_⟩
    simp only [hptr]
    exact Exec.except_bind_ok_iff.mpr ⟨interp, hinterp, rfl⟩

/-- The pointer to the dynamic section of a finished image. -/
theorem buildDynamic_dynamicPtr (hnew : b.dynamicPtr = none)
    (h : b.buildDynamic m phdrs = .ok image) :
    (dynamicPaddr phdrs).map b.segments.getPtr = some image.dynamicPtr ∧
      ∀ phdr ∈ phdrs, phdr.pType = ptDynamic → b.segments.getPtr phdr.pPaddr ≠ 0 := by
  obtain ⟨b₁, ptr, interp, hparse, hptr, -, rfl⟩ := buildDynamic_ok_iff.mp h
  obtain ⟨hlast, hnull⟩ := parsePhdrs_dynamicPtr hparse
  rw [hptr, hnew, Option.or_none] at hlast
  exact ⟨hlast.symm, hnull⟩

/-- The second file gives the same image exactly when its dynamic section is
found at the same place. -/
theorem buildDynamic_same_iff (hhook : HookIgnoresPaddr b.hook) (hptr : b.dynamicPtr = none)
    (hinterp : b.interp = none) (hphdrs : SamePhdrs phdrs phdrs') (hm : ∀ a ∉ T, m' a = m a)
    (hpath : PathClear T m b.segments.base phdrs) (h : b.buildDynamic m phdrs = .ok image) :
    (∃ image', b.buildDynamic m' phdrs' = .ok image' ∧ SameImage image image') ↔
      SameDynamic b.segments.base phdrs phdrs' := by
  obtain ⟨hlast, -⟩ := buildDynamic_dynamicPtr hptr h
  constructor
  · rintro ⟨image', h', hsame⟩
    obtain ⟨hlast', hnull'⟩ := buildDynamic_dynamicPtr hptr h'
    refine ⟨?_, hnull'⟩
    rw [hsame.dynamicPtr, ← hlast] at hlast'
    refine Option.map_injective ?_ hlast'
    intro p q hpq
    exact (BitVec.add_right_inj b.segments.base).mp hpq
  · intro hdyn
    obtain ⟨b₁, ptr, interp, hparse, hptr₁, hread, rfl⟩ := buildDynamic_ok_iff.mp h
    obtain ⟨b₁', hparse', hb⟩ :=
      parsePhdrs_same hhook (SameButDynamic.refl b) hphdrs hparse hdyn.nonNull
    have hptr' : b₁'.dynamicPtr = some ptr := by
      obtain ⟨hlast', -⟩ := parsePhdrs_dynamicPtr hparse'
      rw [hdyn.last, hlast, hptr] at hlast'
      exact hlast'
    have hread' : readInterp m' b₁'.interp = .ok interp := by
      rw [hb]
      refine readInterp_agrees hm hread fun p hp bytes hbytes => ?_
      rcases parsePhdrs_interp hparse hp with hnone | ⟨phdr, hmem, htype, rfl⟩
      · rw [hinterp] at hnone
        cases hnone
      · exact hpath phdr hmem htype bytes hbytes
    refine ⟨_, buildDynamic_ok_iff.mpr ⟨b₁', ptr, interp, hparse', hptr', hread', rfl⟩, ?_⟩
    obtain ⟨ptr', hptr₂⟩ : ∃ ptr', b₁' = { b₁ with dynamicPtr := ptr' } := ⟨_, hb⟩
    subst hptr₂
    exact ⟨rfl, rfl, rfl, createPhdrs_same b₁ hphdrs, rfl, rfl, rfl, rfl⟩

theorem buildStatic_same (hhook : HookIgnoresPaddr b.hook) (hphdrs : SamePhdrs phdrs phdrs')
    (htype : hasType ptDynamic phdrs' = false) {image : StaticImage w D}
    (h : b.buildStatic phdrs = .ok image) : b.buildStatic phdrs' = .ok image := by
  obtain ⟨b₁, hparse, hret⟩ := Exec.except_bind_ok_iff.mp h
  cases hret
  have hnone : ∀ phdr ∈ phdrs', phdr.pType ≠ ptDynamic := by
    simpa [hasType] using htype
  obtain ⟨b₁', hparse', hb⟩ := parsePhdrs_same hhook (SameButDynamic.refl b) hphdrs hparse
    fun phdr hmem hdyn => absurd hdyn (hnone phdr hmem)
  refine Exec.except_bind_ok_iff.mpr ⟨b₁', hparse', ?_⟩
  rw [hb]
  rfl

end ImageBuilder

/-- A loader on another file. -/
abbrev Loader.on (L : Loader w K D) (M' : Mmap w K) : Loader w K D := { L with mmap := M' }

/-- Everything that is the same about two loads. -/
structure SameSetting (L : Loader w K D) (M' : Mmap w K) (R R' : ElfReader w O)
    (file file' : List UInt8) : Prop where
  mapping : SameMapping L.mmap M' file file'
  reader : SameReader R R'
  reads : ReadsFile R file
  reads' : ReadsFile R' file'
  hook : HookIgnoresPaddr L.hook
  only : OnlyPaddr w file file'

namespace Loader

variable {L : Loader w K D} {M' : Mmap w K} {R R' : ElfReader w O} {file file' : List UInt8}
  {name : Name} {ehdr : Ehdr w} {phdrs phdrs' : List (ElfPhdr w)} {s s₁ t : LoadState w K O}

theorem loadDynamicImpl_same_iff (h : SameSetting L M' R R' file file')
    (hphdrs : SamePhdrs phdrs phdrs') {image : UninitImage w D}
    (hload : L.loadDynamicImpl R name ehdr phdrs s = .ok image t)
    (hpath : PathClear (paddrBytes file file' image.segments.base phdrs) t.os.mem
      image.segments.base phdrs) :
    (∃ image' t', (L.on M').loadDynamicImpl R' name ehdr phdrs' s = .ok image' t' ∧
        SameImage image image' ∧
        AgreeOff (paddrBytes file file' image.segments.base phdrs) t.os t'.os) ↔
      SameDynamic image.segments.base phdrs phdrs' := by
  obtain ⟨segs, s₁, hprogram, hload⟩ := Exec.bind_ok_iff.mp hload
  rw [Exec.bind_of_ok (Exec.get_apply s₁)] at hload
  obtain ⟨hbuild, rfl⟩ := Exec.lift_ok_iff.mp hload
  obtain ⟨t', hprogram', hagree⟩ :=
    loadProgram_same h.mapping h.reader h.reads h.reads' hphdrs hprogram
  have hsegs : image.segments = segs := (ImageBuilder.buildDynamic_entry hbuild).1
  rw [hsegs] at hpath ⊢
  have hrun : ∀ image' t₁, (L.on M').loadDynamicImpl R' name ehdr phdrs' s = .ok image' t₁ ↔
      (L.builder name ehdr segs).buildDynamic t'.os.mem phdrs' = .ok image' ∧ t₁ = t' := by
    intro image' t₁
    unfold loadDynamicImpl
    rw [Exec.bind_of_ok hprogram', Exec.bind_of_ok (Exec.get_apply t')]
    exact Exec.lift_ok_iff
  have hbuilds := ImageBuilder.buildDynamic_same_iff (b := L.builder name ehdr segs) h.hook rfl rfl
    hphdrs hagree.os.mem hpath hbuild
  refine Iff.trans ?_ hbuilds
  constructor
  · rintro ⟨image', t₁, hload', hsame, -⟩
    exact ⟨image', ((hrun image' t₁).mp hload').1, hsame⟩
  · rintro ⟨image', hbuild', hsame⟩
    exact ⟨image', t', (hrun image' t').mpr ⟨hbuild', rfl⟩, hsame, hagree.os⟩

theorem loadStaticImpl_same (h : SameSetting L M' R R' file file')
    (hphdrs : SamePhdrs phdrs phdrs') (htype : hasType ptDynamic phdrs = false)
    {image : StaticImage w D} (hload : L.loadStaticImpl R name ehdr phdrs s = .ok image t) :
    ∃ t', (L.on M').loadStaticImpl R' name ehdr phdrs' s = .ok image t' ∧
      AgreeOff (paddrBytes file file' image.segments.base phdrs) t.os t'.os := by
  obtain ⟨segs, s₁, hprogram, hload⟩ := Exec.bind_ok_iff.mp hload
  obtain ⟨hbuild, rfl⟩ := Exec.lift_ok_iff.mp hload
  obtain ⟨t', hprogram', hagree⟩ :=
    loadProgram_same h.mapping h.reader h.reads h.reads' hphdrs hprogram
  rw [(ImageBuilder.buildStatic_entry hbuild).1]
  refine ⟨t', ?_, hagree.os⟩
  unfold loadStaticImpl
  rw [Exec.bind_of_ok hprogram']
  refine Exec.lift_ok_iff.mpr ⟨?_, rfl⟩
  exact ImageBuilder.buildStatic_same h.hook hphdrs (by rw [hphdrs.hasType_eq, htype]) hbuild

/-! The headers. -/

theorem readEhdr_same (h : SameSetting L M' R R' file file')
    (hread : L.readEhdr R s = .ok ehdr s₁) :
    ehdr = fileEhdr file ∧ (L.on M').readEhdr R' s = .ok ehdr s₁ := by
  obtain ⟨o, hobject, rfl⟩ := Load.onObject_ok_iff.mp hread
  obtain ⟨buf, o₁, hbuf, hnew⟩ := Exec.bind_ok_iff.mp hobject
  obtain ⟨hheader, rfl⟩ := Exec.lift_ok_iff.mp hnew
  obtain ⟨buf', hbuf'⟩ := h.reader.read hbuf
  have hbuf_eq : buf = file.take (ehdrSize w) := by simpa using (h.reads.read hbuf).1
  have hbuf'_eq : buf' = file'.take (ehdrSize w) := by simpa using (h.reads'.read hbuf').1
  have hsame : buf' = buf := by rw [hbuf_eq, hbuf'_eq, h.only.take_eq]
  constructor
  · obtain ⟨-, -, hret⟩ := Exec.except_bind_ok_iff.mp hheader
    cases hret
    rw [hbuf_eq]
    rfl
  · refine Load.onObject_ok_iff.mpr ⟨o, Exec.bind_ok_iff.mpr ⟨buf', o, hbuf', ?_⟩, rfl⟩
    rw [hsame]
    exact Exec.lift_ok_iff.mpr ⟨hheader, rfl⟩

theorem readPhdr_same (h : SameSetting L M' R R' file file')
    (hread : readPhdr R (fileEhdr file) s = .ok phdrs s₁) :
    phdrs = filePhdrs file ∧ readPhdr R' (fileEhdr file) s = .ok (filePhdrs file') s₁ := by
  obtain ⟨o, hobject, rfl⟩ := Load.onObject_ok_iff.mp hread
  obtain ⟨buf, o₁, hbuf, hret⟩ := Exec.bind_ok_iff.mp hobject
  cases hret
  obtain ⟨buf', hbuf'⟩ := h.reader.read hbuf
  constructor
  · rw [(h.reads.read hbuf).1]
    rfl
  · refine Load.onObject_ok_iff.mpr ⟨o, Exec.bind_ok_iff.mpr ⟨buf', o, hbuf', ?_⟩, rfl⟩
    rw [(h.reads'.read hbuf').1]
    unfold filePhdrs
    rw [h.only.fileEhdr_eq]
    rfl

/-- `load` decides on the kind without `p_paddr`. -/
theorem dispatch_same [WordSize w] (h : SameSetting L M' R R' file file') {k : Kind}
    (hdispatch : L.dispatch R s = .ok k s₁) : (L.on M').dispatch R' s = .ok k s₁ := by
  obtain ⟨ehdr, s₂, hehdr, hrest⟩ := Exec.bind_ok_iff.mp hdispatch
  obtain ⟨rfl, hehdr'⟩ := readEhdr_same h hehdr
  refine Exec.bind_ok_iff.mpr ⟨_, s₂, hehdr', ?_⟩
  split at hrest
  · rename_i htype
    rw [if_pos htype]
    exact hrest
  · rename_i hrel
    rw [if_neg hrel]
    split at hrest
    · rename_i htype
      rw [if_pos htype]
      exact hrest
    · rename_i hexec
      rw [if_neg hexec]
      split at hrest
      · rename_i htype
        rw [if_pos htype]
        obtain ⟨phdrs, s₃, hphdrs, hret⟩ := Exec.bind_ok_iff.mp hrest
        obtain ⟨rfl, hphdrs'⟩ := readPhdr_same h hphdrs
        refine Exec.bind_ok_iff.mpr ⟨_, s₃, hphdrs', ?_⟩
        rw [h.only.filePhdrs_same.hasType_eq, h.only.filePhdrs_same.hasType_eq]
        exact hret
      · rename_i htype
        rw [if_neg htype]
        exact hrest

/-- The headers that a load of an image has read. -/
theorem loadKind_headers {k : Kind} (hk : k ≠ .object) {raw : RawElf w D}
    (hload : L.loadKind R name k s = .ok raw t) :
    ∃ ehdr s₁ phdrs s₂, L.readEhdr R s = .ok ehdr s₁ ∧ readPhdr R ehdr s₁ = .ok phdrs s₂ ∧
      (k = .exec → ehdr.isExecutable = true) := by
  cases k with
  | object => exact absurd rfl hk
  | dylib =>
      obtain ⟨image, s₁, hload, -⟩ := Exec.bind_ok_iff.mp hload
      obtain ⟨ehdr, s₂, hehdr, hload⟩ := Exec.bind_ok_iff.mp hload
      split at hload
      · obtain ⟨phdrs, s₃, hphdrs, -⟩ := Exec.bind_ok_iff.mp hload
        exact ⟨ehdr, s₂, phdrs, s₃, hehdr, hphdrs, by simp⟩
      · cases hload
  | exec =>
      obtain ⟨image, s₁, hload, -⟩ := Exec.bind_ok_iff.mp hload
      obtain ⟨ehdr, s₂, hehdr, hload⟩ := Exec.bind_ok_iff.mp hload
      split at hload
      · rename_i hexec
        obtain ⟨phdrs, s₃, hphdrs, -⟩ := Exec.bind_ok_iff.mp hload
        exact ⟨ehdr, s₂, phdrs, s₃, hehdr, hphdrs, fun _ => hexec⟩
      · cases hload

theorem loadKind_same_iff [WordSize w] (h : SameSetting L M' R R' file file') {k : Kind}
    (hk : k ≠ .object) {raw : RawElf w D} (hload : L.loadKind R name k s = .ok raw t)
    (hpath : PathClear (paddrBytes file file' raw.base (filePhdrs file)) t.os.mem raw.base
      (filePhdrs file)) :
    (∃ raw' t', (L.on M').loadKind R' name k s = .ok raw' t' ∧ SameRaw raw raw' ∧
        AgreeOff (paddrBytes file file' raw.base (filePhdrs file)) t.os t'.os) ↔
      SameDynamic raw.base (filePhdrs file) (filePhdrs file') := by
  obtain ⟨ehdr, s₁, phdrs, s₂, hehdr, hphdrs, hexec⟩ := loadKind_headers hk hload
  obtain ⟨rfl, hehdr'⟩ := readEhdr_same h hehdr
  obtain ⟨rfl, hphdrs'⟩ := readPhdr_same h hphdrs
  have hsame := h.only.filePhdrs_same
  cases k with
  | object => exact absurd rfl hk
  | dylib =>
      obtain ⟨image, _, hload, hret⟩ := Exec.bind_ok_iff.mp hload
      cases hret
      obtain ⟨hdylib, hload⟩ := loadDylib_ok hehdr hphdrs hload
      refine Iff.trans ?_ (loadDynamicImpl_same_iff h hsame hload hpath)
      have hrun : (L.on M').loadDylib R' name s =
          (L.on M').loadDynamicImpl R' name (fileEhdr file) (filePhdrs file') s₂ := by
        unfold loadDylib
        rw [Exec.bind_of_ok hehdr', if_pos hdylib, Exec.bind_of_ok hphdrs']
      constructor
      · rintro ⟨raw', t', hload', hraw, hagree⟩
        obtain ⟨image', _, hload', hret⟩ := Exec.bind_ok_iff.mp hload'
        cases hret
        rw [hrun] at hload'
        exact ⟨image', _, hload', hraw, hagree⟩
      · rintro ⟨image', t', hload', himage, hagree⟩
        rw [← hrun] at hload'
        exact ⟨.dylib image', t', Exec.bind_ok_iff.mpr ⟨image', t', hload', rfl⟩, himage, hagree⟩
  | exec =>
      obtain ⟨image, _, hload, hret⟩ := Exec.bind_ok_iff.mp hload
      cases hret
      have hparts := loadExec_ok hehdr hphdrs hload
      cases hdyn : hasType ptDynamic (filePhdrs file : List (ElfPhdr w)) with
      | true =>
          rw [if_pos hdyn] at hparts
          obtain ⟨image, rfl, himpl⟩ := hparts
          refine Iff.trans ?_ (loadDynamicImpl_same_iff h hsame himpl hpath)
          have hdyn' : hasType ptDynamic (filePhdrs file' : List (ElfPhdr w)) = true := by
            rw [hsame.hasType_eq, hdyn]
          have hrun : (L.on M').loadExec R' name s =
              ((L.on M').loadDynamicImpl R' name (fileEhdr file) (filePhdrs file') >>=
                fun image => pure (.dynamic image)) s₂ := by
            unfold loadExec
            rw [Exec.bind_of_ok hehdr', if_pos (hexec rfl), Exec.bind_of_ok hphdrs', if_pos hdyn']
          constructor
          · rintro ⟨raw', t', hload', hraw, hagree⟩
            obtain ⟨exec', _, hload', hret⟩ := Exec.bind_ok_iff.mp hload'
            cases hret
            rw [hrun] at hload'
            obtain ⟨image', _, hload', hret⟩ := Exec.bind_ok_iff.mp hload'
            cases hret
            exact ⟨image', _, hload', hraw, hagree⟩
          · rintro ⟨image', t', hload', himage, hagree⟩
            have hexec' : (L.on M').loadExec R' name s = .ok (.dynamic image') t' := by
              rw [hrun]
              exact Exec.bind_ok_iff.mpr ⟨image', t', hload', rfl⟩
            exact ⟨.exec (.dynamic image'), t', Exec.bind_ok_iff.mpr ⟨_, t', hexec', rfl⟩, himage,
              hagree⟩
      | false =>
          rw [if_neg (by simp [hdyn])] at hparts
          obtain ⟨image, rfl, himpl⟩ := hparts
          have hdyn' : hasType ptDynamic (filePhdrs file' : List (ElfPhdr w)) = false := by
            rw [hsame.hasType_eq, hdyn]
          obtain ⟨t', hload', hagree⟩ := loadStaticImpl_same h hsame hdyn himpl
          have hexec' : (L.on M').loadExec R' name s = .ok (.static image) t' := by
            unfold loadExec
            rw [Exec.bind_of_ok hehdr', if_pos (hexec rfl), Exec.bind_of_ok hphdrs',
              if_neg (by simp [hdyn'])]
            exact Exec.bind_ok_iff.mpr ⟨image, t', hload', rfl⟩
          constructor
          · intro _
            exact sameDynamic_of_none hdyn hdyn'
          · intro _
            exact ⟨.exec (.static image), t', Exec.bind_ok_iff.mpr ⟨_, t', hexec', rfl⟩, rfl,
              hagree⟩

/-- The four entry points. -/
def enter (L : Loader w K D) (R : ElfReader w O) (name : Name) :
    EntryPoint → Load w K O (RawElf w D)
  | .load => L.load R name
  | .kind k => L.loadKind R name k

end Loader

def RawElf.IsImage (raw : RawElf w D) : Prop := ∀ parts, raw ≠ .object parts

/-- A later step, such as a relocation or a lookup, that looks neither at the
physical addresses nor at the bytes in `T`. -/
def BlindTo (T : Set (BitVec w)) (later : RawElf w D → EStateM Halt (OsState w K) α) : Prop :=
  ∀ raw raw' os os', SameRaw raw raw' → AgreeOff T os os' →
    Exec.Follows (AgreeOff T) (fun a a' => a' = a) (later raw os) (later raw' os')

/-- Loading the second file gives the image `raw` again, up to `p_paddr` in the
headers and to the bytes in `T`, and so does whatever follows. -/
def PaddrIgnored (L : Loader w K D) (R : ElfReader w O) (name : Name) (entry : EntryPoint)
    (α : Type) (T : Set (BitVec w)) (s : LoadState w K O) (raw : RawElf w D)
    (t : LoadState w K O) : Prop :=
  ∃ raw' t', L.enter R name entry s = .ok raw' t' ∧ SameRaw raw raw' ∧ AgreeOff T t.os t'.os ∧
    ∀ later : RawElf w D → EStateM Halt (OsState w K) α, BlindTo T later →
      Exec.Follows (AgreeOff T) (fun a a' => a' = a) (later raw t.os) (later raw' t'.os)

namespace Loader

variable {L : Loader w K D} {M' : Mmap w K} {R R' : ElfReader w O} {file file' : List UInt8}
  {name : Name} {s t : LoadState w K O}

theorem loadKind_object {raw : RawElf w D} (h : L.loadKind R name .object s = .ok raw t) :
    ¬ raw.IsImage := by
  obtain ⟨parts, s₁, -, hret⟩ := Exec.bind_ok_iff.mp h
  cases hret
  exact fun himage => himage parts rfl

theorem enter_same_iff [WordSize w] (h : SameSetting L M' R R' file file') {entry : EntryPoint}
    {raw : RawElf w D} (hload : L.enter R name entry s = .ok raw t) (himage : raw.IsImage)
    (hpath : PathClear (paddrBytes file file' raw.base (filePhdrs file)) t.os.mem raw.base
      (filePhdrs file)) :
    (∃ raw' t', (L.on M').enter R' name entry s = .ok raw' t' ∧ SameRaw raw raw' ∧
        AgreeOff (paddrBytes file file' raw.base (filePhdrs file)) t.os t'.os) ↔
      SameDynamic raw.base (filePhdrs file) (filePhdrs file') := by
  cases entry with
  | kind k =>
      change L.loadKind R name k s = _ at hload
      have hk : k ≠ .object := by
        rintro rfl
        exact loadKind_object hload himage
      exact loadKind_same_iff h hk hload hpath
  | load =>
      change L.load R name s = _ at hload
      rw [load_eq] at hload
      obtain ⟨k, s₁, hdispatch, hload⟩ := Exec.bind_ok_iff.mp hload
      have hk : k ≠ .object := by
        rintro rfl
        exact loadKind_object hload himage
      have hrun : (L.on M').enter R' name .load s = (L.on M').loadKind R' name k s₁ := by
        change (L.on M').load R' name s = _
        rw [load_eq, Exec.bind_of_ok (dispatch_same h hdispatch)]
      rw [hrun]
      exact loadKind_same_iff h hk hload hpath

end Loader

/-! ## Two files -/

theorem unixMmap_sameMapping (file file' : List UInt8) (free : BitVec w) :
    SameMapping (unixMmap file free) (unixMmap file' free) file file' where
  reserve := fun h => h
  mmap := by
    intro T addr len prot flags offset fd os os' r os₁ h hagree hT
    cases fd with
    | none =>
        cases h
        exact ⟨os', rfl, hagree⟩
    | some fd =>
        cases h
        refine ⟨_, rfl, hagree.kernel, fun a ha => ?_⟩
        change mapPages file' addr len offset os'.mem a = mapPages file addr len offset os.mem a
        unfold mapPages
        split
        · rename_i hin
          have hback : addr + BitVec.ofNat w (a - addr).toNat = a := by
            rw [BitVec.ofNat_toNat, BitVec.setWidth_eq]
            grind
          by_cases hsame : file'[offset.toNat + (a - addr).toNat]? =
              file[offset.toNat + (a - addr).toNat]?
          · rw [hsame]
          · have hmem := hT (a - addr).toNat hin hsame
            rw [hback] at hmem
            exact absurd hmem ha
        · exact hagree.mem a ha
  anonymous := by
    intro T addr len prot flags os os' p os₁ h hagree
    cases h
    exact ⟨_, rfl, hagree.kernel, fill_agrees hagree.mem _ _ _⟩
  mprotect := by
    intro T addr len prot os os' u os₁ h hagree
    cases h
    exact ⟨os', rfl, hagree⟩

theorem bytesReader_sameReader {file file' : List UInt8} (hlen : file'.length = file.length)
    (fd : Option Int) :
    SameReader (bytesReader file fd : ElfReader w Unit) (bytesReader file' fd) where
  asFd := fun _ => rfl
  read := by
    intro len offset o bytes o₁ h
    simp only [bytesReader] at h ⊢
    split at h
    · rename_i hfits
      cases h
      exact ⟨_, if_pos (by rwa [hlen])⟩
    · cases h

/-- A shared object of one page and a dynamic section, by their physical addresses. -/
def physFile (load dynamic : BitVec 64) : List UInt8 :=
  fileOf etDyn [
    { pType := ptLoad, pFlags := pfR, pOffset := 0, pVaddr := 0x1000, pPaddr := load,
      pFilesz := 176, pMemsz := 176, pAlign := 0x1000 },
    { pType := ptDynamic, pFlags := pfR, pOffset := 0, pVaddr := 0x1040, pPaddr := dynamic,
      pFilesz := 16, pMemsz := 16, pAlign := 0x1000 }]

theorem onlyPaddr_of_bounded {w : Nat} {file file' : List UInt8}
    (hlen : file'.length = file.length) (hehdr : ∀ i < ehdrSize w, file'[i]? = file[i]?)
    (hfield : ∀ i < file.length, file'[i]? ≠ file[i]? →
      ∃ k < (filePhdrs file : List (ElfPhdr w)).length,
        (fileEhdr file : Ehdr w).ePhoff.toNat + k * phdrSize w + paddrOff w ≤ i ∧
          i < (fileEhdr file : Ehdr w).ePhoff.toNat + k * phdrSize w + paddrOff w + w / 8) :
    OnlyPaddr w file file' where
  ehdr := hehdr
  field := by
    intro i hne
    apply hfield i ?_ hne
    by_contra hge
    rw [List.getElem?_eq_none (by omega), List.getElem?_eq_none (by omega)] at hne
    exact hne rfl

set_option maxRecDepth 20000 in
theorem physFile_onlyPaddr_load :
    OnlyPaddr 64 (physFile 0x1000 0x1040) (physFile 0x5000 0x1040) :=
  onlyPaddr_of_bounded (by decide) (by decide) (by decide)

set_option maxRecDepth 20000 in
theorem physFile_onlyPaddr_dynamic :
    OnlyPaddr 64 (physFile 0x1000 0x1040) (physFile 0x1000 0x5040) :=
  onlyPaddr_of_bounded (by decide) (by decide) (by decide)

theorem physFile_setting {load dynamic : BitVec 64}
    (h : OnlyPaddr 64 (physFile 0x1000 0x1040) (physFile load dynamic))
    (hlen : (physFile load dynamic).length = (physFile 0x1000 0x1040).length) :
    SameSetting (loaderOn (physFile 0x1000 0x1040) 0x10000)
      (unixMmap (physFile load dynamic) 0x10000)
      (bytesReader (physFile 0x1000 0x1040) (some 3)) (bytesReader (physFile load dynamic) (some 3))
      (physFile 0x1000 0x1040) (physFile load dynamic) where
  mapping := unixMmap_sameMapping _ _ _
  reader := bytesReader_sameReader hlen _
  reads := bytesReader_readsFile _ _
  reads' := bytesReader_readsFile _ _
  hook := fun _ _ _ _ => rfl
  only := h

end ElfLoader
