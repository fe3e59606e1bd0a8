import ElfLoader.Segment.Pages
import ElfLoader.Segment.Program

/-! # One `PT_LOAD` header in memory

Every range a segment touches is measured from the base of the image, that is as
a range of virtual addresses: the page rounding of the address, of the file
offset and of the content end all become statements about residues modulo the
page size.
-/

namespace ElfLoader

open ByteMemory

variable {w : Nat} {K O : Type}

/-! ## What one loader call does to memory -/

theorem mmapSegment_ok {M : Mmap w K} {R : ElfReader w O} {seg seg' : ElfSegment w}
    {info : FileMapInfo w} {A : BitVec w} {s s' : LoadState w K O}
    (haddr : seg.addr = .absolute A) (hinfo : seg.mapInfo = [info])
    (h : seg.mmapSegment M R s = .ok seg' s') :
    ∃ p needCopy, M.mmap (some A) seg.len seg.mapProt seg.flags info.offset
        (R.asFd s.object) s.os = .ok (p, needCopy) s'.os ∧
      s'.object = s.object ∧ seg' = { seg with needCopy } := by
  simp only [ElfSegment.mmapSegment, haddr, hinfo, Address.absoluteAddr, Exec.bind_ok_iff,
    Exec.lift_ok_iff, Load.onOs_ok_iff] at h
  obtain ⟨_, _, ⟨hA, rfl⟩, _, _, hget, _, _, hrec, ⟨p, needCopy⟩, _, ⟨os, hmap, rfl⟩, hret⟩ := h
  cases hA
  cases hget
  cases hrec
  cases hret
  exact ⟨p, needCopy, hmap, rfl, by rw [haddr, hinfo]⟩

theorem copyData_of_mapped {R : ElfReader w O} {seg : ElfSegment w} {s s' : LoadState w K O}
    (hcopy : seg.needCopy = false) (h : seg.copyData R s = .ok () s') : s' = s := by
  simp only [ElfSegment.copyData, hcopy] at h
  cases h
  rfl

theorem copyData_ok {R : ElfReader w O} {seg : ElfSegment w} {info : FileMapInfo w}
    {A : BitVec w} {s s' : LoadState w K O} (haddr : seg.addr = .absolute A)
    (hinfo : seg.mapInfo = [info]) (hcopy : seg.needCopy = true)
    (h : seg.copyData R s = .ok () s') :
    ∃ bytes, R.read info.filesz.toNat info.offset s.object = .ok bytes s'.object ∧
      s'.os.mem = write s.os.mem (A + info.start) bytes := by
  simp only [ElfSegment.copyData, hcopy, haddr, hinfo, Address.absoluteAddr, if_true,
    Exec.bind_ok_iff, Exec.lift_ok_iff] at h
  obtain ⟨_, _, ⟨hA, rfl⟩, hloop⟩ := h
  cases hA
  obtain ⟨s₁, hbody, hrest⟩ := Exec.forM_cons_ok_iff.mp hloop
  cases hrest
  simp only [ElfSegment.copyInfo, Exec.bind_ok_iff, Load.onObject_ok_iff] at hbody
  obtain ⟨_, _, hrec, bytes, _, ⟨o, hread, rfl⟩, hwrite⟩ := hbody
  cases hrec
  cases hwrite
  exact ⟨bytes, hread, rfl⟩

/-- The memory `fill_zero` leaves: the rest of the page, then whole pages. -/
def zeroFilled (m : Bytes w) (A : BitVec w) (seg : ElfSegment w) : Bytes w :=
  let zeroStart := A + seg.contentSize
  let zeroEnd := roundup zeroStart (pageSize w)
  let writeLen := zeroEnd - zeroStart
  let page := fill m zeroStart writeLen.toNat 0
  if 0 < seg.zeroSize then
    if writeLen < seg.zeroSize then
      fill page zeroEnd (pageLen (seg.zeroSize - writeLen).toNat) 0
    else page
  else m

theorem fillZero_ok {M : Mmap w K} {file : List UInt8} (hM : MapsFile M file)
    {seg : ElfSegment w} {A : BitVec w} {s s' : LoadState w K O}
    (haddr : seg.addr = .absolute A)
    (hend : PageAligned (roundup (A + seg.contentSize) (pageSize w)))
    (h : seg.fillZero M s = .ok () s') : s'.os.mem = zeroFilled s.os.mem A seg := by
  unfold ElfSegment.fillZero at h
  unfold zeroFilled
  by_cases hz : 0 < seg.zeroSize
  · simp only [hz, if_true, haddr, Address.absoluteAddr, Exec.bind_ok_iff, Exec.lift_ok_iff] at h
    obtain ⟨_, _, ⟨hA, rfl⟩, _, _, hrec, _, _, hpage, h⟩ := h
    cases hA
    cases hrec
    cases hpage
    simp only [hz, if_true]
    by_cases hmore : roundup (A + seg.contentSize) (pageSize w) - (A + seg.contentSize) <
        seg.zeroSize
    · simp only [hmore, if_true, Exec.bind_ok_iff, Load.onOs_ok_iff] at h ⊢
      obtain ⟨_, _, hrec, _, _, ⟨os, hanon, rfl⟩, hret⟩ := h
      cases hrec
      cases hret
      exact hM.anonymous hanon hend
    · simp only [hmore, if_false] at h ⊢
      cases h
      rfl
  · simp only [hz, if_false] at h ⊢
    cases h
    rfl

/-- What `fill_zero` leaves of a segment from `C` to `E` past the base, with the
last page of the segment ending at `T`. -/
theorem view_zeroFilled [WordSize w] {m : Bytes w} {base A : BitVec w} {seg : ElfSegment w}
    {C E T : Nat} (hbase : PageAligned base)
    (hA : A + seg.contentSize = base + BitVec.ofNat w C)
    (hsize : seg.zeroSize.toNat = E - C) (hCE : C ≤ E) (hC : C < 2 ^ w)
    (hT : T = pageLen E) (hfit : T ≤ 2 ^ w) {x : Nat} (hx : x < 2 ^ w) :
    (C ≤ x → x < E → view (zeroFilled m A seg) base x = 0) ∧
      (x < C ∨ T ≤ x → view (zeroFilled m A seg) base x = view m base x) := by
  have hET : E ≤ pageLen E := Nat.le_add_right _ _
  obtain ⟨hend, hgap⟩ := roundup_page_add hbase hC
  have hup : C ≤ pageLen C ∧ pageLen C % 2 ^ 12 = 0 ∧ pageLen C < C + 2 ^ 12 := by
    unfold pageLen
    omega
  have hpages : pageLen E % 2 ^ 12 = 0 ∧ pageLen E < E + 2 ^ 12 := by
    unfold pageLen
    omega
  unfold zeroFilled
  rw [hA]
  by_cases hpos : 0 < seg.zeroSize
  · have hlt : C < E := by
      rw [BitVec.lt_def, hsize] at hpos
      change 0 % 2 ^ w < _ at hpos
      rw [Nat.zero_mod] at hpos
      omega
    simp only [hpos, if_true, hgap]
    by_cases hmore : roundup (base + BitVec.ofNat w C) (pageSize w) - (base + BitVec.ofNat w C) <
        seg.zeroSize
    · have hlong := hmore
      rw [BitVec.lt_def, hgap, hsize] at hlong
      have hrest : (seg.zeroSize - (roundup (base + BitVec.ofNat w C) (pageSize w) -
          (base + BitVec.ofNat w C))).toNat = E - pageLen C := by
        rw [BitVec.toNat_sub_of_le (Nat.le_of_lt hmore), hgap, hsize]
        omega
      have hlast : pageLen C + pageLen (E - pageLen C) = pageLen E := by
        unfold pageLen at *
        omega
      simp only [hmore, if_true, hrest]
      rw [hend]
      constructor
      · intro hlo hhi
        by_cases hfirst : x < pageLen C
        · rw [view_fill_of_not_mem (by omega) hx (.inl hfirst)]
          exact view_fill_of_mem (by omega) hlo (by omega)
        · exact view_fill_of_mem (by omega) (by omega) (by omega)
      · intro hout
        rw [view_fill_of_not_mem (by omega) hx (by omega),
          view_fill_of_not_mem (by omega) hx (by omega)]
    · have hshort := hmore
      rw [BitVec.lt_def, hgap, hsize] at hshort
      have hlast : pageLen C = pageLen E := by
        unfold pageLen at *
        omega
      simp only [hmore, if_false]
      constructor
      · intro hlo hhi
        exact view_fill_of_mem (by omega) hlo (by omega)
      · intro hout
        exact view_fill_of_not_mem (by omega) hx (by omega)
  · have hnone : E = C := by
      have hzero : seg.zeroSize.toNat = 0 := by
        rw [BitVec.not_lt, BitVec.le_def] at hpos
        change _ ≤ 0 % 2 ^ w at hpos
        rw [Nat.zero_mod] at hpos
        omega
      omega
    simp only [hpos, if_false]
    exact ⟨fun hlo hhi => absurd hhi (by omega), fun _ => trivial⟩

/-! ## One `PT_LOAD` header -/

/-- What is asked of a `PT_LOAD` header of `file`. -/
structure ElfPhdr.Loadable (file : List UInt8) (ph : ElfPhdr w) : Prop where
  filesz_le : ph.pFilesz.toNat ≤ ph.pMemsz.toNat
  no_wrap : ph.pVaddr.toNat + ph.pMemsz.toNat < 2 ^ w
  congruent : ph.pOffset.toNat % 2 ^ 12 = ph.pVaddr.toNat % 2 ^ 12
  present : ph.pOffset.toNat + ph.pFilesz.toNat ≤ file.length

/-- The page-rounded virtual range of a header. -/
def ElfPhdr.pages (ph : ElfPhdr w) : Set Nat :=
  Set.Ico (ph.pVaddr.toNat - ph.pVaddr.toNat % 2 ^ 12)
    (pageLen (ph.pVaddr.toNat + ph.pMemsz.toNat))

/-- The virtual address that `a` has in an image at `base`. -/
def vaddrOf (base a : BitVec w) : Nat := (a - base).toNat

/-- Where the first page of a header starts in an image at `base`. -/
def ElfPhdr.pageStart (base : BitVec w) (ph : ElfPhdr w) : BitVec w :=
  base + BitVec.ofNat w (ph.pVaddr.toNat - ph.pVaddr.toNat % 2 ^ 12)

/-- Where its zero fill starts. -/
def ElfPhdr.zeroStart (base : BitVec w) (ph : ElfPhdr w) : BitVec w :=
  ph.pageStart base + ph.createSegment.contentSize

/-- The image of one header in memory `m`: file bytes, then zeros. -/
def ElfPhdr.Loaded (file : List UInt8) (base : BitVec w) (m : Bytes w) (ph : ElfPhdr w) : Prop :=
  ∀ i, i < ph.pMemsz.toNat →
    (i < ph.pFilesz.toNat →
      file[ph.pOffset.toNat + i]? = some (m (base + ph.pVaddr + BitVec.ofNat w i))) ∧
    (ph.pFilesz.toNat ≤ i → m (base + ph.pVaddr + BitVec.ofNat w i) = 0)

section OneHeader

variable {file : List UInt8} {ph : ElfPhdr w} {base : BitVec w}

theorem createSegment_zeroSize (hp : ph.Loadable file) :
    ph.createSegment.zeroSize.toNat = ph.pMemsz.toNat - ph.pFilesz.toNat :=
  BitVec.toNat_sub_of_le hp.filesz_le

theorem vaddr_add_toNat (base : BitVec w) (hp : ph.Loadable file) {i : Nat}
    (hi : i < ph.pMemsz.toNat) :
    base + ph.pVaddr + BitVec.ofNat w i = base + BitVec.ofNat w (ph.pVaddr.toNat + i) ∧
      vaddrOf base (base + ph.pVaddr + BitVec.ofNat w i) = ph.pVaddr.toNat + i := by
  have heq : base + ph.pVaddr + BitVec.ofNat w i =
      base + BitVec.ofNat w (ph.pVaddr.toNat + i) := by
    rw [BitVec.ofNat_add, BitVec.ofNat_toNat, BitVec.setWidth_eq, BitVec.add_assoc]
  refine ⟨heq, ?_⟩
  have hlt := hp.no_wrap
  rw [heq]
  exact add_ofNat_sub_toNat base (by omega)

theorem mem_pages (hp : ph.Loadable file) {i : Nat} (hi : i < ph.pMemsz.toNat) :
    vaddrOf base (base + ph.pVaddr + BitVec.ofNat w i) ∈ ph.pages := by
  rw [(vaddr_add_toNat base hp hi).2]
  unfold ElfPhdr.pages pageLen
  rw [Set.mem_Ico]
  omega

/-- How far a content byte is from the start of its first page. -/
theorem content_sub_pageStart (base : BitVec w) (hp : ph.Loadable file) {i : Nat}
    (hi : i < ph.pFilesz.toNat) :
    (base + ph.pVaddr + BitVec.ofNat w i - ph.pageStart base).toNat =
      ph.pVaddr.toNat % 2 ^ 12 + i := by
  have hle := hp.filesz_le
  have hnw := hp.no_wrap
  have hsplit : base + ph.pVaddr + BitVec.ofNat w i =
      ph.pageStart base + BitVec.ofNat w (ph.pVaddr.toNat % 2 ^ 12 + i) := by
    rw [(vaddr_add_toNat base hp (by omega : i < ph.pMemsz.toNat)).1, ElfPhdr.pageStart,
      BitVec.add_assoc, ← BitVec.ofNat_add]
    congr 2
    omega
  rw [hsplit]
  exact add_ofNat_sub_toNat _ (by omega)

theorem content_present (hp : ph.Loadable file) {i : Nat} (hi : i < ph.pFilesz.toNat) :
    ∃ b, file[ph.pOffset.toNat + i]? = some b := by
  have hpres := hp.present
  exact ⟨_, List.getElem?_eq_getElem (by omega)⟩

theorem Loaded.frame {m m' : Bytes w} (hp : ph.Loadable file) (h : ph.Loaded file base m)
    (hsame : ∀ a, vaddrOf base a ∈ ph.pages → m' a = m a) : ph.Loaded file base m' := by
  intro i hi
  rw [hsame _ (mem_pages hp hi)]
  exact h i hi

variable [WordSize w]

theorem createSegment_addr (ph : ElfPhdr w) :
    ph.createSegment.addr =
      .relative (BitVec.ofNat w (ph.pVaddr.toNat - ph.pVaddr.toNat % 2 ^ 12)) := by
  rw [← rounddown_page]
  rfl

theorem createSegment_contentSize (hp : ph.Loadable file) :
    ph.createSegment.contentSize =
      BitVec.ofNat w (ph.pFilesz.toNat + ph.pVaddr.toNat % 2 ^ 12) := by
  have halign : ph.pOffset - rounddown ph.pOffset (pageSize w) =
      BitVec.ofNat w (ph.pOffset.toNat % 2 ^ 12) := by
    have h := Align.down_eq_sub (WordSize.page_lt w) ph.pOffset
    change ph.pOffset - Align.down ph.pOffset (BitVec.ofNat w (2 ^ 12)) = _
    rw [h]
    grind
  change ph.pFilesz + (ph.pOffset - rounddown ph.pOffset (pageSize w)) = _
  rw [halign, hp.congruent, BitVec.ofNat_add, BitVec.ofNat_toNat, BitVec.setWidth_eq]

theorem createSegment_contentSize_toNat (hp : ph.Loadable file) :
    ph.createSegment.contentSize.toNat = ph.pFilesz.toNat + ph.pVaddr.toNat % 2 ^ 12 := by
  have hle := hp.filesz_le
  have hlt := hp.no_wrap
  rw [createSegment_contentSize hp, BitVec.toNat_ofNat, Nat.mod_eq_of_lt (by omega)]

theorem pageLen_le_word (hp : ph.Loadable file) :
    pageLen (ph.pVaddr.toNat + ph.pMemsz.toNat) ≤ 2 ^ w := by
  have hdvd := page_dvd_word w
  have hlt := hp.no_wrap
  unfold pageLen
  omega

/-- The mapped length is the length of the page range, unless the range is the
whole address space and its length wraps to zero. -/
theorem createSegment_len (hp : ph.Loadable file)
    (hfit : pageLen (ph.pVaddr.toNat + ph.pMemsz.toNat) -
      (ph.pVaddr.toNat - ph.pVaddr.toNat % 2 ^ 12) < 2 ^ w) :
    ph.createSegment.len.toNat = pageLen (ph.pVaddr.toNat + ph.pMemsz.toNat) -
      (ph.pVaddr.toNat - ph.pVaddr.toNat % 2 ^ 12) := by
  have hsum : (ph.pVaddr + ph.pMemsz).toNat = ph.pVaddr.toNat + ph.pMemsz.toNat :=
    BitVec.toNat_add_of_lt hp.no_wrap
  have hhi : roundup (ph.pVaddr + ph.pMemsz) (pageSize w) =
      BitVec.ofNat w (pageLen (ph.pVaddr.toNat + ph.pMemsz.toNat)) := by
    rw [roundup_page, hsum, pageLen, BitVec.ofNat_add, ← hsum, BitVec.ofNat_toNat,
      BitVec.setWidth_eq]
  have hle : ph.pVaddr.toNat - ph.pVaddr.toNat % 2 ^ 12 ≤
      pageLen (ph.pVaddr.toNat + ph.pMemsz.toNat) := by
    unfold pageLen
    omega
  have hlo : ph.pVaddr.toNat - ph.pVaddr.toNat % 2 ^ 12 < 2 ^ w :=
    Nat.lt_of_le_of_lt (Nat.sub_le _ _) ph.pVaddr.isLt
  change (roundup (ph.pVaddr + ph.pMemsz) (pageSize w) - rounddown ph.pVaddr (pageSize w)).toNat = _
  rw [hhi, rounddown_page, BitVec.ofNat_sub_ofNat_of_le _ _ hlo hle, BitVec.toNat_ofNat,
    Nat.mod_eq_of_lt hfit]

/-! ### The zero fill -/

theorem zeroStart_eq (base : BitVec w) (hp : ph.Loadable file) :
    ph.zeroStart base = base + BitVec.ofNat w (ph.pVaddr.toNat + ph.pFilesz.toNat) := by
  have hnat : ph.pVaddr.toNat - ph.pVaddr.toNat % 2 ^ 12 +
      (ph.pFilesz.toNat + ph.pVaddr.toNat % 2 ^ 12) = ph.pVaddr.toNat + ph.pFilesz.toNat := by
    omega
  unfold ElfPhdr.zeroStart ElfPhdr.pageStart
  rw [createSegment_contentSize hp, BitVec.add_assoc, ← BitVec.ofNat_add, hnat]

/-- The zero fill, seen in virtual addresses: it clears everything from the end
of the file content on, never below it and never past the last page. -/
theorem zeroFilled_apply (hp : ph.Loadable file) (hbase : PageAligned base) (m : Bytes w)
    (a : BitVec w) :
    (vaddrOf base a < ph.pVaddr.toNat + ph.pFilesz.toNat ∨
        pageLen (ph.pVaddr.toNat + ph.pMemsz.toNat) ≤ vaddrOf base a →
      zeroFilled m (ph.pageStart base) ph.createSegment a = m a) ∧
    (ph.pVaddr.toNat + ph.pFilesz.toNat ≤ vaddrOf base a →
      vaddrOf base a < ph.pVaddr.toNat + ph.pMemsz.toNat →
      zeroFilled m (ph.pageStart base) ph.createSegment a = 0) := by
  have hle := hp.filesz_le
  have hwrap := hp.no_wrap
  have hsize : ph.createSegment.zeroSize.toNat =
      ph.pVaddr.toNat + ph.pMemsz.toNat - (ph.pVaddr.toNat + ph.pFilesz.toNat) := by
    rw [createSegment_zeroSize hp]
    omega
  have ha : base + BitVec.ofNat w (vaddrOf base a) = a := by
    rw [vaddrOf, BitVec.ofNat_toNat, BitVec.setWidth_eq, BitVec.add_comm, BitVec.sub_add_cancel]
  obtain ⟨hzero, hkeep⟩ := view_zeroFilled (m := m) hbase (zeroStart_eq base hp) hsize (by omega)
    (by omega) rfl (pageLen_le_word hp) (a - base).isLt
  change _ → _ → view _ base (vaddrOf base a) = 0 at hzero
  change _ → view _ base (vaddrOf base a) = view m base (vaddrOf base a) at hkeep
  simp only [view, ha] at hzero hkeep
  exact ⟨hkeep, hzero⟩

/-! ### The file content -/

theorem createSegment_offset (ph : ElfPhdr w) :
    (rounddown ph.pOffset (pageSize w)).toNat = ph.pOffset.toNat - ph.pOffset.toNat % 2 ^ 12 :=
  Align.down_toNat (WordSize.page_lt w) ph.pOffset

theorem pageStart_aligned (hbase : PageAligned base) (ph : ElfPhdr w) :
    PageAligned (ph.pageStart base) :=
  hbase.add (pageAligned_ofNat (by omega))

/-- The address and the file offset are rounded by the same amount. -/
theorem content_getElem? (hp : ph.Loadable file) (i : Nat) :
    file[(rounddown ph.pOffset (pageSize w)).toNat + (ph.pVaddr.toNat % 2 ^ 12 + i)]? =
      file[ph.pOffset.toNat + i]? := by
  have hcong := hp.congruent
  rw [createSegment_offset]
  congr 1
  omega

/-- A range from the first page on that stays within the pages. -/
theorem not_within_of_not_mem_pages (hp : ph.Loadable file) {a : BitVec w}
    (ha : vaddrOf base a ∉ ph.pages) {n : Nat}
    (hn : ph.pVaddr.toNat - ph.pVaddr.toNat % 2 ^ 12 + n ≤
      pageLen (ph.pVaddr.toNat + ph.pMemsz.toNat)) :
    ¬ Within (ph.pageStart base) n a := by
  have hend := pageLen_le_word hp
  unfold ElfPhdr.pages vaddrOf at ha
  rw [Set.mem_Ico] at ha
  rw [ElfPhdr.pageStart, within_add_iff (by omega)]
  omega

/-- The file content of a header came into memory, and nothing outside its pages
moved. -/
structure ElfPhdr.ContentPlaced (file : List UInt8) (base : BitVec w) (m m' : Bytes w)
    (ph : ElfPhdr w) : Prop where
  frame : ∀ a, vaddrOf base a ∉ ph.pages → m' a = m a
  content : ∀ i, i < ph.pFilesz.toNat →
    file[ph.pOffset.toNat + i]? = some (m' (base + ph.pVaddr + BitVec.ofNat w i))

theorem contentPlaced_of_mmap {M : Mmap w K} (hM : MapsFile M file) (hp : ph.Loadable file)
    (hbase : PageAligned base)
    (hfit : pageLen (ph.pVaddr.toNat + ph.pMemsz.toNat) -
      (ph.pVaddr.toNat - ph.pVaddr.toNat % 2 ^ 12) < 2 ^ w)
    {prot : ProtFlags} {flags : MapFlags} {fd : Option Int} {s s' : OsState w K} {p : BitVec w}
    (hmap : M.mmap (some (ph.pageStart base)) ph.createSegment.len prot flags
      (rounddown ph.pOffset (pageSize w)) fd s = .ok (p, false) s') :
    ph.ContentPlaced file base s.mem s'.mem := by
  have hle := hp.filesz_le
  have hstart := pageStart_aligned hbase ph
  have hoffset : PageAligned (rounddown ph.pOffset (pageSize w)) :=
    pageAligned_rounddown ph.pOffset
  have hlen := createSegment_len hp hfit
  constructor
  · intro a ha
    apply hM.frame hmap hstart hoffset
    apply not_within_of_not_mem_pages hp ha
    rw [hlen]
    unfold pageLen
    omega
  · intro i hi
    obtain ⟨b, hb⟩ := content_present hp hi
    rw [hb]
    congr 1
    symm
    apply hM.content hmap hstart hoffset
    · unfold Within
      rw [content_sub_pageStart base hp hi, hlen]
      unfold pageLen
      omega
    · rw [content_sub_pageStart base hp hi, content_getElem? hp i, hb]

theorem contentPlaced_of_write (hp : ph.Loadable file) (base : BitVec w) (m : Bytes w)
    {bytes : List UInt8}
    (hbytes : bytes = (file.drop (rounddown ph.pOffset (pageSize w)).toNat).take
      ph.createSegment.contentSize.toNat)
    (hlen : bytes.length = ph.createSegment.contentSize.toNat) :
    ph.ContentPlaced file base m (write m (ph.pageStart base) bytes) := by
  have hle := hp.filesz_le
  have hsize := createSegment_contentSize_toNat hp
  constructor
  · intro a ha
    apply write_of_not_within
    apply not_within_of_not_mem_pages hp ha
    rw [hlen, hsize]
    unfold pageLen
    omega
  · intro i hi
    obtain ⟨b, hb⟩ := content_present hp hi
    rw [hb]
    congr 1
    symm
    apply write_of_getElem?
    have htake : ph.pVaddr.toNat % 2 ^ 12 + i < ph.createSegment.contentSize.toNat := by
      omega
    rw [content_sub_pageStart base hp hi, hbytes, List.getElem?_take_of_lt htake,
      List.getElem?_drop, content_getElem? hp i, hb]

/-- What mapping leaves behind in either mode, before the zero fill. -/
theorem mapped_or_copied {M : Mmap w K} {R : ElfReader w O} (hM : MapsFile M file)
    (hR : ReadsFile R file) (hp : ph.Loadable file) (hbase : PageAligned base)
    (hfit : pageLen (ph.pVaddr.toNat + ph.pMemsz.toNat) -
      (ph.pVaddr.toNat - ph.pVaddr.toNat % 2 ^ 12) < 2 ^ w)
    {seg seg' : ElfSegment w} {s s₁ s₂ : LoadState w K O}
    (hseg : ph.createSegment.rebase base = .ok seg)
    (hmap : seg.mmapSegment M R s = .ok seg' s₁) (hcopy : seg'.copyData R s₁ = .ok () s₂) :
    ph.ContentPlaced file base s.os.mem s₂.os.mem := by
  have hrel := createSegment_addr ph
  simp only [ElfSegment.rebase, hrel, Address.relativeAddr] at hseg
  cases hseg
  obtain ⟨p, needCopy, hmmap, hobj, rfl⟩ := mmapSegment_ok rfl rfl hmap
  cases needCopy with
  | false =>
      rw [copyData_of_mapped rfl hcopy]
      exact contentPlaced_of_mmap hM hp hbase hfit hmmap
  | true =>
      -- the reservation is untouched, and the read goes to the first page
      obtain ⟨bytes, hread, hmem⟩ := copyData_ok rfl rfl rfl hcopy
      obtain ⟨hbytes, hlen⟩ := hR.read hread
      have hwrite : s₂.os.mem = write s.os.mem (ph.pageStart base) bytes := by
        rw [hmem, hM.copy hmmap]
        exact congrArg (fun A => write s.os.mem A bytes) (BitVec.add_zero _)
      rw [hwrite]
      exact contentPlaced_of_write hp base s.os.mem hbytes hlen

theorem load_ok {M : Mmap w K} {R : ElfReader w O} (hM : MapsFile M file)
    (hR : ReadsFile R file) (hp : ph.Loadable file) (hbase : PageAligned base)
    (hfit : pageLen (ph.pVaddr.toNat + ph.pMemsz.toNat) -
      (ph.pVaddr.toNat - ph.pVaddr.toNat % 2 ^ 12) < 2 ^ w)
    {seg : ElfSegment w} {s s' : LoadState w K O}
    (h : ph.createSegment.load M R base s = .ok seg s') :
    (∀ a, vaddrOf base a ∉ ph.pages → s'.os.mem a = s.os.mem a) ∧
      ph.Loaded file base s'.os.mem := by
  simp only [ElfSegment.load, Exec.bind_ok_iff, Exec.lift_ok_iff] at h
  obtain ⟨seg₀, _, ⟨hseg, rfl⟩, seg₁, s₁, hmap, _, s₂, hcopy, _, s₃, hfill, hret⟩ := h
  cases hret
  obtain ⟨hframe, hcontent⟩ := mapped_or_copied hM hR hp hbase hfit hseg hmap hcopy
  have hrel := createSegment_addr ph
  simp only [ElfSegment.rebase, hrel, Address.relativeAddr] at hseg
  cases hseg
  obtain ⟨_, _, -, -, rfl⟩ := mmapSegment_ok rfl rfl hmap
  have hmem := fillZero_ok hM rfl (pageAligned_roundup _) hfill
  have hzero : ∀ a, _ := fun a => zeroFilled_apply hp hbase s₂.os.mem a
  have hle := hp.filesz_le
  constructor
  · intro a ha
    rw [hmem, ← hframe a ha]
    apply (hzero a).1
    unfold ElfPhdr.pages at ha
    rw [Set.mem_Ico] at ha
    omega
  · intro i hi
    obtain ⟨-, hva⟩ := vaddr_add_toNat base hp hi
    rw [hmem]
    constructor
    · intro hfile
      rw [hcontent i hfile]
      congr 1
      symm
      exact (hzero _).1 (.inl (by omega))
    · intro hbss
      exact (hzero _).2 (by omega) (by omega)

end OneHeader

end ElfLoader
