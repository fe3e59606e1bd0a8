import ElfLoader.Segment.Header

/-! # Loading is byte-exact (`SegmentBuilder::load_segments`)

The loop over the segments only needs that the page ranges are disjoint: what
one header placed, no later header moves. The reservation gives the loop its
page-aligned base.
-/

namespace ElfLoader

open ByteMemory

variable {w : Nat} {K O : Type}

section Image

variable {file : List UInt8} {base : BitVec w}

theorem vaddrStep_load (acc : BitVec w × BitVec w) {ph : ElfPhdr w} (hload : ph.pType = ptLoad) :
    (vaddrStep acc ph).1 ≤ ph.pVaddr ∧ ph.pVaddr + ph.pMemsz ≤ (vaddrStep acc ph).2 := by
  simp only [vaddrStep, hload, if_true]
  constructor
  · split
    · exact BitVec.le_refl _
    · rename_i h
      exact BitVec.not_lt.mp h
  · split
    · exact BitVec.le_refl _
    · rename_i h
      exact BitVec.not_lt.mp h

theorem vaddrStep_mono (acc : BitVec w × BitVec w) (ph : ElfPhdr w) :
    (vaddrStep acc ph).1 ≤ acc.1 ∧ acc.2 ≤ (vaddrStep acc ph).2 := by
  unfold vaddrStep
  split
  · constructor
    · dsimp only
      split
      · exact BitVec.le_of_lt ‹_›
      · exact BitVec.le_refl _
    · dsimp only
      split
      · exact BitVec.le_of_lt ‹_›
      · exact BitVec.le_refl _
  · exact ⟨BitVec.le_refl _, BitVec.le_refl _⟩

theorem vaddrFold_mono (phdrs : List (ElfPhdr w)) (acc : BitVec w × BitVec w) :
    (phdrs.foldl vaddrStep acc).1 ≤ acc.1 ∧ acc.2 ≤ (phdrs.foldl vaddrStep acc).2 := by
  induction phdrs generalizing acc with
  | nil => exact ⟨BitVec.le_refl _, BitVec.le_refl _⟩
  | cons ph phdrs ih =>
      obtain ⟨hlo, hhi⟩ := vaddrStep_mono acc ph
      obtain ⟨hlo', hhi'⟩ := ih (vaddrStep acc ph)
      exact ⟨BitVec.le_trans hlo' hlo, BitVec.le_trans hhi hhi'⟩

theorem vaddrFold_bounds {phdrs : List (ElfPhdr w)} {ph : ElfPhdr w} (hmem : ph ∈ phdrs)
    (hload : ph.pType = ptLoad) (acc : BitVec w × BitVec w) :
    (phdrs.foldl vaddrStep acc).1 ≤ ph.pVaddr ∧
      ph.pVaddr + ph.pMemsz ≤ (phdrs.foldl vaddrStep acc).2 := by
  induction phdrs generalizing acc with
  | nil => cases hmem
  | cons q phdrs ih =>
      rcases List.mem_cons.mp hmem with rfl | htail
      · obtain ⟨hlo, hhi⟩ := vaddrStep_load acc hload
        obtain ⟨hlo', hhi'⟩ := vaddrFold_mono phdrs (vaddrStep acc ph)
        exact ⟨BitVec.le_trans hlo' hlo, BitVec.le_trans hhi hhi'⟩
      · exact ih htail (vaddrStep acc q)

variable [WordSize w]

/-- The page range of a header is shorter than the address space when the total
size of the image did not wrap to zero. -/
theorem pages_fit {phdrs : List (ElfPhdr w)} {ph : ElfPhdr w} {isDylib : Bool}
    (hmem : ph ∈ phdrs) (hload : ph.pType = ptLoad) (hp : ph.Loadable file)
    (hlen : (parseSegments phdrs isDylib).2.1 ≠ 0) :
    pageLen (ph.pVaddr.toNat + ph.pMemsz.toNat) -
      (ph.pVaddr.toNat - ph.pVaddr.toNat % 2 ^ 12) < 2 ^ w := by
  have hend := pageLen_le_word hp
  have hnw := hp.no_wrap
  by_contra hwrap
  apply hlen
  obtain ⟨hlo, hhi⟩ := vaddrFold_bounds hmem hload (BitVec.allOnes w, 0)
  rw [BitVec.le_def] at hlo hhi
  rw [BitVec.toNat_add_of_lt hnw] at hhi
  change roundup (vaddrBounds phdrs).2 (pageSize w) -
    rounddown (vaddrBounds phdrs).1 (pageSize w) = 0
  have hdvd := page_dvd_word w
  have hlt := (vaddrBounds phdrs).2.isLt
  change (vaddrBounds phdrs).1.toNat ≤ _ at hlo
  change _ ≤ (vaddrBounds phdrs).2.toNat at hhi
  have hdown : rounddown (vaddrBounds phdrs).1 (pageSize w) = 0 := by
    rw [rounddown_page]
    have hsmall : (vaddrBounds phdrs).1.toNat - (vaddrBounds phdrs).1.toNat % 2 ^ 12 = 0 := by
      omega
    rw [hsmall]
    rfl
  have hup : roundup (vaddrBounds phdrs).2 (pageSize w) = 0 := by
    rw [roundup_page]
    apply BitVec.eq_of_toNat_eq
    have htop : (vaddrBounds phdrs).2.toNat +
        (2 ^ 12 - (vaddrBounds phdrs).2.toNat % 2 ^ 12) % 2 ^ 12 = 2 ^ w := by
      unfold pageLen at hwrap hend
      omega
    rw [BitVec.toNat_add, BitVec.toNat_ofNat, Nat.add_mod_mod, htop, Nat.mod_self]
    exact BitVec.toNat_zero.symm
  rw [hup, hdown]
  exact BitVec.sub_zero _

/-- The loop of `load_segments`: one header per iteration. -/
theorem loadAll_ok {M : Mmap w K} {R : ElfReader w O} (hM : MapsFile M file)
    (hR : ReadsFile R file) (hbase : PageAligned base) {phs : List (ElfPhdr w)}
    (hload : ∀ ph ∈ phs, ph.Loadable file)
    (hfit : ∀ ph ∈ phs, pageLen (ph.pVaddr.toNat + ph.pMemsz.toNat) -
      (ph.pVaddr.toNat - ph.pVaddr.toNat % 2 ^ 12) < 2 ^ w)
    (hdisj : phs.Pairwise fun p q => Disjoint p.pages q.pages)
    {segs : List (ElfSegment w)} {s s' : LoadState w K O}
    (h : ElfSegment.loadAll M R base (phs.map ElfPhdr.createSegment) s = .ok segs s') :
    (∀ a, (∀ ph ∈ phs, vaddrOf base a ∉ ph.pages) → s'.os.mem a = s.os.mem a) ∧
      ∀ ph ∈ phs, ph.Loaded file base s'.os.mem := by
  induction phs generalizing segs s with
  | nil =>
      cases h
      exact ⟨fun _ _ => rfl, fun _ h => absurd h List.not_mem_nil⟩
  | cons ph phs ih =>
      simp only [List.map_cons, ElfSegment.loadAll, Exec.bind_ok_iff] at h
      obtain ⟨seg, s₁, hhead, rest, s₂, htail, hret⟩ := h
      cases hret
      obtain ⟨hdis, hpair⟩ := List.pairwise_cons.mp hdisj
      have hp : ph.Loadable file := hload ph List.mem_cons_self
      obtain ⟨hframe, hloaded⟩ := load_ok hM hR hp hbase (hfit ph List.mem_cons_self) hhead
      obtain ⟨hframe', hloaded'⟩ := ih (fun q hq => hload q (List.mem_cons_of_mem ph hq))
        (fun q hq => hfit q (List.mem_cons_of_mem ph hq)) hpair htail
      constructor
      · intro a ha
        rw [hframe' a (fun q hq => ha q (List.mem_cons_of_mem ph hq)),
          hframe a (ha ph List.mem_cons_self)]
      · intro q hq
        rcases List.mem_cons.mp hq with rfl | hq
        · -- the later headers stay off the pages of this one
          refine Loaded.frame hp hloaded (fun a ha => ?_)
          exact hframe' a (fun r hr => Set.disjoint_left.mp (hdis r hr) ha)
        · exact hloaded' q hq

theorem loadSegments_loaded {M : Mmap w K} {R : ElfReader w O} (hM : MapsFile M file)
    (hR : ReadsFile R file) {ps : ProgramSegments w}
    (hload : ∀ ph ∈ ps.loads, ph.Loadable file)
    (hdisj : ps.loads.Pairwise fun p q => Disjoint p.pages q.pages)
    {space : ElfSegments w} {segs : List (ElfSegment w)} {s s' : LoadState w K O}
    (hrun : ps.loadSegments M R s = .ok (space, segs) s') :
    ∀ ph ∈ ps.loads, ph.Loaded file space.base s'.os.mem := by
  simp only [ProgramSegments.loadSegments, loadSegments, ProgramSegments.createSpace,
    Exec.bind_ok_iff, Load.onOs_ok_iff] at hrun
  obtain ⟨_, _, ⟨_, _, hrec, ptr, _, ⟨os, hreserve, rfl⟩, hspace⟩, _, _, hsegs, segs', s₂, hall,
    hret⟩ := hrun
  cases hrec
  cases hspace
  cases hsegs
  cases hret
  obtain ⟨hptr, hlen⟩ := hM.reserve hreserve
  have hbase : PageAligned (ptr - (parseSegments ps.phdrs ps.isDylib).2.2) :=
    hptr.sub (pageAligned_rounddown _)
  refine (loadAll_ok hM hR hbase hload ?_ hdisj hall).2
  intro ph hph
  obtain ⟨hmem, htype⟩ := List.mem_filter.mp hph
  exact pages_fit hmem (of_decide_eq_true htype) (hload ph hph) hlen

/-- Loading is byte-exact, so any two implementations of the mapping produce the
same image. -/
theorem load_segments_byte_exact {K' O' : Type} {M : Mmap w K} {R : ElfReader w O}
    {M' : Mmap w K'} {R' : ElfReader w O'} (hM : MapsFile M file) (hR : ReadsFile R file)
    (hM' : MapsFile M' file) (hR' : ReadsFile R' file) {ps : ProgramSegments w}
    (hload : ∀ ph ∈ ps.loads, ph.Loadable file)
    (hdisj : ps.loads.Pairwise fun p q => Disjoint p.pages q.pages)
    {space space' : ElfSegments w} {segs segs' : List (ElfSegment w)}
    {s s₁ : LoadState w K O} {t t₁ : LoadState w K' O'}
    (hrun : ps.loadSegments M R s = .ok (space, segs) s₁)
    (hrun' : ps.loadSegments M' R' t = .ok (space', segs') t₁) :
    (∀ ph ∈ ps.loads, ph.Loaded file space.base s₁.os.mem) ∧
      ∀ ph ∈ ps.loads, ∀ i, i < ph.pMemsz.toNat →
        s₁.os.mem (space.base + ph.pVaddr + BitVec.ofNat w i) =
          t₁.os.mem (space'.base + ph.pVaddr + BitVec.ofNat w i) := by
  have himage := loadSegments_loaded hM hR hload hdisj hrun
  have himage' := loadSegments_loaded hM' hR' hload hdisj hrun'
  refine ⟨himage, ?_⟩
  intro ph hph i hi
  obtain ⟨hfile, hzero⟩ := himage ph hph i hi
  obtain ⟨hfile', hzero'⟩ := himage' ph hph i hi
  by_cases hcontent : i < ph.pFilesz.toNat
  · exact Option.some.inj ((hfile hcontent).symm.trans (hfile' hcontent))
  · rw [hzero (by omega), hzero' (by omega)]

end Image

/-! ## An image loaded both ways -/

/-- Memory after the pages of `file` from `offset` on replace a range. -/
def mapPages (file : List UInt8) (start len offset : BitVec w) (m : Bytes w) : Bytes w := fun a =>
  if Within start len.toNat a then (file[offset.toNat + (a - start).toNat]?).getD 0 else m a

/-- The mapping of `src/os/unix.rs` on a kernel that places every free
reservation at one address: pages of `file` where the reader has a descriptor,
`need_copy` where it has none. -/
def unixMmap (file : List UInt8) (free : BitVec w) : Mmap w Unit where
  mmap := fun addr len _ _ offset fd s =>
    match fd, addr with
    | some _, addr =>
        .ok (addr.getD 0, false) { s with mem := mapPages file (addr.getD 0) len offset s.mem }
    | none, some addr => .ok (addr, true) s
    | none, none => .error (.panic "called `Option::unwrap()` on a `None` value") s
  mmapAnonymous := fun addr len _ _ s =>
    .ok addr { s with mem := fill s.mem addr (pageLen len.toNat) 0 }
  munmap := fun _ _ s => .ok () s
  mprotect := fun _ _ _ s => .ok () s
  mmapReserve := fun addr len _ s =>
    if len = 0 then .error (.err (.mmap "mmap failed")) s
    else .ok (rounddown (addr.getD free) (pageSize w)) s

/-- `ElfBinary` (no descriptor) and, with a descriptor, a file of these bytes. -/
def bytesReader (file : List UInt8) (fd : Option Int) : ElfReader w Unit where
  read := fun len offset o =>
    if offset.toNat + len ≤ file.length then .ok ((file.drop offset.toNat).take len) o
    else .error (.panic "range end index out of range") o
  asFd := fun _ => fd

theorem unixMmap_mapsFile [WordSize w] (file : List UInt8) (free : BitVec w) :
    MapsFile (unixMmap file free) file where
  reserve := by
    intro addr len useFile s p s' h
    simp only [unixMmap] at h
    split at h
    · cases h
    · cases h
      exact ⟨pageAligned_rounddown _, ‹_›⟩
  copy := by
    intro addr len prot flags offset fd s p s' h
    simp only [unixMmap] at h
    cases fd with
    | none =>
        cases h
        rfl
    | some fd => cases h
  frame := by
    intro addr len prot flags offset fd s p s' a h _ _ hout
    simp only [unixMmap] at h
    cases fd with
    | none => cases h
    | some fd =>
        cases h
        exact if_neg hout
  content := by
    intro addr len prot flags offset fd s p s' a b h _ _ hin hb
    simp only [unixMmap] at h
    cases fd with
    | none => cases h
    | some fd =>
        cases h
        change mapPages file addr len offset s.mem a = b
        rw [mapPages, if_pos hin, hb]
        rfl
  anonymous := by
    intro addr len prot flags s p s' h _
    cases h
    rfl

theorem bytesReader_readsFile (file : List UInt8) (fd : Option Int) :
    ReadsFile (bytesReader file fd : ElfReader w Unit) file where
  read := by
    intro len offset o bytes o' h
    simp only [bytesReader] at h
    split at h
    · cases h
      refine ⟨rfl, ?_⟩
      rw [List.length_take, List.length_drop]
      omega
    · cases h

/-- Two headers: one inside a page, one whose zero part covers whole pages. -/
def twoHeaders : ProgramSegments 64 where
  phdrs := [{ pType := ptLoad, pFlags := pfR, pOffset := 1, pVaddr := 0x1001, pPaddr := 0,
              pFilesz := 2, pMemsz := 5, pAlign := 0x1000 },
            { pType := ptLoad, pFlags := pfW, pOffset := 0, pVaddr := 0x3000, pPaddr := 0,
              pFilesz := 3, pMemsz := 0x2002, pAlign := 0x1000 }]
  isDylib := true
  useFile := true

theorem load_segments_byte_exact_two_headers :
    ∃ space segs s₁ space' segs' t₁,
      twoHeaders.loadSegments (unixMmap [10, 20, 30] 0x10000) (bytesReader [10, 20, 30] (some 3))
          ⟨⟨fun _ => 7, ()⟩, (), []⟩ = .ok (space, segs) s₁ ∧
      twoHeaders.loadSegments (unixMmap [10, 20, 30] 0x80000) (bytesReader [10, 20, 30] none)
          ⟨⟨fun _ => 9, ()⟩, (), []⟩ = .ok (space', segs') t₁ ∧
      (∀ ph ∈ twoHeaders.loads, ph.Loaded [10, 20, 30] space.base s₁.os.mem) ∧
      ∀ ph ∈ twoHeaders.loads, ∀ i, i < ph.pMemsz.toNat →
        s₁.os.mem (space.base + ph.pVaddr + BitVec.ofNat 64 i) =
          t₁.os.mem (space'.base + ph.pVaddr + BitVec.ofNat 64 i) := by
  have hreturns : Exec.returned (twoHeaders.loadSegments (unixMmap [10, 20, 30] 0x10000)
      (bytesReader [10, 20, 30] (some 3)) ⟨⟨fun _ => 7, ()⟩, (), []⟩) = true := rfl
  have hreturns' : Exec.returned (twoHeaders.loadSegments (unixMmap [10, 20, 30] 0x80000)
      (bytesReader [10, 20, 30] none) ⟨⟨fun _ => 9, ()⟩, (), []⟩) = true := rfl
  obtain ⟨⟨space, segs⟩, s₁, hmapped⟩ := Exec.exists_of_returned hreturns
  obtain ⟨⟨space', segs'⟩, t₁, hcopied⟩ := Exec.exists_of_returned hreturns'
  refine ⟨space, segs, s₁, space', segs', t₁, hmapped, hcopied, ?_⟩
  refine load_segments_byte_exact (unixMmap_mapsFile _ _) (bytesReader_readsFile _ _)
    (unixMmap_mapsFile _ _) (bytesReader_readsFile _ _) ?_ ?_ hmapped hcopied
  · intro ph hph
    have hcases : ph = twoHeaders.phdrs[0] ∨ ph = twoHeaders.phdrs[1] := by
      simpa [ProgramSegments.loads, twoHeaders] using hph
    rcases hcases with rfl | rfl <;> constructor <;> decide
  · have hloads : twoHeaders.loads = twoHeaders.phdrs := rfl
    rw [hloads, twoHeaders, List.pairwise_pair, Set.disjoint_left]
    intro v hv hv'
    simp [ElfPhdr.pages, pageLen] at hv hv'
    omega

end ElfLoader
