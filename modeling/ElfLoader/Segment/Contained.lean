import ElfLoader.Library.Checked
import ElfLoader.Segment.ByteExact

/-! # Staying inside the reservation

`load_segments` computes addresses and lengths from the header fields as they
are. The checked versions of its arithmetic say where a word wraps; the calls it
makes say which ranges it touches. Both are decided by the headers.
-/

namespace ElfLoader

open ByteMemory

variable {w : Nat} {K O : Type}

/-! ## The arithmetic, with every overflow checked -/

def roundupChecked (x align : BitVec w) : Option (BitVec w) :=
  if align = 0 then some x
  else do
    let sum ← Checked.add x align
    let last ← Checked.sub sum 1#w
    return last &&& ~~~(align - 1#w)

def vaddrStepChecked (acc : BitVec w × BitVec w) (phdr : ElfPhdr w) :
    Option (BitVec w × BitVec w) :=
  if phdr.pType = ptLoad then do
    let vaddrStart := phdr.pVaddr
    let vaddrEnd ← Checked.add phdr.pVaddr phdr.pMemsz
    return (if vaddrStart < acc.1 then vaddrStart else acc.1,
      if vaddrEnd > acc.2 then vaddrEnd else acc.2)
  else return acc

def parseSegmentsChecked (phdrs : List (ElfPhdr w)) (isDylib : Bool) :
    Option (Option (BitVec w) × BitVec w × BitVec w) := do
  let bounds ← phdrs.foldlM vaddrStepChecked (BitVec.allOnes w, 0)
  let maxVaddr ← roundupChecked bounds.2 (pageSize w)
  let minVaddr := rounddown bounds.1 (pageSize w)
  let totalSize ← Checked.sub maxVaddr minVaddr
  return (if isDylib then none else some minVaddr, totalSize, minVaddr)

def ElfPhdr.createSegmentChecked (phdr : ElfPhdr w) : Option (ElfSegment w) := do
  let minVaddr := rounddown phdr.pVaddr (pageSize w)
  let maxVaddr ← roundupChecked (← Checked.add phdr.pVaddr phdr.pMemsz) (pageSize w)
  let memsz ← Checked.sub maxVaddr minVaddr
  let offset := rounddown phdr.pOffset (pageSize w)
  let alignLen ← Checked.sub phdr.pOffset offset
  let filesz ← Checked.add phdr.pFilesz alignLen
  let zeroSize ← Checked.sub phdr.pMemsz phdr.pFilesz
  return {
    addr := .relative minVaddr
    prot := segmentProt phdr.pFlags
    flags := MapFlags.mapPrivate ∪ MapFlags.mapFixed
    len := memsz
    contentSize := filesz
    zeroSize
    mapInfo := [{ start := 0, filesz, offset }]
    needCopy := false
    fromRelocatable := false }

/-- The calls of `fill_zero` for a segment at `addr`. -/
def ElfSegment.zeroCalls (addr : BitVec w) (seg : ElfSegment w) : List (MemCall w) :=
  if 0 < seg.zeroSize then
    let zeroStart := addr + seg.contentSize
    let zeroEnd := roundup zeroStart (pageSize w)
    let writeLen := zeroEnd - zeroStart
    .zero zeroStart writeLen ::
      if writeLen < seg.zeroSize then [.anonymous zeroEnd (seg.zeroSize - writeLen)] else []
  else []

def ElfSegment.zeroCallsChecked (addr : BitVec w) (seg : ElfSegment w) :
    Option (List (MemCall w)) :=
  if 0 < seg.zeroSize then do
    let zeroStart ← Checked.add addr seg.contentSize
    let zeroEnd ← roundupChecked zeroStart (pageSize w)
    let writeLen ← Checked.sub zeroEnd zeroStart
    if writeLen < seg.zeroSize then
      let rest ← Checked.sub seg.zeroSize writeLen
      return [.zero zeroStart writeLen, .anonymous zeroEnd rest]
    else return [.zero zeroStart writeLen]
  else return []

section Checked

theorem mem_loads {ps : ProgramSegments w} {ph : ElfPhdr w} :
    ph ∈ ps.loads ↔ ph ∈ ps.phdrs ∧ ph.pType = ptLoad := by
  simp [ProgramSegments.loads]

theorem foldlM_vaddrStepChecked_iff {phdrs : List (ElfPhdr w)} {acc r : BitVec w × BitVec w} :
    phdrs.foldlM vaddrStepChecked acc = some r ↔
      (∀ ph ∈ phdrs, ph.pType = ptLoad → ph.pVaddr.toNat + ph.pMemsz.toNat < 2 ^ w) ∧
        r = phdrs.foldl vaddrStep acc := by
  induction phdrs generalizing acc with
  | nil => simp [eq_comm]
  | cons ph phdrs ih =>
      rw [List.foldlM_cons, List.foldl_cons, List.forall_mem_cons]
      by_cases hload : ph.pType = ptLoad
      · simp only [vaddrStepChecked, vaddrStep, hload, if_true, Option.bind_eq_bind,
          Option.bind_eq_some_iff, Checked.add_eq_some_iff, forall_const]
        constructor
        · rintro ⟨_, ⟨_, ⟨hlt, rfl⟩, hret⟩, hrest⟩
          cases hret
          obtain ⟨hall, hr⟩ := ih.mp hrest
          exact ⟨⟨hlt, hall⟩, hr⟩
        · rintro ⟨⟨hlt, hall⟩, hr⟩
          exact ⟨_, ⟨_, ⟨hlt, rfl⟩, rfl⟩, ih.mpr ⟨hall, hr⟩⟩
      · simp only [vaddrStepChecked, vaddrStep, hload, if_false, false_implies, true_and,
          Option.bind_eq_bind]
        exact ih

/-- The end of the highest segment is the start value or the end of a segment. -/
theorem vaddrFold_attained (phdrs : List (ElfPhdr w)) (acc : BitVec w × BitVec w) :
    (phdrs.foldl vaddrStep acc).2 = acc.2 ∨
      ∃ ph ∈ phdrs, ph.pType = ptLoad ∧
        (phdrs.foldl vaddrStep acc).2 = ph.pVaddr + ph.pMemsz := by
  induction phdrs generalizing acc with
  | nil => exact .inl rfl
  | cons ph phdrs ih =>
      rw [List.foldl_cons]
      rcases ih (vaddrStep acc ph) with hsame | ⟨q, hq, hload, hend⟩
      · rw [hsame]
        by_cases hload : ph.pType = ptLoad
        · simp only [vaddrStep, hload, if_true]
          split
          · exact .inr ⟨ph, List.mem_cons_self, hload, rfl⟩
          · exact .inl rfl
        · simp only [vaddrStep, hload, if_false]
          exact .inl trivial
      · exact .inr ⟨q, List.mem_cons_of_mem ph hq, hload, hend⟩

theorem vaddrFold_of_no_load {phdrs : List (ElfPhdr w)}
    (h : ∀ ph ∈ phdrs, ph.pType ≠ ptLoad) (acc : BitVec w × BitVec w) :
    phdrs.foldl vaddrStep acc = acc := by
  induction phdrs generalizing acc with
  | nil => rfl
  | cons ph phdrs ih =>
      obtain ⟨hph, hrest⟩ := List.forall_mem_cons.mp h
      rw [List.foldl_cons, ih hrest]
      simp [vaddrStep, hph]

variable [WordSize w]

theorem roundupChecked_page_iff {x y : BitVec w} :
    roundupChecked x (pageSize w) = some y ↔
      x.toNat + 2 ^ 12 < 2 ^ w ∧ y = roundup x (pageSize w) := by
  have hone : (1#w).toNat = 1 := by
    have hlt : 1 < 2 ^ w := Nat.one_lt_two_pow (by have := WordSize.page_lt w; omega)
    rw [BitVec.toNat_ofNat, Nat.mod_eq_of_lt hlt]
  unfold roundupChecked roundup
  rw [if_neg (pageSize_ne_zero w), if_neg (pageSize_ne_zero w)]
  simp only [Option.bind_eq_bind, Option.bind_eq_some_iff, Checked.add_eq_some_iff,
    Checked.sub_eq_some_iff, pageSize_toNat, hone]
  constructor
  · rintro ⟨_, ⟨hlt, rfl⟩, _, ⟨-, rfl⟩, hret⟩
    exact ⟨hlt, (Option.some.inj hret).symm⟩
  · rintro ⟨hlt, rfl⟩
    refine ⟨_, ⟨hlt, rfl⟩, _, ⟨?_, rfl⟩, rfl⟩
    rw [BitVec.toNat_add_of_lt (by rw [pageSize_toNat]; exact hlt), pageSize_toNat]
    omega

theorem createSegmentChecked_iff {ph : ElfPhdr w} {seg : ElfSegment w} :
    ph.createSegmentChecked = some seg ↔
      ph.pVaddr.toNat + ph.pMemsz.toNat + 2 ^ 12 < 2 ^ w ∧
        ph.pFilesz.toNat + ph.pOffset.toNat % 2 ^ 12 < 2 ^ w ∧
        ph.pFilesz.toNat ≤ ph.pMemsz.toNat ∧ seg = ph.createSegment := by
  have halign : (ph.pOffset - rounddown ph.pOffset (pageSize w)).toNat =
      ph.pOffset.toNat % 2 ^ 12 := by
    have hlt := Nat.lt_of_le_of_lt (Nat.mod_le ph.pOffset.toNat (2 ^ 12)) ph.pOffset.isLt
    rw [rounddown_page_sub, BitVec.toNat_ofNat, Nat.mod_eq_of_lt hlt]
  simp only [ElfPhdr.createSegmentChecked, Option.bind_eq_bind, Option.bind_eq_some_iff,
    Checked.add_eq_some_iff, Checked.sub_eq_some_iff, roundupChecked_page_iff]
  constructor
  · rintro ⟨_, ⟨hsum, rfl⟩, _, ⟨hround, rfl⟩, _, ⟨-, rfl⟩, _, ⟨-, rfl⟩, _, ⟨hcontent, rfl⟩, _,
      ⟨hzero, rfl⟩, hret⟩
    rw [BitVec.toNat_add_of_lt hsum] at hround
    rw [halign] at hcontent
    exact ⟨hround, hcontent, hzero, (Option.some.inj hret).symm⟩
  · rintro ⟨hround, hcontent, hzero, rfl⟩
    have hsum : ph.pVaddr.toNat + ph.pMemsz.toNat < 2 ^ w := by omega
    have hend : (ph.pVaddr + ph.pMemsz).toNat = ph.pVaddr.toNat + ph.pMemsz.toNat :=
      BitVec.toNat_add_of_lt hsum
    refine ⟨_, ⟨hsum, rfl⟩, _, ⟨by rwa [hend], rfl⟩, _, ⟨?_, rfl⟩, _, ⟨?_, rfl⟩, _,
      ⟨by rwa [halign], rfl⟩, _, ⟨hzero, rfl⟩, rfl⟩
    · rw [roundup_page_toNat (by rwa [hend]), hend, rounddown_page_toNat, pageLen]
      omega
    · rw [rounddown_page_toNat]
      omega

theorem zeroCallsChecked_iff {addr : BitVec w} {seg : ElfSegment w} {calls : List (MemCall w)} :
    seg.zeroCallsChecked addr = some calls ↔
      (0 < seg.zeroSize → addr.toNat + seg.contentSize.toNat + 2 ^ 12 < 2 ^ w) ∧
        calls = seg.zeroCalls addr := by
  unfold ElfSegment.zeroCallsChecked ElfSegment.zeroCalls
  by_cases hzero : 0 < seg.zeroSize
  · rw [if_pos hzero, if_pos hzero]
    simp only [hzero, forall_const, Option.bind_eq_bind, Option.bind_eq_some_iff,
      Checked.add_eq_some_iff, Checked.sub_eq_some_iff, roundupChecked_page_iff]
    constructor
    · rintro ⟨_, ⟨hsum, rfl⟩, _, ⟨hround, rfl⟩, _, ⟨-, rfl⟩, hret⟩
      rw [BitVec.toNat_add_of_lt hsum] at hround
      refine ⟨hround, ?_⟩
      split at hret
      · rename_i hmore
        rw [if_pos hmore]
        obtain ⟨_, hrest, hret⟩ := Option.bind_eq_some_iff.mp hret
        obtain ⟨-, rfl⟩ := Checked.sub_eq_some_iff.mp hrest
        exact (Option.some.inj hret).symm
      · rename_i hmore
        rw [if_neg hmore]
        exact (Option.some.inj hret).symm
    · rintro ⟨hround, rfl⟩
      have hsum : addr.toNat + seg.contentSize.toNat < 2 ^ w := by omega
      have hstart : (addr + seg.contentSize).toNat = addr.toNat + seg.contentSize.toNat :=
        BitVec.toNat_add_of_lt hsum
      refine ⟨_, ⟨hsum, rfl⟩, _, ⟨by rwa [hstart], rfl⟩, _, ⟨?_, rfl⟩, ?_⟩
      · rw [roundup_page_toNat (by rwa [hstart]), pageLen]
        omega
      · split
        · rename_i hmore
          rw [Option.bind_eq_some_iff]
          exact ⟨_, Checked.sub_eq_some_iff.mpr ⟨Nat.le_of_lt hmore, rfl⟩, rfl⟩
        · rfl
  · rw [if_neg hzero, if_neg hzero]
    constructor
    · intro hret
      exact ⟨fun h => absurd h hzero, (Option.some.inj hret).symm⟩
    · rintro ⟨-, rfl⟩
      rfl

/-- `parse_segments` does not wrap exactly when there is a segment and all of
them end a page below the top of the address space. -/
theorem parseSegmentsChecked_iff {ps : ProgramSegments w}
    {layout : Option (BitVec w) × BitVec w × BitVec w} :
    parseSegmentsChecked ps.phdrs ps.isDylib = some layout ↔
      ps.loads ≠ [] ∧
        (∀ ph ∈ ps.loads, ph.pVaddr.toNat + ph.pMemsz.toNat + 2 ^ 12 < 2 ^ w) ∧
        layout = parseSegments ps.phdrs ps.isDylib := by
  simp only [parseSegmentsChecked, Option.bind_eq_bind, Option.bind_eq_some_iff,
    foldlM_vaddrStepChecked_iff, roundupChecked_page_iff, Checked.sub_eq_some_iff]
  constructor
  · rintro ⟨_, ⟨hsum, rfl⟩, _, ⟨hround, rfl⟩, _, ⟨hle, rfl⟩, hret⟩
    refine ⟨fun hnone => ?_, fun ph hph => ?_, (Option.some.inj hret).symm⟩
    · -- without a segment the lowest address stays at the top
      have hno : ∀ ph ∈ ps.phdrs, ph.pType ≠ ptLoad := by
        intro ph hph hload
        have hin := mem_loads.mpr ⟨hph, hload⟩
        rw [hnone] at hin
        cases hin
      rw [vaddrFold_of_no_load hno, roundup_page_toNat (by simpa using pageSize_lt w),
        rounddown_page_toNat, BitVec.toNat_allOnes] at hle
      have hpage := pageSize_lt w
      have hdvd := page_dvd_word w
      have hzero : (0 : BitVec w).toNat = 0 := BitVec.toNat_zero
      rw [hzero, pageLen] at hle
      omega
    · obtain ⟨hph, hload⟩ := mem_loads.mp hph
      have hhi := (vaddrFold_bounds hph hload (BitVec.allOnes w, 0)).2
      rw [BitVec.le_def, BitVec.toNat_add_of_lt (hsum ph hph hload)] at hhi
      omega
  · rintro ⟨hsome, hfit, rfl⟩
    have hsum : ∀ ph ∈ ps.phdrs, ph.pType = ptLoad →
        ph.pVaddr.toNat + ph.pMemsz.toNat < 2 ^ w := by
      intro ph hph hload
      have hend := hfit ph (mem_loads.mpr ⟨hph, hload⟩)
      omega
    have hround : (ps.phdrs.foldl vaddrStep (BitVec.allOnes w, 0)).2.toNat + 2 ^ 12 < 2 ^ w := by
      rcases vaddrFold_attained ps.phdrs (BitVec.allOnes w, 0) with hzero | ⟨ph, hph, hload, hend⟩
      · rw [hzero]
        simpa using pageSize_lt w
      · rw [hend, BitVec.toNat_add_of_lt (hsum ph hph hload)]
        exact hfit ph (mem_loads.mpr ⟨hph, hload⟩)
    refine ⟨_, ⟨hsum, rfl⟩, _, ⟨hround, rfl⟩, _, ⟨?_, rfl⟩, rfl⟩
    obtain ⟨ph, hph⟩ := List.exists_mem_of_ne_nil _ hsome
    obtain ⟨hph, hload⟩ := mem_loads.mp hph
    obtain ⟨hlo, hhi⟩ := vaddrFold_bounds hph hload (BitVec.allOnes w, 0)
    rw [BitVec.le_def] at hlo hhi
    rw [BitVec.toNat_add_of_lt (hsum ph hph hload)] at hhi
    rw [roundup_page_toNat hround, rounddown_page_toNat, pageLen]
    omega

end Checked

/-! ## The calls of a run -/

/-- What is relied on for addresses: a reservation starts on a page and leaves
the last page of the address space free, and whether a mapping has to be copied
is decided by the descriptor alone, as `copies` says. -/
structure Reserves (M : Mmap w K) (copies : Option Int → Bool) : Prop where
  reserve : ∀ {addr len useFile s p s'}, M.mmapReserve addr len useFile s = .ok p s' →
    PageAligned p ∧ p.toNat + len.toNat + 2 ^ 12 ≤ 2 ^ w
  flag : ∀ {addr len prot flags offset fd s p needCopy s'},
    M.mmap (some addr) len prot flags offset fd s = .ok (p, needCopy) s' → needCopy = copies fd

/-- Reading does not change the descriptor of an object. -/
structure KeepsFd (R : ElfReader w O) : Prop where
  read : ∀ {len offset o bytes o'}, R.read len offset o = .ok bytes o' → R.asFd o' = R.asFd o

/-- The calls for one header in an image at `base`. -/
def ElfPhdr.calls (base : BitVec w) (needCopy : Bool) (ph : ElfPhdr w) : List (MemCall w) :=
  let addr := base + rounddown ph.pVaddr (pageSize w)
  .map addr ph.createSegment.len (rounddown ph.pOffset (pageSize w)) ::
    (if needCopy then [.copy addr ph.createSegment.contentSize] else []) ++
    ph.createSegment.zeroCalls addr

section Calls

variable {M : Mmap w K} {R : ElfReader w O} {copies : Option Int → Bool}

theorem mmapSegment_calls (hM : Reserves M copies) {seg seg' : ElfSegment w}
    {info : FileMapInfo w} {A : BitVec w} {s s' : LoadState w K O}
    (haddr : seg.addr = .absolute A) (hinfo : seg.mapInfo = [info])
    (h : seg.mmapSegment M R s = .ok seg' s') :
    s'.calls = s.calls ++ [.map A seg.len info.offset] ∧ s'.object = s.object ∧
      seg' = { seg with needCopy := copies (R.asFd s.object) } := by
  simp only [ElfSegment.mmapSegment, haddr, hinfo, Address.absoluteAddr, Exec.bind_ok_iff,
    Exec.lift_ok_iff, Load.onOs_ok_iff] at h
  obtain ⟨_, _, ⟨hA, rfl⟩, _, _, hget, _, _, hrec, ⟨p, needCopy⟩, _, ⟨os, hmap, rfl⟩, hret⟩ := h
  cases hA
  cases hget
  cases hrec
  cases hret
  have hflag := hM.flag hmap
  subst hflag
  exact ⟨rfl, rfl, by rw [haddr, hinfo]⟩

theorem copyData_calls (hR : KeepsFd R) {seg : ElfSegment w} {info : FileMapInfo w}
    {A : BitVec w} {s s' : LoadState w K O} (haddr : seg.addr = .absolute A)
    (hinfo : seg.mapInfo = [info]) (h : seg.copyData R s = .ok () s') :
    s'.calls = s.calls ++ (if seg.needCopy then [.copy (A + info.start) info.filesz] else []) ∧
      R.asFd s'.object = R.asFd s.object := by
  cases hcopy : seg.needCopy with
  | false =>
      have hsame := copyData_of_mapped hcopy h
      rw [hsame]
      simp
  | true =>
      simp only [ElfSegment.copyData, hcopy, haddr, hinfo, Address.absoluteAddr, if_true,
        Exec.bind_ok_iff, Exec.lift_ok_iff] at h
      obtain ⟨_, _, ⟨hA, rfl⟩, hloop⟩ := h
      cases hA
      obtain ⟨s₁, hbody, hrest⟩ := Exec.forM_cons_ok_iff.mp hloop
      cases hrest
      simp only [ElfSegment.copyInfo, Exec.bind_ok_iff, Load.onObject_ok_iff] at hbody
      obtain ⟨_, _, hrec, bytes, _, ⟨o, hread, rfl⟩, hwrite⟩ := hbody
      cases hrec
      cases hwrite
      exact ⟨rfl, hR.read hread⟩

theorem fillZero_calls {seg : ElfSegment w} {A : BitVec w} {s s' : LoadState w K O}
    (haddr : seg.addr = .absolute A) (h : seg.fillZero M s = .ok () s') :
    s'.calls = s.calls ++ seg.zeroCalls A ∧ s'.object = s.object := by
  unfold ElfSegment.fillZero at h
  unfold ElfSegment.zeroCalls
  by_cases hz : 0 < seg.zeroSize
  · simp only [hz, if_true, haddr, Address.absoluteAddr, Exec.bind_ok_iff, Exec.lift_ok_iff] at h
    obtain ⟨_, _, ⟨hA, rfl⟩, _, _, hrec, _, _, hpage, h⟩ := h
    cases hA
    cases hrec
    cases hpage
    simp only [hz, if_true]
    by_cases hmore : roundup (A + seg.contentSize) (pageSize w) - (A + seg.contentSize) <
        seg.zeroSize
    · simp only [hmore, if_true, Exec.bind_ok_iff, Load.onOs_ok_iff] at h ⊢
      obtain ⟨_, _, hrec, _, _, ⟨os, hanon, rfl⟩, hret⟩ := h
      cases hrec
      cases hret
      exact ⟨List.append_assoc .., rfl⟩
    · simp only [hmore, if_false] at h ⊢
      cases h
      exact ⟨rfl, rfl⟩
  · simp only [hz, if_false] at h ⊢
    cases h
    exact ⟨(List.append_nil _).symm, rfl⟩

theorem load_calls (hM : Reserves M copies) (hR : KeepsFd R) {ph : ElfPhdr w} {base : BitVec w}
    {seg : ElfSegment w} {s s' : LoadState w K O}
    (h : ph.createSegment.load M R base s = .ok seg s') :
    s'.calls = s.calls ++ ph.calls base (copies (R.asFd s.object)) ∧
      R.asFd s'.object = R.asFd s.object := by
  simp only [ElfSegment.load, Exec.bind_ok_iff, Exec.lift_ok_iff] at h
  obtain ⟨seg₁, _, ⟨hrebase, rfl⟩, seg₂, s₂, hmap, _, s₃, hcopy, _, s₄, hzero, hret⟩ := h
  cases hret
  have hseg : seg₁ = { ph.createSegment with
      addr := .absolute (base + rounddown ph.pVaddr (pageSize w)) } :=
    (Except.ok.inj hrebase).symm
  subst hseg
  obtain ⟨hcalls₂, hobj₂, rfl⟩ := mmapSegment_calls hM rfl rfl hmap
  obtain ⟨hcalls₃, hfd₃⟩ := copyData_calls hR rfl rfl hcopy
  obtain ⟨hcalls₄, hobj₄⟩ := fillZero_calls rfl hzero
  refine ⟨?_, by rw [hobj₄, hfd₃, hobj₂]⟩
  have hstart : base + rounddown ph.pVaddr (pageSize w) + (0 : BitVec w) =
      base + rounddown ph.pVaddr (pageSize w) := BitVec.add_zero _
  rw [hcalls₄, hcalls₃, hcalls₂, hstart, List.append_assoc, List.append_assoc]
  rfl

theorem loadAll_calls (hM : Reserves M copies) (hR : KeepsFd R) {phs : List (ElfPhdr w)}
    {base : BitVec w} {segs : List (ElfSegment w)} {s s' : LoadState w K O}
    (h : ElfSegment.loadAll M R base (phs.map ElfPhdr.createSegment) s = .ok segs s') :
    s'.calls = s.calls ++ phs.flatMap (ElfPhdr.calls base (copies (R.asFd s.object))) := by
  induction phs generalizing segs s with
  | nil =>
      cases h
      exact (List.append_nil _).symm
  | cons ph phs ih =>
      simp only [List.map_cons, ElfSegment.loadAll, Exec.bind_ok_iff] at h
      obtain ⟨seg, s₁, hhead, rest, s₂, htail, hret⟩ := h
      cases hret
      obtain ⟨hcalls, hfd⟩ := load_calls hM hR hhead
      rw [ih htail, hcalls, hfd, List.flatMap_cons, List.append_assoc]

/-- A run reserves the space and then makes the calls of its headers, in order. -/
theorem loadSegments_calls (hM : Reserves M copies) (hR : KeepsFd R) {ps : ProgramSegments w}
    {space : ElfSegments w} {segs : List (ElfSegment w)} {s s' : LoadState w K O}
    (h : ps.loadSegments M R s = .ok (space, segs) s') :
    space.len = (parseSegments ps.phdrs ps.isDylib).2.1 ∧
      space.offset = (parseSegments ps.phdrs ps.isDylib).2.2 ∧
      PageAligned space.memory ∧ space.memory.toNat + space.len.toNat + 2 ^ 12 ≤ 2 ^ w ∧
      s'.calls = s.calls ++ .reserve (parseSegments ps.phdrs ps.isDylib).1 space.len ::
        ps.loads.flatMap (ElfPhdr.calls space.base (copies (R.asFd s.object))) := by
  simp only [ProgramSegments.loadSegments, loadSegments, ProgramSegments.createSpace,
    ProgramSegments.createSegments, Exec.bind_ok_iff, Load.onOs_ok_iff] at h
  obtain ⟨_, _, ⟨_, _, hrec, p, _, ⟨os, hreserve, rfl⟩, hspace⟩, _, _, hsegs, segs', s₂, hall,
    hret⟩ := h
  cases hrec
  cases hspace
  cases hsegs
  cases hret
  obtain ⟨haligned, hfits⟩ := hM.reserve hreserve
  refine ⟨rfl, rfl, haligned, hfits, ?_⟩
  rw [loadAll_calls hM hR hall]
  exact List.append_assoc ..

end Calls

/-! ## Which headers stay inside -/

/-- The range of a call against the reservation. -/
def MemCall.range : MemCall w → Option (BitVec w × BitVec w)
  | .reserve _ _ => none
  | .map addr len _ => some (addr, len)
  | .copy addr len => some (addr, len)
  | .zero addr len => some (addr, len)
  | .anonymous addr len => some (addr, len)
  | .protect addr len _ => some (addr, len)

def MemCall.Inside (space : ElfSegments w) (c : MemCall w) : Prop :=
  ∀ r ∈ c.range, ∀ a, Within r.1 r.2.toNat a → Within space.memory space.len.toNat a

/-- No addition or subtraction of `parse_segments`, `create_segment` and
`fill_zero` wraps. -/
structure ProgramSegments.NoWrap (ps : ProgramSegments w) (space : ElfSegments w) : Prop where
  parse : ∃ layout, parseSegmentsChecked ps.phdrs ps.isDylib = some layout
  create : ∀ ph ∈ ps.loads, ∃ seg, ph.createSegmentChecked = some seg
  fill : ∀ ph ∈ ps.loads, ∃ calls, ph.createSegment.zeroCallsChecked
    (space.base + rounddown ph.pVaddr (pageSize w)) = some calls

/-- What headers have to satisfy: there is a segment, no segment has more file
bytes than memory or comes within a page of the top of the address space, and
one that is copied or zero-filled ends, counted from its first page with the
residue of its file offset, in a page of some segment or below. -/
structure ProgramSegments.Fits (ps : ProgramSegments w) (needCopy : Bool) : Prop where
  some_load : ps.loads ≠ []
  filesz_le : ∀ ph ∈ ps.loads, ph.pFilesz.toNat ≤ ph.pMemsz.toNat
  end_lt : ∀ ph ∈ ps.loads, ph.pVaddr.toNat + ph.pMemsz.toNat + 2 ^ 12 < 2 ^ w
  end_le : ∀ ph ∈ ps.loads, ph.pFilesz.toNat < ph.pMemsz.toNat ∨ needCopy = true →
    ∃ q ∈ ps.loads, ph.pVaddr.toNat - ph.pVaddr.toNat % 2 ^ 12 + ph.pOffset.toNat % 2 ^ 12 +
      ph.pMemsz.toNat ≤ pageLen (q.pVaddr.toNat + q.pMemsz.toNat)

section Inside

/-- The image lies at `memory` with its first page at virtual address `lo` and
its end in the page of `hi`. -/
structure ImageAt (space : ElfSegments w) (lo hi : Nat) : Prop where
  offset : space.offset.toNat = lo
  lo_page : lo % 2 ^ 12 = 0
  lo_le : lo ≤ pageLen hi
  len : space.len.toNat = pageLen hi - lo
  aligned : PageAligned space.memory
  fits : space.memory.toNat + space.len.toNat + 2 ^ 12 ≤ 2 ^ w

/-- The page offset of a header in an image whose first page is `lo`. -/
def ElfPhdr.pageAt (lo : Nat) (ph : ElfPhdr w) : Nat :=
  ph.pVaddr.toNat - ph.pVaddr.toNat % 2 ^ 12 - lo

variable {space : ElfSegments w} {lo hi : Nat} {ph : ElfPhdr w}

theorem inside_iff {c : MemCall w} {addr len : BitVec w} {e : Nat}
    (hrange : c.range = some (addr, len)) (haddr : addr = space.memory + BitVec.ofNat w e)
    (he : e < 2 ^ w) :
    c.Inside space ↔ len.toNat = 0 ∨ e + len.toNat ≤ space.len.toNat := by
  unfold MemCall.Inside
  rw [hrange, haddr]
  simp only [Option.mem_some_iff, forall_eq']
  exact within_subset_iff he space.len.isLt

theorem zeroSize_toNat (hle : ph.pFilesz.toNat ≤ ph.pMemsz.toNat) :
    ph.createSegment.zeroSize.toNat = ph.pMemsz.toNat - ph.pFilesz.toNat :=
  BitVec.toNat_sub_of_le hle

theorem zeroSize_pos_iff (hle : ph.pFilesz.toNat ≤ ph.pMemsz.toNat) :
    0 < ph.createSegment.zeroSize ↔ ph.pFilesz.toNat < ph.pMemsz.toNat := by
  rw [BitVec.lt_def, zeroSize_toNat hle]
  change 0 % 2 ^ w < _ ↔ _
  rw [Nat.zero_mod]
  omega

variable [WordSize w]

/-- Where the first page of a header lands. -/
theorem ImageAt.addr_eq (hspace : ImageAt space lo hi)
    (hlo : lo ≤ ph.pVaddr.toNat - ph.pVaddr.toNat % 2 ^ 12) :
    space.base + rounddown ph.pVaddr (pageSize w) =
      space.memory + BitVec.ofNat w (ph.pageAt lo) := by
  have hoffset : space.offset = BitVec.ofNat w lo := by
    rw [← hspace.offset, BitVec.ofNat_toNat, BitVec.setWidth_eq]
  have hlt : lo < 2 ^ w := by
    rw [← hspace.offset]
    exact space.offset.isLt
  rw [ElfPhdr.pageAt, ElfSegments.base, hoffset, rounddown_page,
    ← BitVec.ofNat_sub_ofNat_of_le _ _ hlt hlo]
  grind

theorem contentSize_toNat (hcontent : ph.pFilesz.toNat + ph.pOffset.toNat % 2 ^ 12 < 2 ^ w) :
    ph.createSegment.contentSize.toNat = ph.pFilesz.toNat + ph.pOffset.toNat % 2 ^ 12 := by
  change (ph.pFilesz + (ph.pOffset - rounddown ph.pOffset (pageSize w))).toNat = _
  rw [rounddown_page_sub, BitVec.toNat_add, BitVec.toNat_ofNat, Nat.add_mod_mod,
    Nat.mod_eq_of_lt hcontent]

/-- The mapping of a header always stays inside. -/
theorem map_inside (hspace : ImageAt space lo hi)
    (hlo : lo ≤ ph.pVaddr.toNat - ph.pVaddr.toNat % 2 ^ 12)
    (hhi : ph.pVaddr.toNat + ph.pMemsz.toNat ≤ hi)
    (hend : ph.pVaddr.toNat + ph.pMemsz.toNat + 2 ^ 12 < 2 ^ w) (offset : BitVec w) :
    (MemCall.map (space.base + rounddown ph.pVaddr (pageSize w)) ph.createSegment.len
      offset).Inside space := by
  have hsum : (ph.pVaddr + ph.pMemsz).toNat = ph.pVaddr.toNat + ph.pMemsz.toNat :=
    BitVec.toNat_add_of_lt (by omega)
  have hup : (roundup (ph.pVaddr + ph.pMemsz) (pageSize w)).toNat =
      pageLen (ph.pVaddr.toNat + ph.pMemsz.toNat) := by
    rw [roundup_page_toNat (by rwa [hsum]), hsum]
  have hlen : ph.createSegment.len.toNat = pageLen (ph.pVaddr.toNat + ph.pMemsz.toNat) -
      (ph.pVaddr.toNat - ph.pVaddr.toNat % 2 ^ 12) := by
    change (roundup (ph.pVaddr + ph.pMemsz) (pageSize w) -
      rounddown ph.pVaddr (pageSize w)).toNat = _
    rw [BitVec.toNat_sub_of_le, hup, rounddown_page_toNat]
    rw [BitVec.le_def, hup, rounddown_page_toNat, pageLen]
    omega
  rw [inside_iff rfl (hspace.addr_eq hlo) (by unfold ElfPhdr.pageAt; omega)]
  right
  have hT := hspace.len
  rw [hlen, hT]
  unfold ElfPhdr.pageAt pageLen at *
  omega

theorem copy_inside_iff (hspace : ImageAt space lo hi)
    (hlo : lo ≤ ph.pVaddr.toNat - ph.pVaddr.toNat % 2 ^ 12)
    (hhi : ph.pVaddr.toNat + ph.pMemsz.toNat ≤ hi)
    (hcontent : ph.pFilesz.toNat + ph.pOffset.toNat % 2 ^ 12 < 2 ^ w) :
    (MemCall.copy (space.base + rounddown ph.pVaddr (pageSize w))
        ph.createSegment.contentSize).Inside space ↔
      ph.pageAt lo + ph.pOffset.toNat % 2 ^ 12 + ph.pFilesz.toNat ≤ space.len.toNat := by
  rw [inside_iff rfl (hspace.addr_eq hlo) (by unfold ElfPhdr.pageAt; omega),
    contentSize_toNat hcontent]
  have hT := hspace.len
  rw [hT]
  unfold ElfPhdr.pageAt pageLen at *
  omega

/-- All zero filling stays inside exactly when the memory of the header, moved by
the residue of its file offset, does. -/
theorem zeroCalls_inside_iff (hspace : ImageAt space lo hi)
    (hlo : lo ≤ ph.pVaddr.toNat - ph.pVaddr.toNat % 2 ^ 12)
    (hle : ph.pFilesz.toNat ≤ ph.pMemsz.toNat)
    (hcontent : ph.pFilesz.toNat + ph.pOffset.toNat % 2 ^ 12 < 2 ^ w)
    (hfill : ph.pFilesz.toNat < ph.pMemsz.toNat →
      ph.pageAt lo + (ph.pFilesz.toNat + ph.pOffset.toNat % 2 ^ 12) + 2 ^ 12 < 2 ^ w) :
    (∀ c ∈ ph.createSegment.zeroCalls (space.base + rounddown ph.pVaddr (pageSize w)),
        c.Inside space) ↔
      (ph.pFilesz.toNat < ph.pMemsz.toNat →
        ph.pageAt lo + ph.pOffset.toNat % 2 ^ 12 + ph.pMemsz.toNat ≤ space.len.toNat) := by
  unfold ElfSegment.zeroCalls
  by_cases hzero : ph.pFilesz.toNat < ph.pMemsz.toNat
  · have hfill := hfill hzero
    have hsize : ph.createSegment.contentSize =
        BitVec.ofNat w (ph.pFilesz.toNat + ph.pOffset.toNat % 2 ^ 12) := by
      rw [← contentSize_toNat hcontent, BitVec.ofNat_toNat, BitVec.setWidth_eq]
    have hpos := zeroSize_toNat hle
    rw [if_pos ((zeroSize_pos_iff hle).mpr hzero), hspace.addr_eq hlo, hsize, BitVec.add_assoc,
      ← BitVec.ofNat_add]
    dsimp only
    generalize hc : ph.pageAt lo + (ph.pFilesz.toNat + ph.pOffset.toNat % 2 ^ 12) = c at *
    obtain ⟨hend, hgap⟩ := roundup_page_add hspace.aligned (Nat.lt_of_add_right_lt hfill)
    -- both ends of the reservation are page boundaries
    have hlen : space.len.toNat % 2 ^ 12 = 0 := by
      have hlen := hspace.len
      have hlo_page := hspace.lo_page
      unfold pageLen at hlen
      omega
    have hup : c ≤ pageLen c ∧ pageLen c < c + 2 ^ 12 ∧ pageLen c % 2 ^ 12 = 0 := by
      unfold pageLen
      omega
    generalize hz : roundup (space.memory + BitVec.ofNat w c) (pageSize w) = zeroEnd at *
    have hfirst : (MemCall.zero (space.memory + BitVec.ofNat w c)
          (zeroEnd - (space.memory + BitVec.ofNat w c))).Inside space ↔
        pageLen c - c = 0 ∨ c + (pageLen c - c) ≤ space.len.toNat := by
      rw [← hgap]
      exact inside_iff rfl rfl (by omega)
    by_cases hmore : zeroEnd - (space.memory + BitVec.ofNat w c) < ph.createSegment.zeroSize
    · have hlong := hmore
      rw [BitVec.lt_def, hgap, hpos] at hlong
      have hrest : (MemCall.anonymous zeroEnd (ph.createSegment.zeroSize -
            (zeroEnd - (space.memory + BitVec.ofNat w c)))).Inside space ↔
          ph.pMemsz.toNat - ph.pFilesz.toNat - (pageLen c - c) = 0 ∨
            pageLen c + (ph.pMemsz.toNat - ph.pFilesz.toNat - (pageLen c - c)) ≤
              space.len.toNat := by
        rw [← hgap, ← hpos, ← BitVec.toNat_sub_of_le (Nat.le_of_lt hmore)]
        exact inside_iff rfl hend (by omega)
      simp only [hmore, if_true, List.forall_mem_cons, hfirst, hrest, List.not_mem_nil,
        false_implies, implies_true, and_true, hzero, forall_const]
      omega
    · have hshort := hmore
      rw [BitVec.lt_def, hgap, hpos] at hshort
      simp only [hmore, if_false, List.forall_mem_cons, hfirst, List.not_mem_nil,
        false_implies, implies_true, and_true, hzero, forall_const]
      omega
  · rw [if_neg (fun h => hzero ((zeroSize_pos_iff hle).mp h))]
    simp [hzero]

/-- The calls for one header stay inside exactly when the header, moved by the
residue of its file offset, fits where it is copied or zero-filled. -/
theorem calls_inside_iff (hspace : ImageAt space lo hi)
    (hlo : lo ≤ ph.pVaddr.toNat - ph.pVaddr.toNat % 2 ^ 12)
    (hhi : ph.pVaddr.toNat + ph.pMemsz.toNat ≤ hi)
    (hend : ph.pVaddr.toNat + ph.pMemsz.toNat + 2 ^ 12 < 2 ^ w)
    (hle : ph.pFilesz.toNat ≤ ph.pMemsz.toNat)
    (hfill : ph.pFilesz.toNat < ph.pMemsz.toNat →
      ph.pageAt lo + (ph.pFilesz.toNat + ph.pOffset.toNat % 2 ^ 12) + 2 ^ 12 < 2 ^ w)
    (needCopy : Bool) :
    (∀ c ∈ ph.calls space.base needCopy, c.Inside space) ↔
      (ph.pFilesz.toNat < ph.pMemsz.toNat ∨ needCopy = true →
        ph.pageAt lo + ph.pOffset.toNat % 2 ^ 12 + ph.pMemsz.toNat ≤ space.len.toNat) := by
  have hcontent : ph.pFilesz.toNat + ph.pOffset.toNat % 2 ^ 12 < 2 ^ w := by omega
  have hmap := map_inside hspace hlo hhi hend (rounddown ph.pOffset (pageSize w))
  have hcopy := copy_inside_iff hspace hlo hhi hcontent
  have hzero := zeroCalls_inside_iff hspace hlo hle hcontent hfill
  unfold ElfPhdr.calls
  rw [List.forall_mem_append, hzero, List.forall_mem_cons]
  cases needCopy with
  | false => simp [hmap]
  | true =>
      simp only [hmap, true_and, if_true, List.forall_mem_singleton, hcopy, or_true, forall_const]
      omega

/-- The space of a run without overflow: it spans the pages of all segments and
ends with one of them. -/
theorem parseSegments_imageAt {ps : ProgramSegments w} (hsome : ps.loads ≠ [])
    (hend : ∀ ph ∈ ps.loads, ph.pVaddr.toNat + ph.pMemsz.toNat + 2 ^ 12 < 2 ^ w)
    (hlen : space.len = (parseSegments ps.phdrs ps.isDylib).2.1)
    (hoffset : space.offset = (parseSegments ps.phdrs ps.isDylib).2.2)
    (haligned : PageAligned space.memory)
    (hfits : space.memory.toNat + space.len.toNat + 2 ^ 12 ≤ 2 ^ w) :
    ∃ lo hi, ImageAt space lo hi ∧
      (∀ ph ∈ ps.loads, lo ≤ ph.pVaddr.toNat - ph.pVaddr.toNat % 2 ^ 12 ∧
        ph.pVaddr.toNat + ph.pMemsz.toNat ≤ hi) ∧
      ∃ q ∈ ps.loads, q.pVaddr.toNat + q.pMemsz.toNat = hi := by
  have hbounds : ∀ ph ∈ ps.loads, (vaddrBounds ps.phdrs).1.toNat ≤ ph.pVaddr.toNat ∧
      ph.pVaddr.toNat + ph.pMemsz.toNat ≤ (vaddrBounds ps.phdrs).2.toNat := by
    intro ph hph
    have hfit := hend ph hph
    obtain ⟨hmem, hload⟩ := mem_loads.mp hph
    obtain ⟨hlo, hhi⟩ := vaddrFold_bounds hmem hload (BitVec.allOnes w, 0)
    rw [BitVec.le_def] at hlo hhi
    rw [BitVec.toNat_add_of_lt (by omega)] at hhi
    exact ⟨hlo, hhi⟩
  have hlast : ∃ q ∈ ps.loads, q.pVaddr.toNat + q.pMemsz.toNat =
      (vaddrBounds ps.phdrs).2.toNat := by
    rcases vaddrFold_attained ps.phdrs (BitVec.allOnes w, 0) with hzero | ⟨q, hq, hload, hqe⟩
    · obtain ⟨q, hq⟩ := List.exists_mem_of_ne_nil _ hsome
      have hle := (hbounds q hq).2
      have hnone : (vaddrBounds ps.phdrs).2.toNat = 0 := congrArg BitVec.toNat hzero
      exact ⟨q, hq, by omega⟩
    · have hfit := hend q (mem_loads.mpr ⟨hq, hload⟩)
      refine ⟨q, mem_loads.mpr ⟨hq, hload⟩, ?_⟩
      rw [← BitVec.toNat_add_of_lt (by omega)]
      exact (congrArg BitVec.toNat hqe).symm
  obtain ⟨q, hq, hqe⟩ := hlast
  have hup : (roundup (vaddrBounds ps.phdrs).2 (pageSize w)).toNat =
      pageLen (vaddrBounds ps.phdrs).2.toNat := by
    have hfit := hend q hq
    exact roundup_page_toNat (by omega)
  have hdown := rounddown_page_toNat (vaddrBounds ps.phdrs).1
  have hle : (rounddown (vaddrBounds ps.phdrs).1 (pageSize w)).toNat ≤
      (roundup (vaddrBounds ps.phdrs).2 (pageSize w)).toNat := by
    have hfirst := hbounds q hq
    rw [hup, hdown, pageLen]
    omega
  refine ⟨(rounddown (vaddrBounds ps.phdrs).1 (pageSize w)).toNat,
    (vaddrBounds ps.phdrs).2.toNat, ⟨congrArg BitVec.toNat hoffset, ?_, hup ▸ hle, ?_, haligned,
    hfits⟩, ?_, q, hq, hqe⟩
  · rw [hdown]
    omega
  · rw [hlen, ← hup, ← BitVec.toNat_sub_of_le hle]
    rfl
  · intro ph hph
    have hfirst := hbounds ph hph
    rw [hdown]
    exact ⟨by omega, hfirst.2⟩

end Inside

section Run

variable [WordSize w] {M : Mmap w K} {R : ElfReader w O} {copies : Option Int → Bool}
  {space : ElfSegments w} {lo hi : Nat} {ph : ElfPhdr w}

/-- The check of the zero part, in terms of the page of the header. -/
theorem fill_iff (hspace : ImageAt space lo hi)
    (hlo : lo ≤ ph.pVaddr.toNat - ph.pVaddr.toNat % 2 ^ 12)
    (hhi : ph.pVaddr.toNat + ph.pMemsz.toNat ≤ hi)
    (hend : ph.pVaddr.toNat + ph.pMemsz.toNat + 2 ^ 12 < 2 ^ w)
    (hle : ph.pFilesz.toNat ≤ ph.pMemsz.toNat) :
    (∃ calls, ph.createSegment.zeroCallsChecked
        (space.base + rounddown ph.pVaddr (pageSize w)) = some calls) ↔
      (ph.pFilesz.toNat < ph.pMemsz.toNat → space.memory.toNat + ph.pageAt lo +
        (ph.pFilesz.toNat + ph.pOffset.toNat % 2 ^ 12) + 2 ^ 12 < 2 ^ w) := by
  have hpage : space.memory.toNat + ph.pageAt lo < 2 ^ w := by
    have hlen := hspace.len
    have hfits := hspace.fits
    unfold ElfPhdr.pageAt
    unfold pageLen at hlen
    omega
  have hat : (space.memory + BitVec.ofNat w (ph.pageAt lo)).toNat =
      space.memory.toNat + ph.pageAt lo := by
    rw [BitVec.toNat_add, BitVec.toNat_ofNat, Nat.add_mod_mod, Nat.mod_eq_of_lt hpage]
  simp only [zeroCallsChecked_iff, exists_and_left, exists_eq, and_true, zeroSize_pos_iff hle,
    hspace.addr_eq hlo, hat, contentSize_toNat (by omega : ph.pFilesz.toNat +
      ph.pOffset.toNat % 2 ^ 12 < 2 ^ w)]

/-- A run stays inside its reservation and wraps nowhere exactly when its headers
fit; `load_segments` checks none of it. -/
theorem ProgramSegments.contained_iff_fits (hM : Reserves M copies) (hR : KeepsFd R)
    {ps : ProgramSegments w} {segs : List (ElfSegment w)} {s s' : LoadState w K O}
    (hcalls : s.calls = [])
    (hrun : ps.loadSegments M R s = .ok (space, segs) s') :
    ((∀ c ∈ s'.calls, c.Inside space) ∧ ps.NoWrap space) ↔
      ps.Fits (copies (R.asFd s.object)) := by
  obtain ⟨hlen, hoffset, haligned, hfits, hmade⟩ := loadSegments_calls hM hR hrun
  have hreserve : ∀ addr len, (MemCall.reserve addr len).Inside space := by
    intro addr len r hr
    cases hr
  have hall : (∀ c ∈ s'.calls, c.Inside space) ↔ ∀ ph ∈ ps.loads,
      ∀ c ∈ ph.calls space.base (copies (R.asFd s.object)), c.Inside space := by
    rw [hmade, hcalls, List.nil_append, List.forall_mem_cons]
    simp only [hreserve, true_and, List.mem_flatMap]
    exact ⟨fun h ph hph c hc => h c ⟨ph, hph, hc⟩, fun h c ⟨ph, hph, hc⟩ => h ph hph c hc⟩
  rw [hall]
  constructor
  · rintro ⟨hinside, hparse, hcreate, hfill⟩
    obtain ⟨layout, hparse⟩ := hparse
    obtain ⟨hsome, hend, -⟩ := parseSegmentsChecked_iff.mp hparse
    have hle : ∀ ph ∈ ps.loads, ph.pFilesz.toNat ≤ ph.pMemsz.toNat := by
      intro ph hph
      obtain ⟨seg, hseg⟩ := hcreate ph hph
      exact (createSegmentChecked_iff.mp hseg).2.2.1
    obtain ⟨lo, hi, hspace, hbounds, q, hq, hqe⟩ :=
      parseSegments_imageAt hsome hend hlen hoffset haligned hfits
    refine ⟨hsome, hle, hend, fun ph hph hused => ⟨q, hq, ?_⟩⟩
    obtain ⟨hlo, hhi⟩ := hbounds ph hph
    have hroom := (fill_iff hspace hlo hhi (hend ph hph) (hle ph hph)).mp (hfill ph hph)
    have hin := (calls_inside_iff hspace hlo hhi (hend ph hph) (hle ph hph)
      (fun hzero => by have := hroom hzero; omega) _).mp (hinside ph hph) hused
    have hT := hspace.len
    have hlo_le := hspace.lo_le
    rw [hqe]
    unfold ElfPhdr.pageAt at hin
    omega
  · intro hfit
    obtain ⟨lo, hi, hspace, hbounds, q, hq, hqe⟩ :=
      parseSegments_imageAt hfit.some_load hfit.end_lt hlen hoffset haligned hfits
    -- what a header needs, counted from the start of the reservation
    have hneed : ∀ ph ∈ ps.loads,
        ph.pFilesz.toNat < ph.pMemsz.toNat ∨ copies (R.asFd s.object) = true →
          ph.pageAt lo + ph.pOffset.toNat % 2 ^ 12 + ph.pMemsz.toNat ≤ space.len.toNat := by
      intro ph hph hused
      obtain ⟨r, hr, hle⟩ := hfit.end_le ph hph hused
      have hlast := (hbounds r hr).2
      have hfirst := (hbounds ph hph).1
      have hT := hspace.len
      have hmono : pageLen (r.pVaddr.toNat + r.pMemsz.toNat) ≤ pageLen hi := by
        unfold pageLen
        omega
      unfold ElfPhdr.pageAt
      omega
    have hroom : ∀ ph ∈ ps.loads, ph.pFilesz.toNat < ph.pMemsz.toNat →
        space.memory.toNat + ph.pageAt lo +
          (ph.pFilesz.toNat + ph.pOffset.toNat % 2 ^ 12) + 2 ^ 12 < 2 ^ w := by
      intro ph hph hzero
      have hin := hneed ph hph (.inl hzero)
      omega
    refine ⟨fun ph hph => ?_, ⟨?_, fun ph hph => ?_, fun ph hph => ?_⟩⟩
    · obtain ⟨hlo, hhi⟩ := hbounds ph hph
      exact (calls_inside_iff hspace hlo hhi (hfit.end_lt ph hph) (hfit.filesz_le ph hph)
        (fun hzero => by have := hroom ph hph hzero; omega) _).mpr (hneed ph hph)
    · exact ⟨_, parseSegmentsChecked_iff.mpr ⟨hfit.some_load, hfit.end_lt, rfl⟩⟩
    · have hend := hfit.end_lt ph hph
      have hle := hfit.filesz_le ph hph
      exact ⟨_, createSegmentChecked_iff.mpr ⟨hend, by omega, hle, rfl⟩⟩
    · obtain ⟨hlo, hhi⟩ := hbounds ph hph
      exact (fill_iff hspace hlo hhi (hfit.end_lt ph hph) (hfit.filesz_le ph hph)).mpr
        (hroom ph hph)

end Run

/-! ## Headers that fit and headers that do not -/

/-- `unixMmap` on a kernel that never hands out the last page of the address space. -/
def guardedMmap (file : List UInt8) (free : BitVec w) : Mmap w Unit :=
  { unixMmap file free with
    mmapReserve := fun addr len useFile s =>
      if (rounddown (addr.getD free) (pageSize w)).toNat + len.toNat + 2 ^ 12 ≤ 2 ^ w then
        (unixMmap file free).mmapReserve addr len useFile s
      else .error (.err (.mmap "mmap failed")) s }

theorem guardedMmap_reserves [WordSize w] (file : List UInt8) (free : BitVec w) :
    Reserves (guardedMmap file free) (fun fd => fd.isNone) where
  reserve := by
    intro addr len useFile s p s' h
    simp only [guardedMmap, unixMmap] at h
    split at h
    · split at h
      · cases h
      · cases h
        exact ⟨pageAligned_rounddown _, ‹_›⟩
    · cases h
  flag := by
    intro addr len prot flags offset fd s p needCopy s' h
    cases fd with
    | none =>
        cases h
        rfl
    | some fd =>
        cases h
        rfl

theorem bytesReader_keepsFd (file : List UInt8) (fd : Option Int) :
    KeepsFd (bytesReader file fd : ElfReader w Unit) where
  read := fun _ => rfl

theorem two_headers_stay_inside :
    ∃ space segs s',
      twoHeaders.loadSegments (guardedMmap [10, 20, 30] 0x10000) (bytesReader [10, 20, 30] none)
          ⟨⟨fun _ => 9, ()⟩, (), []⟩ = .ok (space, segs) s' ∧
      (∀ c ∈ s'.calls, c.Inside space) ∧ twoHeaders.NoWrap space := by
  have hreturns : Exec.returned (twoHeaders.loadSegments (guardedMmap [10, 20, 30] 0x10000)
      (bytesReader [10, 20, 30] none) ⟨⟨fun _ => 9, ()⟩, (), []⟩) = true := rfl
  obtain ⟨⟨space, segs⟩, s', hrun⟩ := Exec.exists_of_returned hreturns
  refine ⟨space, segs, s', hrun, (ProgramSegments.contained_iff_fits
    (guardedMmap_reserves _ _) (bytesReader_keepsFd _ _) rfl hrun).mpr ?_⟩
  have hloads : twoHeaders.loads = twoHeaders.phdrs := rfl
  constructor <;> rw [hloads] <;> decide

/-- One segment whose file offset is not congruent to its address. -/
def incongruentHeader : ProgramSegments 64 where
  phdrs := [{ pType := ptLoad, pFlags := pfW, pOffset := 1, pVaddr := 0, pPaddr := 0,
              pFilesz := 1, pMemsz := 0x1000, pAlign := 0x1000 }]
  isDylib := true
  useFile := false

/-- A fixed anonymous mapping is placed behind the reserved page. -/
theorem incongruent_header_maps_outside :
    ∃ space segs s',
      incongruentHeader.loadSegments (guardedMmap [1, 2] 0x10000) (bytesReader [1, 2] none)
          ⟨⟨fun _ => 9, ()⟩, (), []⟩ = .ok (space, segs) s' ∧
      ∃ c ∈ s'.calls, ¬ c.Inside space := by
  obtain ⟨space, segs, s', hrun⟩ : ∃ space segs s',
      incongruentHeader.loadSegments (guardedMmap [1, 2] 0x10000) (bytesReader [1, 2] none)
        ⟨⟨fun _ => 9, ()⟩, (), []⟩ = .ok (space, segs) s' := ⟨_, _, _, rfl⟩
  refine ⟨space, segs, s', hrun, .anonymous 0x11000 1, ?_, ?_⟩
  · cases hrun
    decide
  · cases hrun
    rw [inside_iff (e := 0x1000) rfl rfl (by decide)]
    decide

end ElfLoader
