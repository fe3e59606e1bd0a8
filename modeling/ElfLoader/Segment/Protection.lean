import ElfLoader.Library.LastWrite
import ElfLoader.Loader
import ElfLoader.Segment.Contained

/-! # Page protections of a loaded image

Every mapping call gives its pages a protection, and the last call that covers a
page decides. A header covers the pages of its segment and those of its
anonymous tail, which need not lie inside the segment.
-/

namespace ElfLoader

open ByteMemory LastWrite

variable {w : Nat} {K O : Type}

/-- What is relied on for protections: a mapping call protects the whole pages of
its range and no others; a mapping that asks for a copy promises nothing about
its own pages. `copies` is as for `Reserves`. -/
structure ProtectsPages (M : Mmap w K) (copies : Option Int → Bool)
    (protOf : K → BitVec w → ProtFlags) : Prop where
  reserve : ∀ {addr len useFile s p s'}, M.mmapReserve addr len useFile s = .ok p s' →
    PageAligned p
  flag : ∀ {addr len prot flags offset fd s p needCopy s'},
    M.mmap (some addr) len prot flags offset fd s = .ok (p, needCopy) s' → needCopy = copies fd
  map : ∀ {addr len prot flags offset fd s p s'},
    M.mmap (some addr) len prot flags offset fd s = .ok (p, false) s' → PageAligned addr → ∀ a,
      protOf s'.kernel a =
        if Within addr (pageLen len.toNat) a then prot else protOf s.kernel a
  anonymous : ∀ {addr len prot flags s p s'},
    M.mmapAnonymous addr len prot flags s = .ok p s' → PageAligned addr → ∀ a,
      protOf s'.kernel a =
        if Within addr (pageLen len.toNat) a then prot else protOf s.kernel a
  mprotect : ∀ {addr len prot s u s'}, M.mprotect addr len prot s = .ok u s' →
    PageAligned addr → ∀ a,
      protOf s'.kernel a =
        if Within addr (pageLen len.toNat) a then prot else protOf s.kernel a

/-- Pages that a call has protected. -/
structure Pages (w : Nat) where
  start : BitVec w
  len : Nat
  prot : ProtFlags
deriving DecidableEq

namespace Pages

def Covers (p : Pages w) (a : BitVec w) : Prop := Within p.start p.len a

instance (p : Pages w) (a : BitVec w) : Decidable (p.Covers a) :=
  inferInstanceAs (Decidable (Within p.start p.len a))

def shift (base : BitVec w) (p : Pages w) : Pages w := { p with start := base + p.start }

theorem shift_covers {base : BitVec w} {p : Pages w} {a : BitVec w} :
    (p.shift base).Covers a ↔ p.Covers (a - base) := by
  have h : a - (base + p.start) = a - base - p.start := by grind
  unfold Covers Within shift
  rw [h]

theorem last_shift {base : BitVec w} {ps : List (Pages w)} {a : BitVec w} :
    last Covers (ps.map (shift base)) a = (last Covers ps (a - base)).map (shift base) := by
  induction ps with
  | nil => rfl
  | cons p ps ih =>
      rw [List.map_cons, last_cons, last_cons, ih]
      by_cases h : p.Covers (a - base)
      · rw [if_pos h, if_pos (shift_covers.mpr h)]
        cases last Covers ps (a - base) with
        | none => rfl
        | some q => rfl
      · rw [if_neg h, if_neg (mt shift_covers.mp h), Option.or_none, Option.or_none]

/-- The protections after a list of calls. -/
def Protected (protOf : K → BitVec w → ProtFlags) (ps : List (Pages w)) (k k' : K) : Prop :=
  ∀ a, protOf k' a = ((last Covers ps a).map Pages.prot).getD (protOf k a)

theorem Protected.nil (protOf : K → BitVec w → ProtFlags) (k : K) : Protected protOf [] k k :=
  fun _ => rfl

theorem Protected.append {protOf : K → BitVec w → ProtFlags} {ps qs : List (Pages w)}
    {k₁ k₂ k₃ : K} (h : Protected protOf ps k₁ k₂) (h' : Protected protOf qs k₂ k₃) :
    Protected protOf (ps ++ qs) k₁ k₃ := by
  intro a
  rw [h' a, h a, last_append]
  cases last Covers qs a with
  | none => rfl
  | some q => rfl

theorem Protected.one {protOf : K → BitVec w → ProtFlags} {p : Pages w} {k k' : K}
    (h : ∀ a, protOf k' a = if Within p.start p.len a then p.prot else protOf k a) :
    Protected protOf [p] k k' := by
  intro a
  rw [h a, last_singleton]
  change (if p.Covers a then p.prot else protOf k a) = _
  by_cases hp : p.Covers a
  · rw [if_pos hp, if_pos hp]
    rfl
  · rw [if_neg hp, if_neg hp]
    rfl

end Pages

open Pages

namespace ElfSegment

/-- The pages of a segment at `addr`. -/
def pagesAt (seg : ElfSegment w) (addr : BitVec w) : Pages w where
  start := addr
  len := pageLen seg.len.toNat
  prot := seg.prot

/-- The pages of its anonymous tail, where it has one. -/
def tailAt (seg : ElfSegment w) (addr : BitVec w) : List (Pages w) :=
  let zeroStart := addr + seg.contentSize
  let zeroEnd := roundup zeroStart (pageSize w)
  let writeLen := zeroEnd - zeroStart
  if 0 < seg.zeroSize then
    if writeLen < seg.zeroSize then
      [{ start := zeroEnd, len := pageLen (seg.zeroSize - writeLen).toNat, prot := seg.mapProt }]
    else []
  else []

end ElfSegment

section Steps

variable {M : Mmap w K} {R : ElfReader w O} {copies : Option Int → Bool}
  {protOf : K → BitVec w → ProtFlags}

theorem copyData_kernel {seg : ElfSegment w} {s s' : LoadState w K O}
    (h : seg.copyData R s = .ok () s') : s'.os.kernel = s.os.kernel := by
  have hkeeps : Exec.Keeps (fun t : LoadState w K O => t.os.kernel = s.os.kernel)
      (seg.copyData R) := by
    unfold ElfSegment.copyData ElfSegment.copyInfo
    refine Exec.Keeps.ite ?_ (Exec.Keeps.pure ())
    refine Exec.Keeps.bind (Exec.Keeps.lift _) fun ptr => Exec.Keeps.forM fun info _ => ?_
    refine Exec.Keeps.bind (Exec.Keeps.modify fun _ h => h) fun _ => ?_
    refine Exec.Keeps.bind ?_ fun _ => Exec.Keeps.modify fun _ h => h
    intro t ht
    unfold Load.onObject
    split
    · exact ht
    · exact ht
  have hend := hkeeps s rfl
  rwa [h] at hend

theorem fillZero_protected [WordSize w] (hM : ProtectsPages M copies protOf) {seg : ElfSegment w}
    {A : BitVec w} {s s' : LoadState w K O} (haddr : seg.addr = .absolute A)
    (h : seg.fillZero M s = .ok () s') :
    Protected protOf (seg.tailAt A) s.os.kernel s'.os.kernel := by
  unfold ElfSegment.fillZero at h
  unfold ElfSegment.tailAt
  by_cases hz : 0 < seg.zeroSize
  · simp only [hz, if_true, haddr, Address.absoluteAddr, Exec.bind_ok_iff, Exec.lift_ok_iff] at h
    obtain ⟨_, _, ⟨hA, rfl⟩, _, _, hrec, _, _, hpage, h⟩ := h
    cases hA
    cases hrec
    cases hpage
    simp only [hz, if_true]
    by_cases hmore : roundup (A + seg.contentSize) (pageSize w) - (A + seg.contentSize) <
        seg.zeroSize
    · simp only [hmore, if_true, Exec.bind_ok_iff, Load.onOs_ok_iff] at h ⊢
      obtain ⟨_, _, hrec, _, _, ⟨os, hanon, rfl⟩, hret⟩ := h
      cases hrec
      cases hret
      have hpages := hM.anonymous hanon (pageAligned_roundup _)
      exact Protected.one hpages
    · simp only [hmore, if_false] at h ⊢
      cases h
      exact Protected.nil protOf _
  · simp only [hz, if_false] at h ⊢
    cases h
    exact Protected.nil protOf _

/-- `mprotect` protects the pages of the segment where it does anything. -/
theorem mprotect_protected (hM : ProtectsPages M copies protOf) {seg : ElfSegment w} {A : BitVec w}
    {s s' : LoadState w K O} (haddr : seg.addr = .absolute A) (halign : PageAligned A)
    (h : seg.mprotect M s = .ok () s') :
    Protected protOf (if seg.needCopy || seg.fromRelocatable then [seg.pagesAt A] else [])
      s.os.kernel s'.os.kernel := by
  unfold ElfSegment.mprotect at h
  by_cases hflag : (seg.needCopy || seg.fromRelocatable) = true
  · rw [if_pos hflag] at h ⊢
    simp only [haddr, Address.absoluteAddr, Exec.bind_ok_iff, Exec.lift_ok_iff,
      Load.onOs_ok_iff] at h
    obtain ⟨_, _, ⟨hA, rfl⟩, _, _, ⟨hnull, rfl⟩, _, _, hrec, os, hprotect, rfl⟩ := h
    cases hA
    cases hrec
    unfold nonNull at hnull
    split at hnull
    · cases hnull
    · cases hnull
      have hpages := hM.mprotect hprotect halign
      exact Protected.one hpages
  · rw [if_neg hflag] at h ⊢
    cases h
    exact Protected.nil protOf _

/-- The final `mprotect` of all segments. -/
theorem mprotectAll_protected (hM : ProtectsPages M copies protOf) {segs : List (ElfSegment w)}
    {s s' : LoadState w K O}
    (haddr : ∀ seg ∈ segs, ∃ A, seg.addr = .absolute A ∧ PageAligned A)
    (h : ElfSegment.mprotectAll M segs s = .ok () s') :
    Protected protOf ((segs.filter fun seg => seg.needCopy || seg.fromRelocatable).map
      fun seg => seg.pagesAt seg.addr.val) s.os.kernel s'.os.kernel := by
  induction segs generalizing s with
  | nil =>
      cases h
      exact Protected.nil protOf _
  | cons seg segs ih =>
      obtain ⟨s₁, hhead, htail⟩ := Exec.forM_cons_ok_iff.mp h
      obtain ⟨A, hA, halign⟩ := haddr seg List.mem_cons_self
      have hfirst := mprotect_protected hM hA halign hhead
      have hrest := ih (fun seg' hseg' => haddr seg' (List.mem_cons_of_mem seg hseg')) htail
      by_cases hflag : (seg.needCopy || seg.fromRelocatable) = true
      · rw [if_pos hflag] at hfirst
        rw [List.filter_cons_of_pos (by simpa using hflag), List.map_cons, hA]
        exact hfirst.append hrest
      · rw [if_neg hflag] at hfirst
        rw [List.filter_cons_of_neg (by simpa using hflag)]
        exact hfirst.append hrest

end Steps

/-! ## Program headers -/

namespace ElfPhdr

/-- The pages of a header, seen from the base. -/
def pageRange (ph : ElfPhdr w) : Pages w :=
  ph.createSegment.pagesAt (rounddown ph.pVaddr (pageSize w))

/-- The pages of its anonymous tail, seen from the base. -/
def tailRange (ph : ElfPhdr w) : List (Pages w) :=
  ph.createSegment.tailAt (rounddown ph.pVaddr (pageSize w))

/-- The segment of a header in a loaded image. -/
def loadedAt (base : BitVec w) (needCopy : Bool) (ph : ElfPhdr w) : ElfSegment w :=
  { ph.createSegment with
    addr := .absolute (base + rounddown ph.pVaddr (pageSize w)), needCopy }

end ElfPhdr

section Programs

variable {M : Mmap w K} {R : ElfReader w O} {copies : Option Int → Bool}
  {protOf : K → BitVec w → ProtFlags} {base : BitVec w} {ph : ElfPhdr w} {phs : List (ElfPhdr w)}

theorem roundup_add_page [WordSize w] (hbase : PageAligned base) (x : BitVec w) :
    roundup (base + x) (pageSize w) = base + roundup x (pageSize w) := by
  have hmod : (base + x).toNat % 2 ^ 12 = x.toNat % 2 ^ 12 := by
    unfold PageAligned at hbase
    rw [add_toNat_mod_page]
    omega
  rw [roundup_page, roundup_page, hmod, BitVec.add_assoc]

/-- The anonymous tail moves with the image. -/
theorem tailAt_add [WordSize w] (hbase : PageAligned base) (seg : ElfSegment w) (A : BitVec w) :
    seg.tailAt (base + A) = (seg.tailAt A).map (shift base) := by
  have hstart : base + A + seg.contentSize = base + (A + seg.contentSize) := BitVec.add_assoc ..
  have hend := roundup_add_page hbase (A + seg.contentSize)
  have hlen : base + roundup (A + seg.contentSize) (pageSize w) - (base + (A + seg.contentSize)) =
      roundup (A + seg.contentSize) (pageSize w) - (A + seg.contentSize) := by grind
  unfold ElfSegment.tailAt
  simp only [hstart, hend, hlen]
  split
  · split
    · rfl
    · rfl
  · rfl

theorem load_header [WordSize w] (hM : ProtectsPages M copies protOf) (hR : KeepsFd R)
    (hbase : PageAligned base) {seg : ElfSegment w} {s s' : LoadState w K O}
    (h : ph.createSegment.load M R base s = .ok seg s') :
    seg = ph.loadedAt base (copies (R.asFd s.object)) ∧ R.asFd s'.object = R.asFd s.object ∧
      (copies (R.asFd s.object) = false →
        Protected protOf ((ph.pageRange :: ph.tailRange).map (shift base)) s.os.kernel
          s'.os.kernel) := by
  simp only [ElfSegment.load, Exec.bind_ok_iff, Exec.lift_ok_iff] at h
  obtain ⟨seg₁, _, ⟨hrebase, rfl⟩, seg₂, s₂, hmap, _, s₃, hcopy, _, s₄, hzero, hret⟩ := h
  cases hret
  cases hrebase
  obtain ⟨p, needCopy, hcall, hobject, rfl⟩ := mmapSegment_ok rfl rfl hmap
  obtain rfl := hM.flag hcall
  obtain ⟨-, hfd⟩ := copyData_calls hR rfl rfl hcopy
  obtain ⟨-, hobject'⟩ := fillZero_calls rfl hzero
  refine ⟨rfl, by rw [hobject', hfd, hobject], fun hmode => ?_⟩
  rw [hmode] at hcall
  have hpages := hM.map hcall (hbase.add (pageAligned_rounddown _))
  have hfirst : Protected protOf [ph.pageRange.shift base] _ s₂.os.kernel := Protected.one hpages
  have htail := fillZero_protected hM rfl hzero
  rw [tailAt_add hbase, copyData_kernel hcopy] at htail
  exact hfirst.append htail

theorem loadAll_headers [WordSize w] (hM : ProtectsPages M copies protOf) (hR : KeepsFd R)
    (hbase : PageAligned base) {segs : List (ElfSegment w)} {s s' : LoadState w K O}
    (h : ElfSegment.loadAll M R base (phs.map ElfPhdr.createSegment) s = .ok segs s') :
    segs = phs.map (ElfPhdr.loadedAt base (copies (R.asFd s.object))) ∧
      (copies (R.asFd s.object) = false →
        Protected protOf ((phs.flatMap fun ph => ph.pageRange :: ph.tailRange).map (shift base))
          s.os.kernel s'.os.kernel) := by
  induction phs generalizing segs s with
  | nil =>
      cases h
      exact ⟨rfl, fun _ => Protected.nil protOf _⟩
  | cons ph phs ih =>
      simp only [List.map_cons, ElfSegment.loadAll, Exec.bind_ok_iff] at h
      obtain ⟨seg, s₁, hhead, rest, s₂, htail, hret⟩ := h
      cases hret
      obtain ⟨rfl, hfd, hfirst⟩ := load_header hM hR hbase hhead
      obtain ⟨rfl, hrest⟩ := ih htail
      rw [hfd] at hrest ⊢
      refine ⟨rfl, fun hmode => ?_⟩
      rw [List.flatMap_cons, List.map_append]
      exact (hfirst hmode).append (hrest hmode)

/-- No two headers share a page. -/
def PagesApart (phs : List (ElfPhdr w)) : Prop :=
  phs.Pairwise fun p q => ∀ x, p.pageRange.Covers x → ¬ q.pageRange.Covers x

/-- Every page of every header has the protection of its own header, so it is
writable and executable only where one header asks for both. -/
structure HeadersProtected (phs : List (ElfPhdr w)) (base : BitVec w)
    (prot : BitVec w → ProtFlags) : Prop where
  own : ∀ ph ∈ phs, ∀ a, ph.pageRange.Covers (a - base) → prot a = segmentProt ph.pFlags
  both : ∀ ph ∈ phs, ∀ a, ph.pageRange.Covers (a - base) →
    (prot a).contains ProtFlags.protWrite → (prot a).contains ProtFlags.protExec →
      ph.pFlags &&& pfW ≠ 0 ∧ ph.pFlags &&& pfX ≠ 0

/-- Where the anonymous tail of a later header runs over the page of a header,
the last such tail has the same protection. -/
def TailsAgree (phs : List (ElfPhdr w)) : Prop :=
  ∀ pre ph post, phs = pre ++ ph :: post → ∀ x, ph.pageRange.Covers x →
    ∀ q, last Covers (post.flatMap ElfPhdr.tailRange) x = some q → q.prot = segmentProt ph.pFlags

theorem tailRange_prot {q : Pages w} (h : q ∈ ph.tailRange) : q.prot = segmentProt ph.pFlags := by
  unfold ElfPhdr.tailRange ElfSegment.tailAt at h
  dsimp only at h
  split at h
  · split at h
    · obtain rfl := List.mem_singleton.mp h
      rfl
    · cases h
  · cases h

/-- The last call on a page of a header is one for the header itself. -/
theorem last_own {x : BitVec w} (hx : ph.pageRange.Covers x) :
    (last Covers (ph.pageRange :: ph.tailRange) x).map Pages.prot =
      some (segmentProt ph.pFlags) := by
  rw [last_cons, if_pos hx]
  cases htail : last Covers ph.tailRange x with
  | none => rfl
  | some q =>
      rw [Option.some_or, Option.map_some, tailRange_prot (mem_of_last htail).1]

/-- On pages that no header of the list has, only the tails count. -/
theorem last_tails {x : BitVec w} (hx : ∀ q ∈ phs, ¬ q.pageRange.Covers x) :
    last Covers (phs.flatMap fun q => q.pageRange :: q.tailRange) x =
      last Covers (phs.flatMap ElfPhdr.tailRange) x := by
  induction phs with
  | nil => rfl
  | cons q phs ih =>
      rw [List.flatMap_cons, List.flatMap_cons, last_append, last_append, last_cons,
        if_neg (hx q List.mem_cons_self), Option.or_none,
        ih fun r hr => hx r (List.mem_cons_of_mem q hr)]

/-- The protection of a page of one header after all headers are mapped. -/
theorem mapped_prot {k k' : K} {pre post : List (ElfPhdr w)}
    (hapart : PagesApart (pre ++ ph :: post))
    (h : Protected protOf
      (((pre ++ ph :: post).flatMap fun q => q.pageRange :: q.tailRange).map (shift base)) k k')
    {a : BitVec w} (ha : ph.pageRange.Covers (a - base)) :
    protOf k' a = ((last Covers (post.flatMap ElfPhdr.tailRange) (a - base)).map
      Pages.prot).getD (segmentProt ph.pFlags) := by
  have hpost : ∀ q ∈ post, ¬ q.pageRange.Covers (a - base) := by
    have hparts := (List.pairwise_append.mp hapart).2.1
    exact fun q hq => (List.pairwise_cons.mp hparts).1 q hq (a - base) ha
  have hown := last_own ha
  rw [h a, last_shift, List.flatMap_append, List.flatMap_cons, last_append, last_append,
    last_tails hpost]
  cases htail : last Covers (post.flatMap ElfPhdr.tailRange) (a - base) with
  | some q => rfl
  | none =>
      cases hfirst : last Covers (ph.pageRange :: ph.tailRange) (a - base) with
      | none =>
          rw [hfirst] at hown
          cases hown
      | some q =>
          rw [hfirst] at hown
          exact Option.some.inj hown

theorem segmentProt_write {f : UInt32} (h : (segmentProt f).contains ProtFlags.protWrite) :
    f &&& pfW ≠ 0 := by
  intro hzero
  unfold ProtFlags.contains segmentProt ProtFlags.protWrite at h
  have hbit := congrArg (fun u : UInt32 => u.toBitVec.getLsbD 1) (beq_iff_eq.mp h)
  have hclear := congrArg (fun u : UInt32 => u.toBitVec.getLsbD 1) hzero
  simp [pfX, pfW, pfR] at hbit hclear
  rw [hbit] at hclear
  cases hclear

theorem segmentProt_exec {f : UInt32} (h : (segmentProt f).contains ProtFlags.protExec) :
    f &&& pfX ≠ 0 := by
  intro hzero
  unfold ProtFlags.contains segmentProt ProtFlags.protExec at h
  have hbit := congrArg (fun u : UInt32 => u.toBitVec.getLsbD 2) (beq_iff_eq.mp h)
  have hclear := congrArg (fun u : UInt32 => u.toBitVec.getLsbD 0) hzero
  simp [pfX, pfW, pfR] at hbit hclear
  rw [hbit] at hclear
  cases hclear

theorem HeadersProtected.of_own {prot : BitVec w → ProtFlags}
    (h : ∀ ph ∈ phs, ∀ a, ph.pageRange.Covers (a - base) → prot a = segmentProt ph.pFlags) :
    HeadersProtected phs base prot where
  own := h
  both := by
    intro ph hph a ha hwrite hexec
    rw [h ph hph a ha] at hwrite hexec
    exact ⟨segmentProt_write hwrite, segmentProt_exec hexec⟩

/-- A copied image is protected by the final `mprotect` alone. -/
theorem copied_protected (hM : ProtectsPages M copies protOf) [WordSize w]
    (hbase : PageAligned base) (hapart : PagesApart phs) {s s' : LoadState w K O}
    (h : ElfSegment.mprotectAll M (phs.map (ElfPhdr.loadedAt base true)) s = .ok () s') :
    HeadersProtected phs base (protOf s'.os.kernel) := by
  have hcalls := mprotectAll_protected hM (by
    intro seg hseg
    obtain ⟨ph, -, rfl⟩ := List.mem_map.mp hseg
    exact ⟨_, rfl, hbase.add (pageAligned_rounddown _)⟩) h
  have hall : (((phs.map (ElfPhdr.loadedAt base true)).filter fun seg =>
      seg.needCopy || seg.fromRelocatable).map fun seg => seg.pagesAt seg.addr.val) =
        (phs.map ElfPhdr.pageRange).map (shift base) := by
    rw [List.filter_map, List.filter_eq_self.mpr (by simp [ElfPhdr.loadedAt]), List.map_map,
      List.map_map]
    rfl
  rw [hall] at hcalls
  refine HeadersProtected.of_own fun ph hph a ha => ?_
  have hlast : last Covers (phs.map ElfPhdr.pageRange) (a - base) = some ph.pageRange :=
    last_of_disjoint (List.pairwise_map.mpr hapart) (List.mem_map_of_mem hph) ha
  rw [hcalls a, last_shift, hlast]
  rfl

/-- A mapped image is left alone by the final `mprotect`. -/
theorem mapped_protected_iff (hM : ProtectsPages M copies protOf) [WordSize w]
    (hbase : PageAligned base) (hapart : PagesApart phs) {k : K} {s s' : LoadState w K O}
    (hmapped : Protected protOf
      ((phs.flatMap fun q => q.pageRange :: q.tailRange).map (shift base)) k s.os.kernel)
    (h : ElfSegment.mprotectAll M (phs.map (ElfPhdr.loadedAt base false)) s = .ok () s') :
    HeadersProtected phs base (protOf s'.os.kernel) ↔ TailsAgree phs := by
  have hcalls := mprotectAll_protected hM (by
    intro seg hseg
    obtain ⟨ph, -, rfl⟩ := List.mem_map.mp hseg
    exact ⟨_, rfl, hbase.add (pageAligned_rounddown _)⟩) h
  have hnone : (phs.map (ElfPhdr.loadedAt base false)).filter
      (fun seg => seg.needCopy || seg.fromRelocatable) = [] := by
    rw [List.filter_map, List.filter_eq_nil_iff.mpr (by
      simp [ElfPhdr.loadedAt, ElfPhdr.createSegment])]
    rfl
  rw [hnone] at hcalls
  have hsame : ∀ a, protOf s'.os.kernel a = protOf s.os.kernel a := hcalls
  constructor
  · rintro hprot pre ph post rfl x hx q hq
    have hback : base + x - base = x := by grind
    have hown := hprot.own ph (by simp) (base + x) (by rwa [hback])
    rw [hsame, mapped_prot hapart hmapped (by rwa [hback]), hback, hq] at hown
    exact hown
  · intro htails
    refine HeadersProtected.of_own fun ph hph a ha => ?_
    obtain ⟨pre, post, rfl⟩ := List.append_of_mem hph
    rw [hsame, mapped_prot hapart hmapped ha]
    cases htail : last Covers (post.flatMap ElfPhdr.tailRange) (a - base) with
    | none => rfl
    | some q => exact htails pre ph post rfl _ ha q htail

/-- The tail of a well-formed header stays in its own pages. -/
theorem tailRange_inside [WordSize w] {file : List UInt8} (hp : ph.Loadable file)
    (hpages : pageLen (ph.pVaddr.toNat + ph.pMemsz.toNat) < 2 ^ w) {q : Pages w}
    (hq : q ∈ ph.tailRange) {x : BitVec w} (hx : q.Covers x) : ph.pageRange.Covers x := by
  have hfilesz := hp.filesz_le
  have hwrap := hp.no_wrap
  have hlen := createSegment_len hp (by omega)
  have hdown := rounddown_page_toNat ph.pVaddr
  have hcontent := createSegment_contentSize_toNat hp
  have hzero := createSegment_zeroSize hp
  have hstart : (rounddown ph.pVaddr (pageSize w) + ph.createSegment.contentSize).toNat =
      ph.pVaddr.toNat + ph.pFilesz.toNat := by
    rw [BitVec.toNat_add, hdown, hcontent, Nat.mod_eq_of_lt (by omega)]
    omega
  have hend : (roundup (rounddown ph.pVaddr (pageSize w) + ph.createSegment.contentSize)
      (pageSize w)).toNat = pageLen (ph.pVaddr.toNat + ph.pFilesz.toNat) := by
    rw [roundup_page_toNat_of_lt, hstart]
    rw [hstart]
    unfold pageLen at hpages ⊢
    omega
  have hwrite : (roundup (rounddown ph.pVaddr (pageSize w) + ph.createSegment.contentSize)
      (pageSize w) - (rounddown ph.pVaddr (pageSize w) + ph.createSegment.contentSize)).toNat =
        pageLen (ph.pVaddr.toNat + ph.pFilesz.toNat) -
          (ph.pVaddr.toNat + ph.pFilesz.toNat) := by
    rw [BitVec.toNat_sub_of_le, hend, hstart]
    rw [BitVec.le_def, hend, hstart]
    unfold pageLen
    omega
  unfold ElfPhdr.tailRange ElfSegment.tailAt at hq
  dsimp only at hq
  split at hq
  · split at hq
    · rename_i hmore
      obtain rfl := List.mem_singleton.mp hq
      have hrest := BitVec.toNat_sub_of_le (Nat.le_of_lt (BitVec.lt_def.mp hmore))
      rw [BitVec.lt_def, hwrite, hzero] at hmore
      rw [hwrite, hzero] at hrest
      have htail : (ph.createSegment.zeroSize - (roundup (rounddown ph.pVaddr (pageSize w) +
          ph.createSegment.contentSize) (pageSize w) - (rounddown ph.pVaddr (pageSize w) +
            ph.createSegment.contentSize))).toNat = _ := hrest
      have hfit : (ElfPhdr.pageRange ph).start.toNat + (ElfPhdr.pageRange ph).len ≤ 2 ^ w := by
        change (rounddown ph.pVaddr (pageSize w)).toNat + pageLen ph.createSegment.len.toNat ≤ _
        rw [hdown, hlen]
        unfold pageLen at hpages ⊢
        omega
      unfold Covers at hx ⊢
      rw [within_toNat_iff hfit]
      change _ ∧ _ < _ + pageLen ph.createSegment.len.toNat
      rw [within_toNat_iff] at hx
      · dsimp only at hx
        rw [hend, htail] at hx
        change (rounddown ph.pVaddr (pageSize w)).toNat ≤ _ ∧
          _ < (rounddown ph.pVaddr (pageSize w)).toNat + _
        rw [hdown, hlen]
        unfold pageLen at hx hpages ⊢
        omega
      · dsimp only
        rw [hend, htail]
        unfold pageLen at hpages ⊢
        omega
    · cases hq
  · cases hq

/-- A table of well-formed headers is protected in every mode. -/
theorem tailsAgree_of_loadable [WordSize w] {file : List UInt8} (hapart : PagesApart phs)
    (hp : ∀ ph ∈ phs, ph.Loadable file)
    (hpages : ∀ ph ∈ phs, pageLen (ph.pVaddr.toNat + ph.pMemsz.toNat) < 2 ^ w) :
    TailsAgree phs := by
  rintro pre ph post rfl x hx q hq
  obtain ⟨hmem, hcovers⟩ := mem_of_last hq
  obtain ⟨r, hr, hqr⟩ := List.mem_flatMap.mp hmem
  have hrmem : r ∈ pre ++ ph :: post := by simp [hr]
  have hown := tailRange_inside (hp r hrmem) (hpages r hrmem) hqr hcovers
  have hparts := (List.pairwise_append.mp hapart).2.1
  exact absurd hown ((List.pairwise_cons.mp hparts).1 r hr x hx)

/-- After `load_segments` and `mprotect`, the pages of a table are protected as
its headers ask, unless the image is mapped and the tail of a later header has
spilt over. -/
theorem ProgramSegments.protected_iff [WordSize w] (hM : ProtectsPages M copies protOf)
    (hR : KeepsFd R) {ps : ProgramSegments w} (hapart : PagesApart ps.loads)
    {space : ElfSegments w} {segs : List (ElfSegment w)} {s s₁ s₂ : LoadState w K O}
    (hload : ps.loadSegments M R s = .ok (space, segs) s₁)
    (hprotect : ElfSegment.mprotectAll M segs s₁ = .ok () s₂) :
    HeadersProtected ps.loads space.base (protOf s₂.os.kernel) ↔
      copies (R.asFd s.object) = true ∨ TailsAgree ps.loads := by
  obtain ⟨space₁, t, hspace, hload⟩ := Exec.bind_ok_iff.mp hload
  obtain ⟨created, t₁, hcreated, hload⟩ := Exec.bind_ok_iff.mp hload
  cases hcreated
  obtain ⟨segments, t₂, hall, hret⟩ := Exec.bind_ok_iff.mp hload
  cases hret
  obtain ⟨p, os, hreserve, rfl, rfl⟩ := createSpace_ok_iff.mp hspace
  have hbase : PageAligned (ElfSegments.base ⟨p, (parseSegments ps.phdrs ps.isDylib).2.2,
      (parseSegments ps.phdrs ps.isDylib).2.1⟩) :=
    (hM.reserve hreserve).sub (pageAligned_rounddown _)
  obtain ⟨rfl, hmapped⟩ := loadAll_headers hM hR hbase hall
  cases hmode : copies (R.asFd s.object) with
  | true =>
      rw [hmode] at hprotect
      exact iff_of_true (copied_protected hM hbase hapart hprotect) (.inl rfl)
  | false =>
      rw [hmode] at hprotect
      rw [mapped_protected_iff hM hbase hapart (hmapped hmode) hprotect]
      simp

end Programs

/-! ## A kernel that keeps the protections -/

def setProt (prot : BitVec w → ProtFlags) (addr len : BitVec w) (p : ProtFlags) :
    BitVec w → ProtFlags :=
  fun a => if Within addr (pageLen len.toNat) a then p else prot a

/-- `unixMmap` on a kernel whose state is the protection of every address. -/
def protMmap (file : List UInt8) (free : BitVec w) : Mmap w (BitVec w → ProtFlags) where
  mmap := fun addr len prot _ offset fd s =>
    match fd, addr with
    | some _, addr =>
        .ok (addr.getD 0, false)
          { mem := mapPages file (addr.getD 0) len offset s.mem
            kernel := setProt s.kernel (addr.getD 0) len prot }
    | none, some addr => .ok (addr, true) s
    | none, none => .error (.panic "called `Option::unwrap()` on a `None` value") s
  mmapAnonymous := fun addr len prot _ s =>
    .ok addr
      { mem := fill s.mem addr (pageLen len.toNat) 0, kernel := setProt s.kernel addr len prot }
  munmap := fun _ _ s => .ok () s
  mprotect := fun addr len prot s => .ok () { s with kernel := setProt s.kernel addr len prot }
  mmapReserve := fun addr len _ s =>
    if len = 0 then .error (.err (.mmap "mmap failed")) s
    else .ok (rounddown (addr.getD free) (pageSize w)) s

theorem protMmap_protects [WordSize w] (file : List UInt8) (free : BitVec w) :
    ProtectsPages (protMmap file free) Option.isNone id where
  reserve := by
    intro addr len useFile s p s' h
    simp only [protMmap] at h
    split at h
    · cases h
    · cases h
      exact pageAligned_rounddown _
  flag := by
    intro addr len prot flags offset fd s p needCopy s' h
    cases fd with
    | none =>
        cases h
        rfl
    | some fd =>
        cases h
        rfl
  map := by
    intro addr len prot flags offset fd s p s' h _ a
    cases fd with
    | none => cases h
    | some fd =>
        cases h
        rfl
  anonymous := by
    intro addr len prot flags s p s' h _ a
    cases h
    rfl
  mprotect := by
    intro addr len prot s u s' h _ a
    cases h
    rfl

/-- A page that is read only, and below it a header whose file offset and address lie
differently in their pages. -/
def spillingHeaders : ProgramSegments 64 where
  phdrs := [{ pType := ptLoad, pFlags := pfR, pOffset := 0, pVaddr := 0x1000, pPaddr := 0,
              pFilesz := 1, pMemsz := 1, pAlign := 0x1000 },
            { pType := ptLoad, pFlags := pfR ||| pfW, pOffset := 1, pVaddr := 0, pPaddr := 0,
              pFilesz := 1, pMemsz := 0x1000, pAlign := 0x1000 }]
  isDylib := true
  useFile := true

theorem pagesApart_pair {p q : ElfPhdr w}
    (h : p.pageRange.start.toNat + p.pageRange.len ≤ 2 ^ w ∧
      q.pageRange.start.toNat + q.pageRange.len ≤ 2 ^ w ∧
      (p.pageRange.start.toNat + p.pageRange.len ≤ q.pageRange.start.toNat ∨
        q.pageRange.start.toNat + q.pageRange.len ≤ p.pageRange.start.toNat)) :
    PagesApart [p, q] := by
  obtain ⟨hp, hq, hapart⟩ := h
  refine List.pairwise_pair.mpr fun x hx hx' => ?_
  have h₁ := (within_toNat_iff hp).mp hx
  have h₂ := (within_toNat_iff hq).mp hx'
  omega

/-- The anonymous tail of the second header makes the page of the first writable. -/
theorem spilt_tail_unprotects :
    PagesApart spillingHeaders.loads ∧
    ∃ space segs s₁ s₂,
      spillingHeaders.loadSegments (protMmap [1, 2] 0x10000) (bytesReader [1, 2] (some 3))
        ⟨⟨fun _ => 0, fun _ => ProtFlags.protNone⟩, (), []⟩ = .ok (space, segs) s₁ ∧
      ElfSegment.mprotectAll (protMmap [1, 2] 0x10000) segs s₁ = .ok () s₂ ∧
      s₂.os.kernel (space.base + 0x1000) = segmentProt (pfR ||| pfW) ∧
      ¬ HeadersProtected spillingHeaders.loads space.base s₂.os.kernel := by
  refine ⟨pagesApart_pair (by decide), _, _, _, _, rfl, rfl, by decide, fun hprot => ?_⟩
  have hown := hprot.own _ List.mem_cons_self (0x11000 : BitVec 64) (by decide)
  exact absurd hown (by decide)

end ElfLoader
