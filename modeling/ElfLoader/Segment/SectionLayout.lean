import ElfLoader.Segment.ByteExact
import ElfLoader.Segment.SectionUnit
import Mathlib.Data.List.Nodup

/-! # The layout of object sections (`SectionSegments::new`)

The units follow each other on page boundaries, so what one unit placed stays
apart from what the next ones place. Every header of the table is in the unit of
its protection class and in no other.
-/

namespace ElfLoader

open Placement

variable {w : Nat} {O : Type}

/-! ## Grouping -/

section Group

variable {tbl : List (ElfShdr w)} {i : Nat} {c : Fin 4}

theorem groupSections_concat (tbl : List (ElfShdr w)) (shdr : ElfShdr w) :
    SectionSegments.groupSections (tbl ++ [shdr]) =
      Function.update (SectionSegments.groupSections tbl) (flagsToIdx shdr.shFlags)
        ((SectionSegments.groupSections tbl (flagsToIdx shdr.shFlags)).addSection
          tbl.length shdr) := by
  unfold SectionSegments.groupSections
  rw [List.zipIdx_append, List.foldl_append, Nat.zero_add]
  rfl

theorem shdrAt_concat_lt (shdr : ElfShdr w) (h : i < tbl.length) :
    shdrAt (tbl ++ [shdr]) i = shdrAt tbl i := by
  rw [shdrAt, shdrAt, List.getElem?_append_left h]

theorem shdrAt_concat_self (tbl : List (ElfShdr w)) (shdr : ElfShdr w) :
    shdrAt (tbl ++ [shdr]) tbl.length = shdr := by
  simp [shdrAt]

/-- The positions of a unit, of the content or of the zero-initialised sections,
as the table decides them. -/
structure Holds (tbl : List (ElfShdr w)) (c : Fin 4) (nobits : Bool) (is : List Nat) : Prop where
  mem_iff : ∀ i, i ∈ is ↔ i < tbl.length ∧ flagsToIdx (shdrAt tbl i).shFlags = c ∧
    ((shdrAt tbl i).shType == shtNobits) = nobits
  sorted : is.Pairwise (· < ·)

theorem Holds.concat_same {nobits : Bool} {is : List Nat} (h : Holds tbl c nobits is)
    {shdr : ElfShdr w} (hc : flagsToIdx shdr.shFlags = c)
    (hn : (shdr.shType == shtNobits) = nobits) :
    Holds (tbl ++ [shdr]) c nobits (is ++ [tbl.length]) where
  mem_iff := by
    intro i
    rw [List.mem_append, List.mem_singleton, h.mem_iff, List.length_append, List.length_singleton]
    by_cases hlt : i < tbl.length
    · rw [shdrAt_concat_lt shdr hlt]
      constructor
      · rintro (⟨-, hrest⟩ | heq)
        · exact ⟨by omega, hrest⟩
        · omega
      · rintro ⟨-, hrest⟩
        exact .inl ⟨hlt, hrest⟩
    · constructor
      · rintro (⟨hlt', -⟩ | rfl)
        · exact absurd hlt' hlt
        · rw [shdrAt_concat_self]
          exact ⟨by omega, hc, hn⟩
      · rintro ⟨hle, -⟩
        exact .inr (by omega)
  sorted := by
    rw [List.pairwise_append]
    refine ⟨h.sorted, List.pairwise_singleton _ _, ?_⟩
    intro i hi j hj
    rw [List.mem_singleton.mp hj]
    exact ((h.mem_iff i).mp hi).1

theorem Holds.concat_other {nobits : Bool} {is : List Nat} (h : Holds tbl c nobits is)
    {shdr : ElfShdr w}
    (hne : flagsToIdx shdr.shFlags ≠ c ∨ (shdr.shType == shtNobits) ≠ nobits) :
    Holds (tbl ++ [shdr]) c nobits is where
  mem_iff := by
    intro i
    rw [h.mem_iff, List.length_append, List.length_singleton]
    by_cases hlt : i < tbl.length
    · rw [shdrAt_concat_lt shdr hlt]
      exact ⟨fun hin => ⟨by omega, hin.2⟩, fun hin => ⟨hlt, hin.2⟩⟩
    · constructor
      · rintro ⟨hlt', -⟩
        exact absurd hlt' hlt
      · rintro ⟨hle, hclass, hkind⟩
        have hlast : i = tbl.length := by omega
        rw [hlast, shdrAt_concat_self] at hclass hkind
        rcases hne with hne | hne
        · exact absurd hclass hne
        · exact absurd hkind hne
  sorted := h.sorted

/-- Every unit holds exactly the headers of its class, in the order of the table. -/
theorem groupSections_holds (tbl : List (ElfShdr w)) (c : Fin 4) :
    Holds tbl c false (SectionSegments.groupSections tbl c).contentSections ∧
      Holds tbl c true (SectionSegments.groupSections tbl c).zeroSectons := by
  induction tbl using List.reverseRecOn with
  | nil =>
      constructor
      · exact ⟨fun i => by simp [SectionSegments.groupSections, SectionUnit.new], List.Pairwise.nil⟩
      · exact ⟨fun i => by simp [SectionSegments.groupSections, SectionUnit.new], List.Pairwise.nil⟩
  | append_singleton tbl shdr ih =>
      rw [groupSections_concat]
      by_cases hc : flagsToIdx shdr.shFlags = c
      · rw [hc, Function.update_self, SectionUnit.addSection]
        by_cases hn : shdr.shType = shtNobits
        · rw [if_pos hn]
          exact ⟨ih.1.concat_other (.inr (by simp [hn])), ih.2.concat_same hc (by simp [hn])⟩
        · rw [if_neg hn]
          exact ⟨ih.1.concat_same hc (by simp [hn]), ih.2.concat_other (.inr (by simp [hn]))⟩
      · rw [Function.update_of_ne (Ne.symm hc)]
        exact ⟨ih.1.concat_other (.inl hc), ih.2.concat_other (.inl hc)⟩

theorem groupSections_valid (tbl : List (ElfShdr w)) (c : Fin 4) :
    (SectionSegments.groupSections tbl c).Valid tbl := by
  obtain ⟨hcontent, hzero⟩ := groupSections_holds tbl c
  refine ⟨fun i hi => ((hcontent.mem_iff i).mp hi).1, fun i hi => ((hzero.mem_iff i).mp hi).1,
    hcontent.sorted.imp Nat.ne_of_lt, hzero.sorted.imp Nat.ne_of_lt, fun i hi hi' => ?_⟩
  have hkind := ((hcontent.mem_iff i).mp hi).2.2
  rw [((hzero.mem_iff i).mp hi').2.2] at hkind
  cases hkind

/-- The class of a section in a unit. -/
theorem class_of_mem (h : i ∈ (SectionSegments.groupSections tbl c).contentSections ∨
      i ∈ (SectionSegments.groupSections tbl c).zeroSectons) :
    i < tbl.length ∧ flagsToIdx (shdrAt tbl i).shFlags = c := by
  obtain ⟨hcontent, hzero⟩ := groupSections_holds tbl c
  rcases h with h | h
  · have hin := (hcontent.mem_iff i).mp h
    exact ⟨hin.1, hin.2.1⟩
  · have hin := (hzero.mem_iff i).mp h
    exact ⟨hin.1, hin.2.1⟩

theorem mem_group (h : i < tbl.length) :
    i ∈ (SectionSegments.groupSections tbl (flagsToIdx (shdrAt tbl i).shFlags)).contentSections ∨
      i ∈ (SectionSegments.groupSections tbl (flagsToIdx (shdrAt tbl i).shFlags)).zeroSectons := by
  obtain ⟨hcontent, hzero⟩ := groupSections_holds tbl (flagsToIdx (shdrAt tbl i).shFlags)
  cases hn : (shdrAt tbl i).shType == shtNobits with
  | false => exact .inl ((hcontent.mem_iff i).mpr ⟨h, rfl, hn⟩)
  | true => exact .inr ((hzero.mem_iff i).mpr ⟨h, rfl, hn⟩)

end Group

/-! ## The units one after another -/

/-- Where the units of the classes end, without a largest address. -/
def layoutEnd (tbl : List (ElfShdr w)) (start : Nat) : List (Fin 4) → Nat
  | [] => start
  | c :: cs => layoutEnd tbl ((SectionSegments.groupSections tbl c).next tbl start) cs

/-- The units of the classes stand behind each other from an offset on, and the
segments are those of the units that are not empty. -/
inductive LaidOut (tbl : List (ElfShdr w)) (addr : Nat → BitVec w) :
    BitVec w → List (Fin 4) → List (ElfSegment w) → Prop
  | nil {start : BitVec w} : LaidOut tbl addr start [] []
  | empty {start : BitVec w} {c : Fin 4} {cs : List (Fin 4)} {segs : List (ElfSegment w)}
      (hunit : UnitLayout tbl (SectionSegments.groupSections tbl c) start.toNat addr)
      (hend : (SectionSegments.groupSections tbl c).zeroEnd tbl start.toNat = start.toNat)
      (hrest : LaidOut tbl addr start cs segs) : LaidOut tbl addr start (c :: cs) segs
  | segment {start next : BitVec w} {c : Fin 4} {cs : List (Fin 4)} {seg : ElfSegment w}
      {segs : List (ElfSegment w)}
      (hunit : UnitLayout tbl (SectionSegments.groupSections tbl c) start.toNat addr)
      (hseg : UnitSegment tbl (SectionSegments.groupSections tbl c) start addr seg)
      (hpage : PageAligned start)
      (hnext : next.toNat = (SectionSegments.groupSections tbl c).next tbl start.toNat)
      (hrest : LaidOut tbl addr next cs segs) : LaidOut tbl addr start (c :: cs) (seg :: segs)

section Layout

variable {tbl : List (ElfShdr w)} {addr addr' : Nat → BitVec w} {unit : SectionUnit}

theorem le_layoutEnd (tbl : List (ElfShdr w)) (start : Nat) (cs : List (Fin 4)) :
    start ≤ layoutEnd tbl start cs := by
  induction cs generalizing start with
  | nil => exact Nat.le_refl start
  | cons c cs ih =>
      rw [layoutEnd]
      exact Nat.le_trans (Nat.le_add_right _ _) (ih _)

theorem UnitLayout.congr {start : Nat} (h : UnitLayout tbl unit start addr)
    (heq : ∀ i, i ∈ unit.contentSections ∨ i ∈ unit.zeroSectons → addr' i = addr i) :
    UnitLayout tbl unit start addr' where
  content := h.content.congr fun i hi => congrArg BitVec.toNat (heq i (.inl hi))
  zero := h.zero.congr fun i hi => congrArg BitVec.toNat (heq i (.inr hi))

theorem UnitSegment.congr {start : BitVec w} {seg : ElfSegment w}
    (h : UnitSegment tbl unit start addr seg)
    (heq : ∀ i, i ∈ unit.contentSections ∨ i ∈ unit.zeroSectons → addr' i = addr i) :
    UnitSegment tbl unit start addr' seg :=
  { h with mapInfo := MapsContent.congr h.mapInfo fun i hi => heq i (.inl hi) }

theorem next_mod_page {start : Nat} (hpage : start % 2 ^ 12 = 0) :
    unit.next tbl start % 2 ^ 12 = 0 := by
  unfold SectionUnit.next pageLen
  omega

theorem createUnit_of_none {st : LayoutState w}
    (h : (unit.createSegment st.shdrs st.offset).1 = none) :
    st.createUnit unit =
      { st with
        shdrs := (unit.createSegment st.shdrs st.offset).2.1
        offset := (unit.createSegment st.shdrs st.offset).2.2 } := by
  unfold LayoutState.createUnit
  split
  · rename_i heq
    rw [heq] at h
    cases h
  · rename_i heq
    rw [heq]

theorem createUnit_of_some {st : LayoutState w} {seg : ElfSegment w}
    (h : (unit.createSegment st.shdrs st.offset).1 = some seg) :
    st.createUnit unit =
      { shdrs := (unit.createSegment st.shdrs st.offset).2.1
        segments := st.segments ++ [seg]
        offset := roundup (unit.createSegment st.shdrs st.offset).2.2 (pageSize w) } := by
  unfold LayoutState.createUnit
  split
  · rename_i heq
    rw [heq] at h
    cases h
    rw [heq]
  · rename_i heq
    rw [heq] at h
    cases h

variable [WordSize w]

theorem roundup_of_pageAligned {x : BitVec w} (h : PageAligned x) :
    roundup x (pageSize w) = x := by
  unfold PageAligned at h
  rw [roundup_page, h]
  exact BitVec.add_zero x

/-- The loop of `SectionSegments::new` over the units. -/
theorem createUnits_spec (hreg : ∀ i, (shdrAt tbl i).Regular) {cs : List (Fin 4)}
    (hnodup : cs.Nodup) {st : LayoutState w} (hst : st.shdrs = withAddrs tbl addr)
    (hpage : PageAligned st.offset) (hfit : layoutEnd tbl st.offset.toNat cs < 2 ^ w) :
    ∃ addr' segs,
      (cs.foldl (fun st c => st.createUnit (SectionSegments.groupSections tbl c)) st).shdrs =
        withAddrs tbl addr' ∧
      (cs.foldl (fun st c => st.createUnit (SectionSegments.groupSections tbl c)) st).offset.toNat =
        layoutEnd tbl st.offset.toNat cs ∧
      (cs.foldl (fun st c => st.createUnit (SectionSegments.groupSections tbl c)) st).segments =
        st.segments ++ segs ∧
      (∀ i, flagsToIdx (shdrAt tbl i).shFlags ∉ cs → addr' i = addr i) ∧
      LaidOut tbl addr' st.offset cs segs := by
  induction cs generalizing st addr with
  | nil => exact ⟨addr, [], hst, rfl, (List.append_nil _).symm, fun _ _ => rfl, .nil⟩
  | cons c cs ih =>
      obtain ⟨hc, hnodup'⟩ := List.nodup_cons.mp hnodup
      rw [layoutEnd] at hfit
      have hle := le_layoutEnd tbl
        ((SectionSegments.groupSections tbl c).next tbl st.offset.toNat) cs
      have hspec := createSegment_spec addr hreg (groupSections_valid tbl c) hpage
        (Nat.lt_of_le_of_lt hle hfit)
      rw [← hst] at hspec
      obtain ⟨addr₁, hshdrs, hoffset, hframe, hlayout, hcases⟩ := hspec
      have hpage₁ : PageAligned
          ((SectionSegments.groupSections tbl c).createSegment st.shdrs st.offset).2.2 := by
        unfold PageAligned
        rw [hoffset]
        exact next_mod_page hpage
      -- the other classes keep what this unit placed
      have hlater : ∀ addr' : Nat → BitVec w,
          (∀ i, flagsToIdx (shdrAt tbl i).shFlags ∉ cs → addr' i = addr₁ i) →
          ∀ i, i ∈ (SectionSegments.groupSections tbl c).contentSections ∨
            i ∈ (SectionSegments.groupSections tbl c).zeroSectons → addr' i = addr₁ i := by
        intro addr' hrest i hi
        apply hrest
        rw [(class_of_mem hi).2]
        exact hc
      have houter : ∀ addr' : Nat → BitVec w,
          (∀ i, flagsToIdx (shdrAt tbl i).shFlags ∉ cs → addr' i = addr₁ i) →
          ∀ i, flagsToIdx (shdrAt tbl i).shFlags ∉ c :: cs → addr' i = addr i := by
        intro addr' hrest i hi
        rw [List.mem_cons, not_or] at hi
        rw [hrest i hi.2]
        apply hframe
        · exact fun hmem => hi.1 (class_of_mem (.inl hmem)).2
        · exact fun hmem => hi.1 (class_of_mem (.inr hmem)).2
      rw [List.foldl_cons, layoutEnd]
      rcases hcases with ⟨hnone, hend⟩ | ⟨seg, hsome, hseg⟩
      · rw [createUnit_of_none hnone]
        have hsame : ((SectionSegments.groupSections tbl c).createSegment st.shdrs
            st.offset).2.2 = st.offset := by
          apply BitVec.eq_of_toNat_eq
          rw [hoffset, next_of_zeroEnd hend]
        rw [hsame] at hoffset ⊢
        rw [← hoffset] at hfit ⊢
        obtain ⟨addr', segs, hshdrs', hoffset', hsegs, hrest, hlaid⟩ :=
          ih hnodup' (show (LayoutState.mk _ st.segments st.offset).shdrs = _ from hshdrs) hpage hfit
        exact ⟨addr', segs, hshdrs', hoffset', hsegs, houter addr' hrest,
          .empty (hlayout.congr (hlater addr' hrest)) hend hlaid⟩
      · rw [createUnit_of_some hsome, roundup_of_pageAligned hpage₁]
        rw [← hoffset] at hfit ⊢
        obtain ⟨addr', segs, hshdrs', hoffset', hsegs, hrest, hlaid⟩ :=
          ih hnodup' (show (LayoutState.mk _ (st.segments ++ [seg]) _).shdrs = _ from hshdrs)
            hpage₁ hfit
        refine ⟨addr', seg :: segs, hshdrs', hoffset', ?_, houter addr' hrest,
          .segment (hlayout.congr (hlater addr' hrest)) (hseg.congr (hlater addr' hrest)) hpage
            hoffset hlaid⟩
        rw [hsegs, List.append_assoc, List.singleton_append]

end Layout

/-! ## What a layout guarantees -/

/-- The range of a segment, from the base of its image. -/
def ElfSegment.range (seg : ElfSegment w) : Set Nat :=
  Set.Ico seg.addr.val.toNat (seg.addr.val.toNat + seg.len.toNat)

/-- All positions of a unit. -/
def SectionUnit.members (unit : SectionUnit) : List Nat :=
  unit.contentSections ++ unit.zeroSectons

section Guarantees

variable {tbl : List (ElfShdr w)} {addr : Nat → BitVec w} {start : BitVec w} {cs : List (Fin 4)}
  {segs : List (ElfSegment w)}

theorem UnitLayout.placed {unit : SectionUnit} {s : Nat} (h : UnitLayout tbl unit s addr) :
    Placed (sizeAt tbl) (alignAt tbl) (fun i => (addr i).toNat) unit.members s
      (unit.zeroEnd tbl s) :=
  h.content.append h.zero (start_le_contentEnd tbl unit s) (contentEnd_le_zeroEnd tbl unit s)

theorem LaidOut.placed (h : LaidOut tbl addr start cs segs) :
    Placed (sizeAt tbl) (alignAt tbl) (fun i => (addr i).toNat)
      (cs.flatMap fun c => (SectionSegments.groupSections tbl c).members) start.toNat
      (layoutEnd tbl start.toNat cs) := by
  induction h with
  | nil => exact Placed.nil
  | @empty start c cs segs hunit hend hrest ih =>
      rw [List.flatMap_cons, layoutEnd, next_of_zeroEnd hend]
      have hplaced := hunit.placed
      rw [hend] at hplaced
      exact hplaced.append ih (Nat.le_refl _) (le_layoutEnd tbl _ cs)
  | @segment start next c cs seg segs hunit hseg hpage hnext hrest ih =>
      rw [List.flatMap_cons, layoutEnd, ← hnext]
      have hle := zeroEnd_le_next tbl (SectionSegments.groupSections tbl c) start.toNat
      rw [← hnext] at hle
      have hge : start.toNat ≤ next.toNat := by
        rw [hnext]
        exact Nat.le_add_right _ _
      exact (hunit.placed.mono (Nat.le_refl _) hle).append ih hge (le_layoutEnd tbl _ cs)

theorem UnitSegment.range_eq {unit : SectionUnit} {seg : ElfSegment w}
    (h : UnitSegment tbl unit start addr seg) :
    seg.range = Set.Ico start.toNat (unit.next tbl start.toNat) := by
  rw [ElfSegment.range, h.at_start, h.len]
  rfl

/-- The write/execute class of a unit's segment. -/
theorem UnitSegment.class_eq {c : Fin 4} {seg : ElfSegment w}
    (h : UnitSegment tbl (SectionSegments.groupSections tbl c) start addr seg) :
    protToIdx seg.prot = c := by
  obtain ⟨i, hi, hprot⟩ := h.prot
  rw [hprot]
  exact (class_of_mem hi).2

/-- A segment is that of one class and lies in the range of the layout. -/
theorem LaidOut.segment_of_mem (h : LaidOut tbl addr start cs segs) {seg : ElfSegment w}
    (hseg : seg ∈ segs) :
    ∃ c ∈ cs, ∃ s, UnitSegment tbl (SectionSegments.groupSections tbl c) s addr seg ∧
      UnitLayout tbl (SectionSegments.groupSections tbl c) s.toNat addr ∧ PageAligned s ∧
      start.toNat ≤ s.toNat ∧
      (SectionSegments.groupSections tbl c).next tbl s.toNat ≤ layoutEnd tbl start.toNat cs := by
  induction h with
  | nil => cases hseg
  | @empty start c cs segs hunit hend hrest ih =>
      obtain ⟨c', hc', s, hs, hlay, hpage, hlo, hhi⟩ := ih hseg
      refine ⟨c', List.mem_cons_of_mem c hc', s, hs, hlay, hpage, hlo, ?_⟩
      rw [layoutEnd, next_of_zeroEnd hend]
      exact hhi
  | @segment start next c cs seg' segs hunit hseg' hpage hnext hrest ih =>
      rw [layoutEnd, ← hnext]
      rcases List.mem_cons.mp hseg with rfl | hseg
      · refine ⟨c, List.mem_cons_self, start, hseg', hunit, hpage, Nat.le_refl _, ?_⟩
        rw [← hnext]
        exact le_layoutEnd tbl _ cs
      · obtain ⟨c', hc', s, hs, hlay, hpage, hlo, hhi⟩ := ih hseg
        have hge : start.toNat ≤ next.toNat := by
          rw [hnext]
          exact Nat.le_add_right _ _
        exact ⟨c', List.mem_cons_of_mem c hc', s, hs, hlay, hpage, by omega, hhi⟩

/-- A section with bytes is in the segment of its class. -/
theorem LaidOut.segment_of_section (h : LaidOut tbl addr start cs segs) {c : Fin 4} (hc : c ∈ cs)
    {i : Nat} (hi : i ∈ (SectionSegments.groupSections tbl c).members) (hsize : sizeAt tbl i ≠ 0) :
    ∃ seg ∈ segs, ∃ s, UnitSegment tbl (SectionSegments.groupSections tbl c) s addr seg ∧
      UnitLayout tbl (SectionSegments.groupSections tbl c) s.toNat addr := by
  induction h with
  | nil => cases hc
  | @empty start c' cs segs hunit hend hrest ih =>
      rcases List.mem_cons.mp hc with rfl | hc
      · -- a unit of length zero has no bytes
        have hin := hunit.placed.inside i hi hsize
        rw [hend] at hin
        omega
      · exact ih hc
  | @segment start next c' cs seg segs hunit hseg hpage hnext hrest ih =>
      rcases List.mem_cons.mp hc with rfl | hc
      · exact ⟨seg, List.mem_cons_self, start, hseg, hunit⟩
      · obtain ⟨seg', hseg', hrest⟩ := ih hc
        exact ⟨seg', List.mem_cons_of_mem seg hseg', hrest⟩

theorem LaidOut.pairwise (h : LaidOut tbl addr start cs segs) (hnodup : cs.Nodup) :
    segs.Pairwise fun seg seg' =>
      Disjoint seg.range seg'.range ∧ protToIdx seg.prot ≠ protToIdx seg'.prot := by
  induction h with
  | nil => exact List.Pairwise.nil
  | @empty start c cs segs hunit hend hrest ih => exact ih (List.nodup_cons.mp hnodup).2
  | @segment start next c cs seg segs hunit hseg hpage hnext hrest ih =>
      obtain ⟨hc, hnodup'⟩ := List.nodup_cons.mp hnodup
      refine List.pairwise_cons.mpr ⟨fun seg' hseg' => ?_, ih hnodup'⟩
      obtain ⟨c', hc', s, hs, -, -, hlo, -⟩ := hrest.segment_of_mem hseg'
      constructor
      · rw [hseg.range_eq, hs.range_eq, ← hnext, Set.disjoint_left]
        intro x hx hx'
        have hlt := hx.2
        have hge := hx'.1
        omega
      · rw [hseg.class_eq, hs.class_eq]
        exact fun heq => hc (heq ▸ hc')

end Guarantees

/-! ## The result of `SectionSegments::new` -/

/-- The sizes of the sections, of the GOT and of the PLT, and the layout of all of
them, stay below the top of the address space. -/
structure NoOverflow (shdrs : List (ElfShdr w)) (gotCnt pltCnt : Nat) : Prop where
  got : gotCnt * (w / 8) < 2 ^ w
  plt : pltCnt * PltGotSection.pltEntrySize < 2 ^ w
  total : layoutEnd (SectionSegments.table shdrs gotCnt pltCnt) 0 (List.finRange 4) < 2 ^ w

/-- The range of a section, from the base of its image. -/
def ElfShdr.range (shdr : ElfShdr w) : Set Nat :=
  Set.Ico shdr.shAddr.toNat (shdr.shAddr.toNat + shdr.shSize.toNat)

/-- The headers `out` and the segments of an object, laid out from the headers
`tbl`. -/
structure ObjectLayout (tbl out : List (ElfShdr w)) (ss : SectionSegments w) : Prop where
  headers : out.map (fun shdr => { shdr with shAddr := 0 }) =
    tbl.map fun shdr => { shdr with shAddr := 0 }
  disjoint : out.Pairwise fun shdr shdr' => Disjoint shdr.range shdr'.range
  inside : ∀ shdr ∈ out, shdr.range ⊆ Set.Ico 0 ss.totalSize.toNat
  aligned : ∀ shdr ∈ out, shdr.shSize ≠ 0 → shdr.shAddralign ≠ 0 →
    shdr.shAddralign.toNat ∣ shdr.shAddr.toNat
  /-- A section lies in the one segment of its write/execute class. -/
  grouped : ∀ shdr ∈ out, shdr.shSize ≠ 0 → ∃ seg ∈ ss.segments,
    shdr.range ⊆ seg.range ∧ protToIdx seg.prot = flagsToIdx shdr.shFlags ∧
      ∀ seg' ∈ ss.segments, protToIdx seg'.prot = flagsToIdx shdr.shFlags → seg' = seg
  pages : ∀ seg ∈ ss.segments, (∃ start, seg.addr = .relative start ∧ PageAligned start) ∧
    PageAligned seg.len ∧ seg.range ⊆ Set.Ico 0 ss.totalSize.toNat
  segments_disjoint : ss.segments.Pairwise fun seg seg' => Disjoint seg.range seg'.range

section Result

variable {shdrs : List (ElfShdr w)} {gotCnt pltCnt : Nat}

theorem withAddrs_erase (tbl : List (ElfShdr w)) (addr : Nat → BitVec w) :
    (withAddrs tbl addr).map (fun shdr => { shdr with shAddr := 0 }) =
      tbl.map fun shdr => { shdr with shAddr := 0 } := by
  apply List.ext_getElem?
  intro i
  rw [List.getElem?_map, List.getElem?_map, withAddrs_getElem?]
  cases tbl[i]? with
  | none => rfl
  | some shdr => rfl

/-- A header of a table with other addresses. -/
theorem mem_withAddrs {tbl : List (ElfShdr w)} {addr : Nat → BitVec w} {shdr : ElfShdr w}
    (h : shdr ∈ withAddrs tbl addr) :
    ∃ i, i < tbl.length ∧ shdr = { shdrAt tbl i with shAddr := addr i } := by
  obtain ⟨i, hi⟩ := List.mem_iff_getElem?.mp h
  rw [withAddrs_getElem?] at hi
  obtain ⟨shdr', hat, rfl⟩ := Option.map_eq_some_iff.mp hi
  exact ⟨i, (List.getElem?_eq_some_iff.mp hat).1, by rw [shdrAt, hat]; rfl⟩

theorem withAddrs_range {tbl : List (ElfShdr w)} {addr : Nat → BitVec w} {k : Nat}
    (hk : k < (withAddrs tbl addr).length) :
    (withAddrs tbl addr)[k].range =
      Placement.range (sizeAt tbl) (fun i => (addr i).toNat) k := by
  have hlen : (withAddrs tbl addr).length = tbl.length := List.length_mapIdx
  have hsome := withAddrs_getElem? tbl addr k
  rw [List.getElem?_eq_getElem hk, List.getElem?_eq_getElem (by omega)] at hsome
  rw [Option.some.inj hsome, Placement.range, sizeAt, shdrAt, List.getElem?_eq_getElem (by omega)]
  rfl

theorem mem_members {tbl : List (ElfShdr w)} {i : Nat} (h : i < tbl.length) :
    i ∈ (SectionSegments.groupSections tbl (flagsToIdx (shdrAt tbl i).shFlags)).members :=
  List.mem_append.mpr (mem_group h)

theorem ObjectLayout.of_laidOut {tbl : List (ElfShdr w)} {addr : Nat → BitVec w}
    {ss : SectionSegments w} (hlaid : LaidOut tbl addr 0 (List.finRange 4) ss.segments)
    (htotal : ss.totalSize.toNat = layoutEnd tbl 0 (List.finRange 4)) :
    ObjectLayout tbl (withAddrs tbl addr) ss := by
  have hzero : (0 : BitVec w).toNat = 0 := BitVec.toNat_zero
  have hplaced := hlaid.placed
  rw [hzero, ← htotal] at hplaced
  have hmem : ∀ i, i < tbl.length → i ∈ (List.finRange 4).flatMap
      fun c => (SectionSegments.groupSections tbl c).members :=
    fun i hi => List.mem_flatMap.mpr ⟨_, List.mem_finRange _, mem_members hi⟩
  have hsize : ∀ i, (shdrAt tbl i).shSize ≠ 0 → sizeAt tbl i ≠ 0 := by
    intro i hne hsize
    exact hne (BitVec.eq_of_toNat_eq (by rw [hzero]; exact hsize))
  have hpair := hlaid.pairwise (List.nodup_finRange 4)
  refine ⟨withAddrs_erase tbl addr, ?_, ?_, ?_, ?_, ?_, hpair.imp And.left⟩
  · rw [List.pairwise_iff_getElem]
    intro i j hi hj hlt
    have hlen : (withAddrs tbl addr).length = tbl.length := List.length_mapIdx
    rw [withAddrs_range, withAddrs_range]
    exact hplaced.disjoint i (hmem i (by omega)) j (hmem j (by omega)) (by omega)
  · intro shdr hshdr x hx
    obtain ⟨i, hi, rfl⟩ := mem_withAddrs hshdr
    have hge := hx.1
    have hlt := hx.2
    have hin := hplaced.inside i (hmem i hi) (fun hnone => by
      rw [sizeAt] at hnone
      dsimp only at hge hlt
      omega)
    rw [sizeAt] at hin
    dsimp only at hge hlt
    exact ⟨Nat.zero_le x, by omega⟩
  · intro shdr hshdr hne halign
    obtain ⟨i, hi, rfl⟩ := mem_withAddrs hshdr
    refine hplaced.aligned i (hmem i hi) (hsize i hne) ?_
    intro hnone
    exact halign (BitVec.eq_of_toNat_eq (by rw [hzero]; exact hnone))
  · intro shdr hshdr hne
    obtain ⟨i, hi, rfl⟩ := mem_withAddrs hshdr
    obtain ⟨seg, hseg, s, hs, hlay⟩ :=
      hlaid.segment_of_section (List.mem_finRange _) (mem_members hi) (hsize i hne)
    refine ⟨seg, hseg, ?_, hs.class_eq, ?_⟩
    · intro x hx
      have hge := hx.1
      have hlt := hx.2
      have hin := hlay.placed.inside i (mem_members hi) (hsize i hne)
      have hnext := zeroEnd_le_next tbl
        (SectionSegments.groupSections tbl (flagsToIdx (shdrAt tbl i).shFlags)) s.toNat
      rw [sizeAt] at hin
      dsimp only at hge hlt
      rw [hs.range_eq]
      exact ⟨by omega, by omega⟩
    · intro seg' hseg' hclass
      have hone : (ss.segments.map fun seg => protToIdx seg.prot).Nodup :=
        List.pairwise_map.mpr (hpair.imp And.right)
      exact List.inj_on_of_nodup_map hone hseg' hseg (hclass.trans hs.class_eq.symm)
  · intro seg hseg
    obtain ⟨c, -, s, hs, -, hpage, -, hhi⟩ := hlaid.segment_of_mem hseg
    refine ⟨⟨s, hs.at_start, hpage⟩, ?_, ?_⟩
    · rw [PageAligned, hs.len, pageLen]
      omega
    · intro x hx
      rw [hs.range_eq] at hx
      rw [hzero, ← htotal] at hhi
      exact ⟨Nat.zero_le x, Nat.lt_of_lt_of_le hx.2 hhi⟩

variable [WordSize w]

theorem table_regular (hreg : ∀ shdr ∈ shdrs, shdr.Regular) (gotCnt pltCnt : Nat) :
    ∀ shdr ∈ SectionSegments.table shdrs gotCnt pltCnt, shdr.Regular := by
  have hword : w / 8 = 2 ^ 2 ∨ w / 8 = 2 ^ 3 := by
    rcases (inferInstance : WordSize w).eq_32_or_64 with rfl | rfl <;> decide
  intro shdr hshdr
  rw [SectionSegments.table, List.mem_append] at hshdr
  rcases hshdr with hmem | hmem
  · exact hreg shdr hmem
  · rcases List.mem_pair.mp hmem with rfl | rfl
    · exact ⟨.inr ⟨4, by omega, rfl⟩, fun _ => Nat.dvd_zero _⟩
    · refine ⟨.inr ?_, fun _ => Nat.dvd_zero _⟩
      rcases hword with hword | hword
      · exact ⟨2, by omega, by rw [← hword]; rfl⟩
      · exact ⟨3, by omega, by rw [← hword]; rfl⟩

/-- The state after the loop over the units. -/
theorem layout_spec (hreg : ∀ shdr ∈ shdrs, shdr.Regular)
    (hfit : NoOverflow shdrs gotCnt pltCnt) :
    ∃ addr, (SectionSegments.layout (SectionSegments.table shdrs gotCnt pltCnt)).shdrs =
        withAddrs (SectionSegments.table shdrs gotCnt pltCnt) addr ∧
      (SectionSegments.layout (SectionSegments.table shdrs gotCnt pltCnt)).offset.toNat =
        layoutEnd (SectionSegments.table shdrs gotCnt pltCnt) 0 (List.finRange 4) ∧
      LaidOut (SectionSegments.table shdrs gotCnt pltCnt) addr 0 (List.finRange 4)
        (SectionSegments.layout (SectionSegments.table shdrs gotCnt pltCnt)).segments := by
  generalize htbl : SectionSegments.table shdrs gotCnt pltCnt = tbl
  have hreg' : ∀ i, (shdrAt tbl i).Regular := by
    rw [← htbl]
    exact shdrAt_regular (table_regular hreg gotCnt pltCnt)
  have hst : (LayoutState.mk tbl [] (0 : BitVec w)).shdrs =
      withAddrs tbl fun i => (shdrAt tbl i).shAddr := (withAddrs_self tbl).symm
  have hzero : (0 : BitVec w).toNat = 0 := BitVec.toNat_zero
  have htotal : layoutEnd tbl (0 : BitVec w).toNat (List.finRange 4) < 2 ^ w := by
    rw [hzero, ← htbl]
    exact hfit.total
  have hpage : PageAligned (0 : BitVec w) := by
    rw [PageAligned, hzero, Nat.zero_mod]
  obtain ⟨addr, segs, hshdrs, hoffset, hsegs, -, hlaid⟩ :=
    createUnits_spec hreg' (List.nodup_finRange 4) hst hpage htotal
  rw [hzero] at hoffset
  refine ⟨addr, hshdrs, hoffset, ?_⟩
  rw [List.nil_append] at hsegs
  rw [← hsegs] at hlaid
  exact hlaid

section New

variable {S : StaticReloc} {R : ElfReader w O} {o o' o₁ : O} {ss : SectionSegments w}
  {out : List (ElfShdr w)}

theorem SectionSegments.new_objectLayout (hreg : ∀ shdr ∈ shdrs, shdr.Regular)
    (hcount : PltGotSection.countNeededEntries S R shdrs o = .ok (gotCnt, pltCnt) o₁)
    (hfit : NoOverflow shdrs gotCnt pltCnt)
    (hrun : SectionSegments.new S R shdrs o = .ok (ss, out) o') :
    ObjectLayout (SectionSegments.table shdrs gotCnt pltCnt) out ss := by
  rw [SectionSegments.new, Exec.bind_of_ok hcount] at hrun
  cases hrun
  obtain ⟨addr, hshdrs, hoffset, hlaid⟩ := layout_spec hreg hfit
  dsimp only
  rw [hshdrs]
  exact ObjectLayout.of_laidOut hlaid hoffset

/-- The synthetic headers are last, with the bases and the sizes of the GOT and
the PLT. -/
theorem SectionSegments.new_reserved (hreg : ∀ shdr ∈ shdrs, shdr.Regular)
    (hcount : PltGotSection.countNeededEntries S R shdrs o = .ok (gotCnt, pltCnt) o₁)
    (hfit : NoOverflow shdrs gotCnt pltCnt)
    (hrun : SectionSegments.new S R shdrs o = .ok (ss, out) o') :
    (out[shdrs.length]?.map fun got => (got.shAddr, got.shSize.toNat)) =
        some (ss.gotBase, gotCnt * (w / 8)) ∧
      (out[shdrs.length + 1]?.map fun plt => (plt.shAddr, plt.shSize.toNat)) =
        some (ss.pltBase, pltCnt * PltGotSection.pltEntrySize) := by
  rw [SectionSegments.new, Exec.bind_of_ok hcount] at hrun
  cases hrun
  obtain ⟨addr, hshdrs, -, -⟩ := layout_spec hreg hfit
  have hat : ∀ k (shdr : ElfShdr w), (SectionSegments.table shdrs gotCnt pltCnt)[k]? = some shdr →
      (SectionSegments.layout (SectionSegments.table shdrs gotCnt pltCnt)).shdrs[k]? =
        some { shdr with shAddr := addr k } := by
    intro k shdr hk
    rw [hshdrs, withAddrs_getElem?, hk]
    rfl
  have hgot := hat shdrs.length (PltGotSection.createGotShdr gotCnt)
    (by simp [SectionSegments.table])
  have hplt := hat (shdrs.length + 1) (PltGotSection.createPltShdr pltCnt)
    (by simp [SectionSegments.table])
  constructor
  · rw [hgot]
    have hsize : (BitVec.ofNat w (gotCnt * (w / 8))).toNat = gotCnt * (w / 8) := by
      rw [BitVec.toNat_ofNat, Nat.mod_eq_of_lt hfit.got]
    simp [PltGotSection.createGotShdr, hsize]
  · rw [hplt]
    have hsize : (BitVec.ofNat w (pltCnt * PltGotSection.pltEntrySize)).toNat =
        pltCnt * PltGotSection.pltEntrySize := by
      rw [BitVec.toNat_ofNat, Nat.mod_eq_of_lt hfit.plt]
    simp [PltGotSection.createPltShdr, hsize]

end New

/-- After `SectionSegments::new` the sections, the GOT and the PLT among them, are
disjoint, aligned and grouped by protection. -/
theorem SectionSegments.new_layout {S : StaticReloc} {R : ElfReader w O} {o o' o₁ : O}
    {ss : SectionSegments w} {out : List (ElfShdr w)}
    (hreg : ∀ shdr ∈ shdrs, shdr.Regular)
    (hcount : PltGotSection.countNeededEntries S R shdrs o = .ok (gotCnt, pltCnt) o₁)
    (hfit : NoOverflow shdrs gotCnt pltCnt)
    (hrun : SectionSegments.new S R shdrs o = .ok (ss, out) o') :
    ObjectLayout (SectionSegments.table shdrs gotCnt pltCnt) out ss ∧
      (out[shdrs.length]?.map fun got => (got.shAddr, got.shSize.toNat)) =
        some (ss.gotBase, gotCnt * (w / 8)) ∧
      (out[shdrs.length + 1]?.map fun plt => (plt.shAddr, plt.shSize.toNat)) =
        some (ss.pltBase, pltCnt * PltGotSection.pltEntrySize) :=
  ⟨SectionSegments.new_objectLayout hreg hcount hfit hrun,
    SectionSegments.new_reserved hreg hcount hfit hrun⟩

end Result

/-! ## An object with one call -/

def sampleShdr (type : UInt32) (flags offset size align entsize : BitVec 64) : ElfShdr 64 where
  shName := 0
  shType := type
  shFlags := flags
  shAddr := 0
  shOffset := offset
  shSize := size
  shLink := 0
  shInfo := 0
  shAddralign := align
  shEntsize := entsize

/-- The null header, code, its relocations and a zero-initialised section. -/
def callShdrs : List (ElfShdr 64) :=
  [sampleShdr 0 0 0 0 0 0, sampleShdr 1 6 8 8 8 0, sampleShdr shtRela 0 16 24 8 24,
    sampleShdr shtNobits 3 40 5 4 0]

/-- Eight bytes of header, the code and one `R_X86_64_PLT32` entry. -/
def callFile : List UInt8 :=
  [0x7f, 0x45, 0x4c, 0x46, 0, 0, 0, 0, 0xe8, 0, 0, 0, 0, 0xc3, 0x90, 0x90,
    1, 0, 0, 0, 0, 0, 0, 0, 4, 0, 0, 0, 1, 0, 0, 0, 0xfc, 0xff, 0xff, 0xff, 0xff, 0xff, 0xff, 0xff]

theorem callShdrs_regular : ∀ shdr ∈ callShdrs, shdr.Regular := by
  intro shdr hshdr
  simp only [callShdrs, List.mem_cons, List.not_mem_nil, or_false] at hshdr
  rcases hshdr with rfl | rfl | rfl | rfl
  · exact ⟨.inl rfl, fun h => absurd rfl h⟩
  · exact ⟨.inr ⟨3, by decide, rfl⟩, fun _ => by decide⟩
  · exact ⟨.inr ⟨3, by decide, rfl⟩, fun _ => by decide⟩
  · exact ⟨.inr ⟨2, by decide, rfl⟩, fun _ => by decide⟩

theorem callShdrs_noOverflow : NoOverflow callShdrs 2 1 :=
  ⟨by decide, by decide, by decide⟩

def sampleSegment (start len contentSize zeroSize : BitVec 64) (prot : ProtFlags)
    (mapInfo : List (FileMapInfo 64)) : ElfSegment 64 where
  addr := .relative start
  prot
  flags := MapFlags.mapPrivate ∪ MapFlags.mapFixed
  len
  zeroSize
  contentSize
  mapInfo
  needCopy := false
  fromRelocatable := true

/-- The relocations, then the zero-initialised section with the GOT, then the code
with the PLT. -/
def callSegments : SectionSegments 64 where
  segments :=
    [sampleSegment 0 0x1000 40 0 ⟨1⟩ [⟨0, 40, 0⟩], sampleSegment 0x1000 0x1000 0 0x20 ⟨3⟩ [],
      sampleSegment 0x2000 0x1000 16 16 ⟨5⟩ [⟨0, 16, 0⟩]]
  totalSize := 0x3000
  gotBase := 0x1010
  pltBase := 0x2010

/-- The headers of the object and of its GOT and PLT with their addresses. -/
def callOut : List (ElfShdr 64) :=
  [sampleShdr 0 0 0 0 0 0, { sampleShdr 1 6 8 8 8 0 with shAddr := 0x2008 },
    { sampleShdr shtRela 0 16 24 8 24 with shAddr := 16 },
    { sampleShdr shtNobits 3 40 5 4 0 with shAddr := 0x1000 },
    { PltGotSection.createGotShdr 2 with shAddr := 0x1010 },
    { PltGotSection.createPltShdr 1 with shAddr := 0x2010 }]

theorem call_new (fd : Option Int) :
    SectionSegments.new X86_64Relocator.staticReloc (bytesReader callFile fd) callShdrs () =
      .ok (callSegments, callOut) () := rfl

theorem call_object_laid_out :
    ObjectLayout (SectionSegments.table callShdrs 2 1) callOut callSegments :=
  (SectionSegments.new_layout callShdrs_regular rfl callShdrs_noOverflow (call_new none)).1

end ElfLoader
