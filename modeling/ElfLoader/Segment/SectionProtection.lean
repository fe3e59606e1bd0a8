import ElfLoader.Segment.Protection
import ElfLoader.Segment.SectionImage

/-! # Page protections of a relocatable object

All segments of an object are protected once more when the relocations are
done, so only their ranges matter. As long as the cursor of the layout does not
leave the top of the address space, sections stay inside the segment of their
class and segments stay apart, for any alignment.
-/

namespace ElfLoader

open ByteMemory LastWrite Pages

variable {w : Nat} {K O : Type}

/-! ## A cursor that does not wrap -/

/-- The cursor after the sections `is`. -/
def cursorAfter (tbl : List (ElfShdr w)) (cur : BitVec w) (is : List Nat) : BitVec w :=
  is.foldl (fun cur i => roundup cur (shdrAt tbl i).shAddralign + (shdrAt tbl i).shSize) cur

/-- The cursor never steps back on its way over the sections. -/
def Rises (tbl : List (ElfShdr w)) : BitVec w → List Nat → Prop
  | _, [] => True
  | cur, i :: is =>
      let start := roundup cur (shdrAt tbl i).shAddralign
      cur ≤ start ∧ start ≤ start + (shdrAt tbl i).shSize ∧
        Rises tbl (start + (shdrAt tbl i).shSize) is

instance decidableRises (tbl : List (ElfShdr w)) : (cur : BitVec w) → (is : List Nat) →
    Decidable (Rises tbl cur is)
  | _, [] => .isTrue trivial
  | cur, i :: is =>
      have := decidableRises tbl
        (roundup cur (shdrAt tbl i).shAddralign + (shdrAt tbl i).shSize) is
      decidable_of_iff (cur ≤ roundup cur (shdrAt tbl i).shAddralign ∧
        roundup cur (shdrAt tbl i).shAddralign ≤
          roundup cur (shdrAt tbl i).shAddralign + (shdrAt tbl i).shSize ∧
        Rises tbl (roundup cur (shdrAt tbl i).shAddralign + (shdrAt tbl i).shSize) is) Iff.rfl

namespace SectionUnit

/-- The residue by which a single content section is moved. -/
def residue (unit : SectionUnit) (tbl : List (ElfShdr w)) : BitVec w :=
  match nonempty tbl unit.contentSections with
  | [j] => (shdrAt tbl j).shOffset - rounddown (shdrAt tbl j).shOffset (pageSize w)
  | _ => 0

def contentCursor (unit : SectionUnit) (tbl : List (ElfShdr w)) (offset : BitVec w) : BitVec w :=
  cursorAfter tbl offset (nonempty tbl unit.contentSections) + unit.residue tbl

def endCursor (unit : SectionUnit) (tbl : List (ElfShdr w)) (offset : BitVec w) : BitVec w :=
  cursorAfter tbl (unit.contentCursor tbl offset) unit.zeroSectons

/-- The length of the segment of a unit. -/
def segLen (unit : SectionUnit) (tbl : List (ElfShdr w)) (offset : BitVec w) : BitVec w :=
  roundup (unit.endCursor tbl offset - offset) (pageSize w)

structure RisesFrom (unit : SectionUnit) (tbl : List (ElfShdr w)) (offset : BitVec w) : Prop where
  content : Rises tbl offset (nonempty tbl unit.contentSections)
  residue : cursorAfter tbl offset (nonempty tbl unit.contentSections) ≤
    unit.contentCursor tbl offset
  zero : Rises tbl (unit.contentCursor tbl offset) unit.zeroSectons
  len : unit.endCursor tbl offset - offset ≤ unit.segLen tbl offset
  next : offset ≤ offset + unit.segLen tbl offset

end SectionUnit

/-- The whole layout stays below the top of the address space. -/
def LayoutRises (tbl : List (ElfShdr w)) : BitVec w → List (Fin 4) → Prop
  | _, [] => True
  | offset, c :: cs =>
      (SectionSegments.groupSections tbl c).RisesFrom tbl offset ∧
        LayoutRises tbl (offset + (SectionSegments.groupSections tbl c).segLen tbl offset) cs

/-- The sections with bytes lie between `lo` and `hi`. -/
def Inside (tbl : List (ElfShdr w)) (addr : Nat → BitVec w) (is : List Nat) (lo hi : Nat) : Prop :=
  ∀ i ∈ is, sizeAt tbl i ≠ 0 → lo ≤ (addr i).toNat ∧ (addr i).toNat + sizeAt tbl i ≤ hi

section Cursor

variable {tbl : List (ElfShdr w)} {addr addr' : Nat → BitVec w} {is : List Nat} {lo hi : Nat}

theorem Inside.mono {lo' hi' : Nat} (h : Inside tbl addr is lo hi) (hlo : lo' ≤ lo)
    (hhi : hi ≤ hi') : Inside tbl addr is lo' hi' := by
  intro i hi hne
  obtain ⟨h₁, h₂⟩ := h i hi hne
  exact ⟨Nat.le_trans hlo h₁, Nat.le_trans h₂ hhi⟩

theorem le_cursorAfter {cur : BitVec w} (h : Rises tbl cur is) :
    cur ≤ cursorAfter tbl cur is := by
  induction is generalizing cur with
  | nil => exact BitVec.le_refl cur
  | cons i is ih =>
      obtain ⟨hround, hadd, hrest⟩ := h
      exact BitVec.le_trans hround (BitVec.le_trans hadd (ih hrest))

theorem add_toNat_of_le {a b : BitVec w} (h : a ≤ a + b) :
    (a + b).toNat = a.toNat + b.toNat := by
  rw [BitVec.le_def, BitVec.toNat_add] at h
  rw [BitVec.toNat_add]
  have ha := a.isLt
  have hb := b.isLt
  by_cases hlt : a.toNat + b.toNat < 2 ^ w
  · exact Nat.mod_eq_of_lt hlt
  · rw [Nat.mod_eq_sub_mod (by omega), Nat.mod_eq_of_lt (by omega)] at h
    omega

/-- A step that places a section at the cursor. -/
structure Places (tbl : List (ElfShdr w)) (f : UnitState w → Nat → UnitState w) (i : Nat) :
    Prop where
  shdrs : ∀ {st : UnitState w} {addr : Nat → BitVec w}, st.shdrs = withAddrs tbl addr →
    (f st i).shdrs = withAddrs tbl (Function.update addr i
      (roundup st.cursor.cur (shdrAt tbl i).shAddralign))
  cursor : ∀ {st : UnitState w} {addr : Nat → BitVec w}, st.shdrs = withAddrs tbl addr →
    (f st i).cursor = ⟨st.cursor.start,
      roundup st.cursor.cur (shdrAt tbl i).shAddralign + (shdrAt tbl i).shSize⟩

theorem placeContent_places {i : Nat} (h : sizeAt tbl i ≠ 0) :
    Places tbl UnitState.placeContent i where
  shdrs := fun hst => by rw [placeContent_of_nonempty hst h]
  cursor := fun hst => by rw [placeContent_of_nonempty hst h]

theorem placeZero_places {i : Nat} (h : i < tbl.length) : Places tbl UnitState.placeZero i where
  shdrs := fun hst => by rw [placeZero_eq hst h]
  cursor := fun hst => by rw [placeZero_eq hst h]

/-- Sections placed one after another stand between the two ends of the cursor. -/
theorem place_foldl {f : UnitState w → Nat → UnitState w} (hf : ∀ i ∈ is, Places tbl f i)
    {st : UnitState w} (hst : st.shdrs = withAddrs tbl addr)
    (hrise : Rises tbl st.cursor.cur is) :
    ∃ addr', (is.foldl f st).shdrs = withAddrs tbl addr' ∧
      (is.foldl f st).cursor = ⟨st.cursor.start, cursorAfter tbl st.cursor.cur is⟩ ∧
      (∀ i ∉ is, addr' i = addr i) ∧
      Inside tbl addr' is st.cursor.cur.toNat (cursorAfter tbl st.cursor.cur is).toNat := by
  induction is generalizing st addr with
  | nil => exact ⟨addr, hst, rfl, fun _ _ => rfl, fun i hi => by cases hi⟩
  | cons i is ih =>
      obtain ⟨hround, hadd, hrest⟩ := hrise
      have hplace := hf i List.mem_cons_self
      have hcursor := hplace.cursor hst
      have hrest' : Rises tbl (f st i).cursor.cur is := by rwa [hcursor]
      obtain ⟨addr', hshdrs, hcur, hframe, hinside⟩ :=
        ih (fun j hj => hf j (List.mem_cons_of_mem i hj)) (hplace.shdrs hst) hrest'
      rw [hcursor] at hcur hinside
      have hend := le_cursorAfter hrest
      have hsum := add_toNat_of_le hadd
      rw [BitVec.le_def] at hround hend
      refine ⟨addr', hshdrs, hcur, ?_, ?_⟩
      · intro j hj
        rw [List.mem_cons, not_or] at hj
        rw [hframe j hj.2, Function.update_of_ne hj.1]
      · intro j hj hne
        change _ ∧ _ ≤ (cursorAfter tbl (roundup st.cursor.cur (shdrAt tbl i).shAddralign +
          (shdrAt tbl i).shSize) is).toNat
        by_cases hmem : j ∈ is
        · obtain ⟨hlo, hhi⟩ := hinside j hmem hne
          dsimp only at hlo
          exact ⟨by omega, hhi⟩
        · obtain rfl : j = i := by
            rcases List.mem_cons.mp hj with hhead | htail
            · exact hhead
            · exact absurd htail hmem
          rw [hframe j hmem, Function.update_self, sizeAt]
          exact ⟨hround, by omega⟩

/-- Empty content sections are passed over. -/
theorem foldl_placeContent {st : UnitState w} (hst : st.shdrs = withAddrs tbl addr) :
    is.foldl UnitState.placeContent st = (nonempty tbl is).foldl UnitState.placeContent st := by
  induction is generalizing st addr with
  | nil => rfl
  | cons i is ih =>
      by_cases h : sizeAt tbl i = 0
      · have hskip : nonempty tbl (i :: is) = nonempty tbl is := by simp [nonempty, h]
        rw [List.foldl_cons, hskip, placeContent_of_empty hst h, ih hst]
      · have hkeep : nonempty tbl (i :: is) = i :: nonempty tbl is := by simp [nonempty, h]
        rw [hkeep, List.foldl_cons, List.foldl_cons]
        exact ih ((placeContent_places h).shdrs hst)

/-- One map entry for each content section with bytes, by file offset. -/
theorem placeContent_offsets (his : ∀ i ∈ is, sizeAt tbl i ≠ 0) {st : UnitState w}
    (hst : st.shdrs = withAddrs tbl addr) :
    (is.foldl UnitState.placeContent st).mapInfo.map FileMapInfo.offset =
      st.mapInfo.map FileMapInfo.offset ++ is.map fun i => (shdrAt tbl i).shOffset := by
  induction is generalizing st addr with
  | nil => exact (List.append_nil _).symm
  | cons i is ih =>
      have hne := his i List.mem_cons_self
      rw [List.foldl_cons, ih (fun j hj => his j (List.mem_cons_of_mem i hj))
        ((placeContent_places hne).shdrs hst), placeContent_of_nonempty hst hne, List.map_append,
        List.append_assoc]
      rfl

/-- The content of a unit, with the residue that a single section is moved by. -/
theorem placeContents_inside (addr : Nat → BitVec w) {unit : SectionUnit} {offset : BitVec w}
    (hrise : unit.RisesFrom tbl offset) :
    ∃ addr', (unit.placeContents (withAddrs tbl addr) offset).shdrs = withAddrs tbl addr' ∧
      (unit.placeContents (withAddrs tbl addr) offset).cursor =
        ⟨offset, unit.contentCursor tbl offset⟩ ∧
      (∀ i ∉ unit.contentSections, addr' i = addr i) ∧
      Inside tbl addr' unit.contentSections offset.toNat
        (unit.contentCursor tbl offset).toNat := by
  have hres := hrise.residue
  have hmem : ∀ i ∈ nonempty tbl unit.contentSections, i ∈ unit.contentSections :=
    fun i hi => (mem_nonempty.mp hi).1
  obtain ⟨start, hstart⟩ : ∃ start : UnitState w,
      start = { shdrs := withAddrs tbl addr, cursor := Cursor.new offset, mapInfo := [] } :=
    ⟨_, rfl⟩
  have hshdrs₀ : start.shdrs = withAddrs tbl addr := by rw [hstart]
  have hcursor₀ : start.cursor = ⟨offset, offset⟩ := by rw [hstart]; rfl
  have hinfo₀ : start.mapInfo = [] := by rw [hstart]
  have hsize : ∀ i ∈ nonempty tbl unit.contentSections, sizeAt tbl i ≠ 0 :=
    fun i hi => (mem_nonempty.mp hi).2
  obtain ⟨addr₁, hshdrs, hcursor, hframe, hinside⟩ :=
    place_foldl (fun i hi => placeContent_places (hsize i hi)) hshdrs₀
      (by rw [hcursor₀]; exact hrise.content)
  have hinfo := placeContent_offsets hsize hshdrs₀
  rw [hcursor₀] at hcursor hinside
  dsimp only at hcursor hinside
  rw [hinfo₀] at hinfo
  have hframe' : ∀ i ∉ unit.contentSections, addr₁ i = addr i :=
    fun i hi => hframe i (fun hin => hi (hmem i hin))
  unfold SectionUnit.placeContents
  rw [foldl_placeContent rfl]
  rw [← hstart]
  generalize (nonempty tbl unit.contentSections).foldl UnitState.placeContent start = st
    at hshdrs hcursor hinfo ⊢
  by_cases hone : ∃ j, nonempty tbl unit.contentSections = [j]
  · obtain ⟨j, hone⟩ := hone
    have hj : j ∈ nonempty tbl unit.contentSections := by
      rw [hone]
      exact List.mem_singleton_self j
    obtain ⟨hjmem, hjne⟩ := mem_nonempty.mp hj
    have hresidue : unit.residue tbl =
        (shdrAt tbl j).shOffset - rounddown (shdrAt tbl j).shOffset (pageSize w) := by
      simp only [SectionUnit.residue, hone]
    obtain ⟨info, hmap⟩ : ∃ info, st.mapInfo = [info] := by
      rw [hone] at hinfo
      exact List.length_eq_one_iff.mp (by simpa using congrArg List.length hinfo)
    have hoffset : info.offset = (shdrAt tbl j).shOffset := by
      rw [hmap, hone] at hinfo
      simpa using hinfo
    obtain ⟨i, hi, hfind⟩ := findOffset_isSome hjmem hjne
    have hfind' : UnitState.findOffset st.shdrs unit.contentSections info.offset = some i := by
      rw [hshdrs, findOffset_withAddrs, hoffset, hfind]
    have hcontent : unit.contentCursor tbl offset =
        cursorAfter tbl offset (nonempty tbl unit.contentSections) + unit.residue tbl := rfl
    rw [alignSingle_of_one hmap hfind', hshdrs, hoffset, ← hresidue,
      withAddrs_modify (fun a => a + unit.residue tbl) i]
    refine ⟨_, rfl, ?_, ?_, ?_⟩
    · rw [hcursor]
      rfl
    · intro k hk
      have hki : k ≠ i := by
        rintro rfl
        exact hk hi
      rw [Function.update_of_ne hki, hframe' k hk]
    · intro k hk hne
      -- the one section with bytes has stayed or has moved by the residue
      have hkj : k ∈ nonempty tbl unit.contentSections := mem_nonempty.mpr ⟨hk, hne⟩
      obtain ⟨hlo, hhi⟩ := hinside k hkj hne
      have hsum := add_toNat_of_le hres
      rw [hcontent] at hres ⊢
      rw [BitVec.le_def] at hres
      by_cases hki : k = i
      · rw [hki, Function.update_self]
        rw [hki] at hlo hhi
        have htotal : (addr₁ i + unit.residue tbl).toNat =
            (addr₁ i).toNat + (unit.residue tbl).toNat := by
          rw [BitVec.toNat_add]
          apply Nat.mod_eq_of_lt
          have hlt := (cursorAfter tbl offset (nonempty tbl unit.contentSections) +
            unit.residue tbl).isLt
          omega
        rw [htotal]
        omega
      · rw [Function.update_of_ne hki]
        omega
  · have hmany : st.mapInfo.length ≠ 1 := by
      intro hlen
      apply hone
      rw [← List.length_eq_one_iff]
      simpa [hlen] using (congrArg List.length hinfo).symm
    have hresidue : unit.residue tbl = 0 := by
      unfold SectionUnit.residue
      split
      · rename_i j hj
        exact absurd ⟨j, hj⟩ hone
      · rfl
    have hcontent : unit.contentCursor tbl offset =
        cursorAfter tbl offset (nonempty tbl unit.contentSections) := by
      rw [SectionUnit.contentCursor, hresidue]
      exact BitVec.add_zero _
    rw [alignSingle_of_not_one hmany, hcontent]
    refine ⟨addr₁, hshdrs, hcursor, hframe', fun i hi hne => ?_⟩
    exact hinside i (mem_nonempty.mpr ⟨hi, hne⟩) hne

/-- All sections of a unit. -/
theorem placeUnit_inside (addr : Nat → BitVec w) {unit : SectionUnit} (hunit : unit.Valid tbl)
    {offset : BitVec w}
    (hrise : unit.RisesFrom tbl offset) :
    ∃ addr', (unit.zeroSectons.foldl UnitState.placeZero
        (unit.placeContents (withAddrs tbl addr) offset)).shdrs = withAddrs tbl addr' ∧
      (unit.zeroSectons.foldl UnitState.placeZero
        (unit.placeContents (withAddrs tbl addr) offset)).cursor =
          ⟨offset, unit.endCursor tbl offset⟩ ∧
      (∀ i ∉ unit.members, addr' i = addr i) ∧
      Inside tbl addr' unit.members offset.toNat (unit.endCursor tbl offset).toNat := by
  obtain ⟨addr₁, hshdrs, hcursor, hframe, hinside⟩ := placeContents_inside addr hrise
  have hzero : Rises tbl (unit.placeContents (withAddrs tbl addr) offset).cursor.cur
      unit.zeroSectons := by
    rw [hcursor]
    exact hrise.zero
  obtain ⟨addr₂, hshdrs₂, hcursor₂, hframe₂, hinside₂⟩ := place_foldl
    (fun i hi => placeZero_places (hunit.zero_lt i hi)) hshdrs hzero
  rw [hcursor] at hcursor₂ hinside₂
  have hlo : offset ≤ unit.contentCursor tbl offset :=
    BitVec.le_trans (le_cursorAfter hrise.content) hrise.residue
  have hhi : unit.contentCursor tbl offset ≤ unit.endCursor tbl offset :=
    le_cursorAfter hrise.zero
  rw [BitVec.le_def] at hlo hhi
  refine ⟨addr₂, hshdrs₂, hcursor₂, ?_, ?_⟩
  · intro i hi
    rw [SectionUnit.members, List.mem_append, not_or] at hi
    rw [hframe₂ i hi.2, hframe i hi.1]
  · intro i hi hne
    rcases List.mem_append.mp hi with hcontent | hzero
    · rw [hframe₂ i (hunit.disjoint i hcontent)]
      exact hinside.mono (Nat.le_refl _) hhi i hcontent hne
    · exact hinside₂.mono hlo (Nat.le_refl _) i hzero hne

end Cursor

/-! ## The segment of a unit -/

/-- What a unit at `offset` leaves: either no sections with bytes, or a segment that
holds them. -/
structure UnitHeld (tbl : List (ElfShdr w)) (addr : Nat → BitVec w) (unit : SectionUnit)
    (offset : BitVec w) (seg : ElfSegment w) : Prop where
  at_offset : seg.addr = .relative offset
  len : seg.len = unit.segLen tbl offset
  relocatable : seg.fromRelocatable = true
  prot : ∃ i ∈ unit.members, seg.prot = sectionProt (shdrAt tbl i).shFlags
  inside : Inside tbl addr unit.members offset.toNat (offset.toNat + seg.len.toNat)

section Unit

variable [WordSize w] {tbl : List (ElfShdr w)} {addr : Nat → BitVec w} {unit : SectionUnit}
  {offset : BitVec w}

theorem createSegment_inside (addr : Nat → BitVec w) (hunit : unit.Valid tbl)
    (hrise : unit.RisesFrom tbl offset) :
    ∃ addr', (unit.createSegment (withAddrs tbl addr) offset).2.1 = withAddrs tbl addr' ∧
      (unit.createSegment (withAddrs tbl addr) offset).2.2 = offset + unit.segLen tbl offset ∧
      (∀ i ∉ unit.members, addr' i = addr i) ∧
      ((unit.createSegment (withAddrs tbl addr) offset).1 = none ∧ unit.segLen tbl offset = 0 ∧
          (∀ i ∈ unit.members, sizeAt tbl i = 0) ∨
        ∃ seg, (unit.createSegment (withAddrs tbl addr) offset).1 = some seg ∧
          UnitHeld tbl addr' unit offset seg) := by
  obtain ⟨addr', hshdrs, hcursor, hframe, hinside⟩ := placeUnit_inside addr hunit hrise
  unfold SectionUnit.createSegment
  split
  · rename_i hnone
    obtain ⟨hc, hz⟩ := unit_empty hunit hnone
    have hmembers : unit.members = [] := by rw [SectionUnit.members, hc, hz, List.append_nil]
    have hlen : unit.segLen tbl offset = 0 := by
      have hend : unit.endCursor tbl offset = offset := by
        simp [SectionUnit.endCursor, SectionUnit.contentCursor, SectionUnit.residue, cursorAfter,
          nonempty, hc, hz]
      rw [SectionUnit.segLen, hend, BitVec.sub_self]
      exact roundup_of_pageAligned (by simp [PageAligned])
    rw [hlen]
    exact ⟨addr, rfl, (BitVec.add_zero offset).symm, fun _ _ => rfl,
      .inl ⟨rfl, rfl, by simp [hmembers]⟩⟩
  · rename_i first hfirst
    have hlen : roundup ((unit.placeContents (withAddrs tbl addr) offset).cursor.curOffset +
        ((unit.zeroSectons.foldl UnitState.placeZero
          (unit.placeContents (withAddrs tbl addr) offset)).cursor.curOffset -
            (unit.placeContents (withAddrs tbl addr) offset).cursor.curOffset)) (pageSize w) =
          unit.segLen tbl offset := by
      have hsum : ∀ a b : BitVec w, a + (b - a) = b := by grind
      rw [hsum, hcursor]
      rfl
    have hlo := le_cursorAfter hrise.content
    have hmid := hrise.residue
    have hhi := le_cursorAfter hrise.zero
    have hround := hrise.len
    change _ ≤ unit.endCursor tbl offset at hhi
    rw [BitVec.le_def] at hlo hmid hhi hround
    have hsub : (unit.endCursor tbl offset - offset).toNat =
        (unit.endCursor tbl offset).toNat - offset.toNat :=
      BitVec.toNat_sub_of_le (BitVec.le_def.mpr (by omega))
    have hmax : (unit.endCursor tbl offset).toNat ≤
        offset.toNat + (unit.segLen tbl offset).toNat := by omega
    simp only [hlen]
    split
    · rename_i hempty
      have hnothing : (unit.segLen tbl offset).toNat = 0 := by
        rw [hempty]
        exact BitVec.toNat_zero
      rw [hnothing] at hmax
      refine ⟨addr', hshdrs, ?_, hframe, .inl ⟨rfl, hempty, fun i hi => ?_⟩⟩
      · rw [hempty]
        exact (BitVec.add_zero offset).symm
      · by_contra hne
        obtain ⟨h₁, h₂⟩ := hinside i hi hne
        omega
    · obtain ⟨i, hi, hprot⟩ := unit_first hfirst
      exact ⟨addr', hshdrs, rfl, hframe, .inr ⟨_, rfl, rfl, rfl, rfl,
        ⟨i, List.mem_append.mpr hi, hprot⟩, hinside.mono (Nat.le_refl _) hmax⟩⟩

end Unit

/-! ## The segments of all units -/

/-- A segment of the layout, from `start` on. -/
structure SegmentSound (tbl : List (ElfShdr w)) (start : Nat) (seg : ElfSegment w) : Prop where
  relative : seg.addr = .relative seg.addr.val
  aligned : PageAligned seg.addr.val
  len : PageAligned seg.len
  relocatable : seg.fromRelocatable = true
  start_le : start ≤ seg.addr.val.toNat
  fits : seg.addr.val.toNat + seg.len.toNat < 2 ^ w
  prot : ∃ i < tbl.length, seg.prot = sectionProt (shdrAt tbl i).shFlags

/-- The segments of the classes `cs` stand behind each other, and every section with
bytes is in one with its own protection. -/
structure LaidInside (tbl : List (ElfShdr w)) (addr : Nat → BitVec w) (cs : List (Fin 4))
    (start : Nat) (segs : List (ElfSegment w)) : Prop where
  sound : ∀ seg ∈ segs, SegmentSound tbl start seg
  apart : segs.Pairwise fun seg seg' =>
    seg.addr.val.toNat + seg.len.toNat ≤ seg'.addr.val.toNat
  held : ∀ c ∈ cs, ∀ i ∈ (SectionSegments.groupSections tbl c).members, sizeAt tbl i ≠ 0 →
    ∃ seg ∈ segs, seg.prot = sectionProt (shdrAt tbl i).shFlags ∧
      seg.addr.val.toNat ≤ (addr i).toNat ∧
      (addr i).toNat + sizeAt tbl i ≤ seg.addr.val.toNat + seg.len.toNat

/-- `section_prot` on the two flags it looks at. -/
def protOfBits (write exec : Bool) : ProtFlags :=
  ProtFlags.protRead ∪ (if write then ProtFlags.protWrite else ProtFlags.protNone) ∪
    (if exec then ProtFlags.protExec else ProtFlags.protNone)

theorem sectionProt_eq (f : BitVec w) :
    sectionProt f = protOfBits (f &&& BitVec.ofNat w shfWrite ≠ 0)
      (f &&& BitVec.ofNat w shfExecinstr ≠ 0) := by
  simp only [sectionProt, protOfBits, decide_eq_true_eq]

theorem protToIdx_inj : ∀ write exec write' exec' : Bool,
    protToIdx (protOfBits write exec) = protToIdx (protOfBits write' exec') →
      protOfBits write exec = protOfBits write' exec' := by
  decide

/-- The protection of a section is that of its class. -/
theorem sectionProt_of_class {f g : BitVec w} (h : flagsToIdx f = flagsToIdx g) :
    sectionProt f = sectionProt g := by
  unfold flagsToIdx at h
  rw [sectionProt_eq, sectionProt_eq] at h ⊢
  exact protToIdx_inj _ _ _ _ h

section Layout

variable {tbl : List (ElfShdr w)} {addr addr' : Nat → BitVec w} {cs : List (Fin 4)} {c : Fin 4}
  {segs : List (ElfSegment w)} {offset : BitVec w}

theorem LaidInside.cons_none (h : LaidInside tbl addr cs offset.toNat segs)
    (hempty : ∀ i ∈ (SectionSegments.groupSections tbl c).members, sizeAt tbl i = 0) :
    LaidInside tbl addr (c :: cs) offset.toNat segs where
  sound := h.sound
  apart := h.apart
  held := by
    rintro d (_ | ⟨_, hd⟩) i hi hne
    · exact absurd (hempty i hi) hne
    · exact h.held d hd i hi hne

theorem UnitHeld.congr {unit : SectionUnit} {seg : ElfSegment w}
    (h : UnitHeld tbl addr unit offset seg) (heq : ∀ i ∈ unit.members, addr' i = addr i) :
    UnitHeld tbl addr' unit offset seg :=
  { h with inside := fun i hi hne => by rw [heq i hi]; exact h.inside i hi hne }

variable [WordSize w]

theorem pageAligned_segLen (unit : SectionUnit) (tbl : List (ElfShdr w)) (offset : BitVec w) :
    PageAligned (unit.segLen tbl offset) := pageAligned_roundup _

theorem LaidInside.cons_some {seg : ElfSegment w}
    (hseg : UnitHeld tbl addr (SectionSegments.groupSections tbl c) offset seg)
    (hpage : PageAligned offset)
    (hnext : offset ≤ offset + (SectionSegments.groupSections tbl c).segLen tbl offset)
    (h : LaidInside tbl addr cs
      (offset + (SectionSegments.groupSections tbl c).segLen tbl offset).toNat segs) :
    LaidInside tbl addr (c :: cs) offset.toNat (seg :: segs) := by
  have hval : seg.addr.val = offset := by rw [hseg.at_offset]; rfl
  have hsum := add_toNat_of_le hnext
  have hlt := (offset + (SectionSegments.groupSections tbl c).segLen tbl offset).isLt
  rw [← hseg.len] at hsum hlt h
  refine ⟨?_, ?_, ?_⟩
  · rintro seg' (_ | ⟨_, hmem⟩)
    · obtain ⟨i, hi, hprot⟩ := hseg.prot
      refine ⟨by rw [hval]; exact hseg.at_offset, by rwa [hval], ?_, hseg.relocatable,
        by rw [hval], by rw [hval]; omega, i, (class_of_mem (List.mem_append.mp hi)).1, hprot⟩
      rw [hseg.len]
      exact pageAligned_segLen _ _ _
    · have hlater := h.sound seg' hmem
      exact { hlater with start_le := by have := hlater.start_le; omega }
  · refine List.pairwise_cons.mpr ⟨fun seg' hmem => ?_, h.apart⟩
    have hlater := (h.sound seg' hmem).start_le
    rw [hval]
    omega
  · rintro d (_ | ⟨_, hd⟩) i hi hne
    · obtain ⟨j, hj, hprot⟩ := hseg.prot
      obtain ⟨hlo, hhi⟩ := hseg.inside i hi hne
      refine ⟨seg, List.mem_cons_self, ?_, by rw [hval]; exact hlo, by rw [hval]; exact hhi⟩
      rw [hprot]
      apply sectionProt_of_class
      rw [(class_of_mem (List.mem_append.mp hj)).2, (class_of_mem (List.mem_append.mp hi)).2]
    · obtain ⟨seg', hmem, hrest⟩ := h.held d hd i hi hne
      exact ⟨seg', List.mem_cons_of_mem _ hmem, hrest⟩

/-- The loop of `SectionSegments::new` over the units. -/
theorem createUnits_inside (hnodup : cs.Nodup) {st : LayoutState w}
    (hst : st.shdrs = withAddrs tbl addr) (hpage : PageAligned st.offset)
    (hrise : LayoutRises tbl st.offset cs) :
    ∃ addr' segs,
      (cs.foldl (fun st c => st.createUnit (SectionSegments.groupSections tbl c)) st).shdrs =
        withAddrs tbl addr' ∧
      (cs.foldl (fun st c => st.createUnit (SectionSegments.groupSections tbl c)) st).segments =
        st.segments ++ segs ∧
      (∀ i, flagsToIdx (shdrAt tbl i).shFlags ∉ cs → addr' i = addr i) ∧
      LaidInside tbl addr' cs st.offset.toNat segs := by
  induction cs generalizing st addr with
  | nil =>
      exact ⟨addr, [], hst, (List.append_nil _).symm, fun _ _ => rfl,
        ⟨by simp, List.Pairwise.nil, by simp⟩⟩
  | cons c cs ih =>
      obtain ⟨hc, hnodup'⟩ := List.nodup_cons.mp hnodup
      obtain ⟨hunit, hrest⟩ := hrise
      have hspec := createSegment_inside addr (groupSections_valid tbl c) hunit
      rw [← hst] at hspec
      obtain ⟨addr₁, hshdrs, hoffset, hframe, hcases⟩ := hspec
      have hpage₁ : PageAligned
          (st.offset + (SectionSegments.groupSections tbl c).segLen tbl st.offset) :=
        hpage.add (pageAligned_segLen _ _ _)
      -- the other classes keep what this unit placed
      have hlater : ∀ addr' : Nat → BitVec w,
          (∀ i, flagsToIdx (shdrAt tbl i).shFlags ∉ cs → addr' i = addr₁ i) →
          ∀ i ∈ (SectionSegments.groupSections tbl c).members, addr' i = addr₁ i := by
        intro addr' hkeep i hi
        apply hkeep
        rw [(class_of_mem (List.mem_append.mp hi)).2]
        exact hc
      have houter : ∀ addr' : Nat → BitVec w,
          (∀ i, flagsToIdx (shdrAt tbl i).shFlags ∉ cs → addr' i = addr₁ i) →
          ∀ i, flagsToIdx (shdrAt tbl i).shFlags ∉ c :: cs → addr' i = addr i := by
        intro addr' hkeep i hi
        rw [List.mem_cons, not_or] at hi
        rw [hkeep i hi.2]
        apply hframe
        exact fun hmem => hi.1 (class_of_mem (List.mem_append.mp hmem)).2
      rw [List.foldl_cons]
      rcases hcases with ⟨hnone, hlen, hempty⟩ | ⟨seg, hsome, hseg⟩
      · rw [createUnit_of_none hnone]
        have hsame : st.offset + (SectionSegments.groupSections tbl c).segLen tbl st.offset =
            st.offset := by
          rw [hlen]
          exact BitVec.add_zero _
        rw [hsame] at hrest hoffset
        rw [hoffset]
        obtain ⟨addr', segs, hshdrs', hsegs, hkeep, hlaid⟩ :=
          ih hnodup' (show (LayoutState.mk _ st.segments st.offset).shdrs = _ from hshdrs) hpage
            hrest
        exact ⟨addr', segs, hshdrs', hsegs, houter addr' hkeep, hlaid.cons_none hempty⟩
      · rw [createUnit_of_some hsome, hoffset, roundup_of_pageAligned hpage₁]
        obtain ⟨addr', segs, hshdrs', hsegs, hkeep, hlaid⟩ :=
          ih hnodup' (show (LayoutState.mk _ (st.segments ++ [seg]) _).shdrs = _ from hshdrs)
            hpage₁ hrest
        refine ⟨addr', seg :: segs, hshdrs', ?_, houter addr' hkeep,
          .cons_some (hseg.congr (hlater addr' hkeep)) hpage hunit.next hlaid⟩
        rw [hsegs, List.append_assoc, List.singleton_append]

/-- The layout of a whole table. -/
theorem layout_inside (tbl : List (ElfShdr w)) (hrise : LayoutRises tbl 0 (List.finRange 4)) :
    ∃ addr, (SectionSegments.layout tbl).shdrs = withAddrs tbl addr ∧
      LaidInside tbl addr (List.finRange 4) 0 (SectionSegments.layout tbl).segments := by
  have hst : (LayoutState.mk tbl [] (0 : BitVec w)).shdrs =
      withAddrs tbl fun i => (shdrAt tbl i).shAddr := (withAddrs_self tbl).symm
  have hzero : (0 : BitVec w).toNat = 0 := BitVec.toNat_zero
  have hpage : PageAligned (0 : BitVec w) := by
    rw [PageAligned, hzero, Nat.zero_mod]
  obtain ⟨addr, segs, hshdrs, hsegs, -, hlaid⟩ :=
    createUnits_inside (List.nodup_finRange 4) hst hpage hrise
  rw [List.nil_append] at hsegs
  rw [← hsegs, hzero] at hlaid
  exact ⟨addr, hshdrs, hlaid⟩

end Layout

/-! ## The pages of a loaded object -/

/-- A segment after the loop of `load_segments`. -/
def LoadedFrom (base : BitVec w) (seg seg' : ElfSegment w) : Prop :=
  ∃ needCopy, seg' = { seg with addr := .absolute (base + seg.addr.val), needCopy }

section Pages

variable {M : Mmap w K} {R : ElfReader w O} {copies : Option Int → Bool}
  {protOf : K → BitVec w → ProtFlags} {base : BitVec w} {seg seg' : ElfSegment w}
  {segs segs' : List (ElfSegment w)} {s s' : LoadState w K O}

theorem load_from (haddr : seg.addr = .relative seg.addr.val)
    (h : seg.load M R base s = .ok seg' s') : LoadedFrom base seg seg' := by
  simp only [ElfSegment.load, Exec.bind_ok_iff, Exec.lift_ok_iff] at h
  obtain ⟨seg₁, _, ⟨hrebase, rfl⟩, seg₂, s₂, hmap, _, s₃, -, _, s₄, -, hret⟩ := h
  cases hret
  rw [ElfSegment.rebase, haddr] at hrebase
  cases hrebase
  by_cases hone : ∃ info, seg.mapInfo = [info]
  · obtain ⟨info, hinfo⟩ := hone
    have hinfo' : ElfSegment.mapInfo { seg with addr := .absolute (base + seg.addr.val) } =
        [info] := hinfo
    obtain ⟨p, needCopy, -, -, rfl⟩ := mmapSegment_ok rfl hinfo' hmap
    exact ⟨needCopy, rfl⟩
  · have hmany : (ElfSegment.mapInfo
        { seg with addr := .absolute (base + seg.addr.val) }).length ≠ 1 :=
      mt List.length_eq_one_iff.mp hone
    obtain ⟨p, needCopy, -, -, rfl⟩ := mmapSegment_ok_of_many rfl hmany hmap
    exact ⟨needCopy, rfl⟩

theorem loadAll_from (haddr : ∀ seg ∈ segs, seg.addr = .relative seg.addr.val)
    (h : ElfSegment.loadAll M R base segs s = .ok segs' s') :
    List.Forall₂ (LoadedFrom base) segs segs' := by
  induction segs generalizing segs' s with
  | nil =>
      cases h
      exact .nil
  | cons seg segs ih =>
      simp only [ElfSegment.loadAll, Exec.bind_ok_iff] at h
      obtain ⟨seg', s₁, hhead, rest, s₂, htail, hret⟩ := h
      cases hret
      exact .cons (load_from (haddr seg List.mem_cons_self) hhead)
        (ih (fun t ht => haddr t (List.mem_cons_of_mem seg ht)) htail)

theorem loadedFrom_mem (h : List.Forall₂ (LoadedFrom base) segs segs') (hseg : seg' ∈ segs') :
    ∃ seg ∈ segs, LoadedFrom base seg seg' := by
  obtain ⟨i, hi, rfl⟩ := List.mem_iff_getElem.mp hseg
  have hlen := h.length_eq
  exact ⟨segs[i], List.getElem_mem _, h.get (by omega) hi⟩

/-- The pages of the loaded segments are those of the layout, moved to the base. -/
theorem loadedFrom_pages (h : List.Forall₂ (LoadedFrom base) segs segs') :
    (segs'.map fun seg => seg.pagesAt seg.addr.val) =
      (segs.map fun seg => seg.pagesAt seg.addr.val).map (shift base) := by
  induction h with
  | nil => rfl
  | cons hseg _ ih =>
      obtain ⟨needCopy, rfl⟩ := hseg
      rw [List.map_cons, List.map_cons, List.map_cons, ih]
      rfl

theorem pageLen_of_aligned {len : BitVec w} (h : PageAligned len) :
    pageLen len.toNat = len.toNat := by
  unfold PageAligned at h
  unfold pageLen
  omega

variable {tbl : List (ElfShdr w)} {addr : Nat → BitVec w} {cs : List (Fin 4)} {start : Nat}

/-- The pages of a segment of the layout, by address. -/
theorem SegmentSound.covers_iff (h : SegmentSound tbl start seg) {x : BitVec w} :
    (seg.pagesAt seg.addr.val).Covers x ↔
      seg.addr.val.toNat ≤ x.toNat ∧ x.toNat < seg.addr.val.toNat + seg.len.toNat := by
  unfold Pages.Covers ElfSegment.pagesAt
  rw [pageLen_of_aligned h.len]
  exact within_toNat_iff (Nat.le_of_lt h.fits)

theorem LaidInside.pages_apart (h : LaidInside tbl addr cs start segs) :
    (segs.map fun seg => seg.pagesAt seg.addr.val).Pairwise
      fun p q => ∀ x, p.Covers x → ¬ q.Covers x := by
  refine List.pairwise_map.mpr (h.apart.imp_of_mem fun {seg seg'} hseg hseg' hle x hx hx' => ?_)
  have h₁ := ((h.sound seg hseg).covers_iff.mp hx).2
  have h₂ := ((h.sound seg' hseg').covers_iff.mp hx').1
  omega

/-- The final `mprotect` decides over all pages of the object. -/
theorem object_protected [WordSize w] (hM : ProtectsPages M copies protOf)
    (hbase : PageAligned base) (hlaid : LaidInside tbl addr cs start segs)
    (hsegs : List.Forall₂ (LoadedFrom base) segs segs')
    (h : ElfSegment.mprotectAll M segs' s = .ok () s') {seg : ElfSegment w} (hseg : seg ∈ segs)
    {a : BitVec w} (ha : (seg.pagesAt seg.addr.val).Covers (a - base)) :
    protOf s'.os.kernel a = seg.prot := by
  have hcalls := mprotectAll_protected hM (by
    intro seg' hseg'
    obtain ⟨seg, hseg, needCopy, rfl⟩ := loadedFrom_mem hsegs hseg'
    exact ⟨_, rfl, hbase.add (hlaid.sound seg hseg).aligned⟩) h
  rw [List.filter_eq_self.mpr (by
      intro seg' hseg'
      obtain ⟨seg, hseg, needCopy, rfl⟩ := loadedFrom_mem hsegs hseg'
      simp [(hlaid.sound seg hseg).relocatable]), loadedFrom_pages hsegs] at hcalls
  rw [hcalls a, last_shift, last_of_disjoint hlaid.pages_apart (List.mem_map_of_mem hseg) ha]
  rfl

/-- A whole page of a range of pages. -/
theorem covers_of_samePage [WordSize w] {p x y : BitVec w} {n : Nat} (hp : PageAligned p)
    (hn : n % 2 ^ 12 = 0) (hx : Within p n x)
    (hpage : rounddown y (pageSize w) = rounddown x (pageSize w)) : Within p n y := by
  have hsplit : ∀ z : BitVec w, (z - p).toNat =
      (rounddown z (pageSize w) - p).toNat + z.toNat % 2 ^ 12 := by
    intro z
    have haligned := (pageAligned_rounddown z).sub hp
    have hz : z - p = (rounddown z (pageSize w) - p) + (z - rounddown z (pageSize w)) := by grind
    have hword := page_dvd_word w
    have hlt := (rounddown z (pageSize w) - p).isLt
    have hpow := pageSize_lt w
    unfold PageAligned at haligned
    rw [hz, rounddown_page_sub, BitVec.toNat_add, BitVec.toNat_ofNat,
      Nat.mod_eq_of_lt (a := z.toNat % 2 ^ 12) (by omega)]
    exact Nat.mod_eq_of_lt (by omega)
  unfold Within at hx ⊢
  have haligned := (pageAligned_rounddown x).sub hp
  unfold PageAligned at haligned
  rw [hsplit x] at hx
  rw [hsplit y, hpage]
  omega

end Pages

/-! ## Protections and headers -/

/-- `a` is on a page that a section of an image at `base` has a byte on. -/
def ElfShdr.OnPage (shdr : ElfShdr w) (base a : BitVec w) : Prop :=
  ∃ x, Within shdr.shAddr shdr.shSize.toNat x ∧
    rounddown a (pageSize w) = rounddown (base + x) (pageSize w)

/-- The pages of the segments `segs` of an object with the headers `out`, of which the
last two are the GOT and the PLT. -/
structure SectionsProtected (out : List (ElfShdr w)) (count : Nat) (segs : List (ElfSegment w))
    (base : BitVec w) (prot : BitVec w → ProtFlags) : Prop where
  segment : ∀ seg ∈ segs, ∀ a, (seg.pagesAt seg.addr.val).Covers a → prot a = seg.prot
  placed : ∀ shdr ∈ out, ∀ a, shdr.OnPage base a → prot a = sectionProt shdr.shFlags
  /-- A page is writable and executable only where a header asks for both. -/
  both : ∀ seg ∈ segs, ∀ a, (seg.pagesAt seg.addr.val).Covers a →
    (prot a).contains ProtFlags.protWrite → (prot a).contains ProtFlags.protExec →
      ∃ shdr ∈ out, shdr.shFlags &&& BitVec.ofNat w shfWrite ≠ 0 ∧
        shdr.shFlags &&& BitVec.ofNat w shfExecinstr ≠ 0
  got : ∀ shdr, out[count]? = some shdr → ∀ a, shdr.OnPage base a →
    ¬ (prot a).contains ProtFlags.protExec
  plt : ∀ shdr, out[count + 1]? = some shdr → ∀ a, shdr.OnPage base a →
    ¬ (prot a).contains ProtFlags.protWrite

theorem protOfBits_contains : ∀ write exec : Bool,
    (protOfBits write exec).contains ProtFlags.protWrite = write ∧
      (protOfBits write exec).contains ProtFlags.protExec = exec := by
  decide

theorem sectionProt_write (f : BitVec w) :
    (sectionProt f).contains ProtFlags.protWrite = true ↔ f &&& BitVec.ofNat w shfWrite ≠ 0 := by
  rw [sectionProt_eq, (protOfBits_contains _ _).1, decide_eq_true_iff]

theorem sectionProt_exec (f : BitVec w) :
    (sectionProt f).contains ProtFlags.protExec = true ↔
      f &&& BitVec.ofNat w shfExecinstr ≠ 0 := by
  rw [sectionProt_eq, (protOfBits_contains _ _).2, decide_eq_true_iff]

section Object

variable [WordSize w] {M : Mmap w K} {R : ElfReader w O} {copies : Option Int → Bool}
  {protOf : K → BitVec w → ProtFlags} {S : StaticReloc} {shdrs out : List (ElfShdr w)}
  {ss : SectionSegments w} {gotCnt pltCnt : Nat} {o o' o₁ : O} {space : ElfSegments w}
  {segs : List (ElfSegment w)} {s s₁ s₂ s₃ : LoadState w K O}

theorem createGotShdr_prot (gotCnt : Nat) :
    (sectionProt (PltGotSection.createGotShdr gotCnt : ElfShdr w).shFlags).contains
      ProtFlags.protExec = false := by
  rw [Bool.eq_false_iff, ne_eq, sectionProt_exec, not_not]
  change BitVec.ofNat w 3 &&& BitVec.ofNat w 4 = 0
  rcases WordSize.eq_32_or_64 (w := w) with rfl | rfl
  · decide
  · decide

theorem createPltShdr_prot (pltCnt : Nat) :
    (sectionProt (PltGotSection.createPltShdr pltCnt : ElfShdr w).shFlags).contains
      ProtFlags.protWrite = false := by
  rw [Bool.eq_false_iff, ne_eq, sectionProt_write, not_not]
  change BitVec.ofNat w 6 &&& BitVec.ofNat w 1 = 0
  rcases WordSize.eq_32_or_64 (w := w) with rfl | rfl
  · decide
  · decide

/-- The final `mprotect` of an object gives every page the protection of the sections
on it. The relocations in between may do anything. -/
theorem SectionSegments.protected_of_rises (hM : ProtectsPages M copies protOf)
    (hcount : PltGotSection.countNeededEntries S R shdrs o = .ok (gotCnt, pltCnt) o₁)
    (hrise : LayoutRises (table shdrs gotCnt pltCnt) 0 (List.finRange 4))
    (hnew : SectionSegments.new S R shdrs o = .ok (ss, out) o')
    (hload : ss.loadSegments M R s = .ok (space, segs) s₁)
    (hprotect : ElfSegment.mprotectAll M segs s₂ = .ok () s₃) :
    SectionsProtected out shdrs.length segs space.base (protOf s₃.os.kernel) := by
  rw [SectionSegments.new, Exec.bind_of_ok hcount] at hnew
  cases hnew
  obtain ⟨addr, hshdrs, hlaid⟩ := layout_inside _ hrise
  dsimp only
  rw [hshdrs]
  -- the segments at the base
  obtain ⟨space₁, t, hspace, hload⟩ := Exec.bind_ok_iff.mp hload
  obtain ⟨created, t₁, hcreated, hload⟩ := Exec.bind_ok_iff.mp hload
  cases hcreated
  obtain ⟨loaded, t₂, hall, hret⟩ := Exec.bind_ok_iff.mp hload
  cases hret
  obtain ⟨_, _, hrec, hspace⟩ := Exec.bind_ok_iff.mp hspace
  cases hrec
  obtain ⟨p, t₃, hos, hret⟩ := Exec.bind_ok_iff.mp hspace
  cases hret
  obtain ⟨os, hreserve, rfl⟩ := Load.onOs_ok_iff.mp hos
  generalize hbase_eq : ElfSegments.base (ElfSegments.mk p 0 _) = base at hall ⊢
  have hbase : PageAligned base := by
    rw [← hbase_eq]
    exact (hM.reserve hreserve).sub (by simp [PageAligned])
  have hfrom := loadAll_from (fun seg hseg => (hlaid.sound seg hseg).relative) hall
  have hown : ∀ seg ∈ (layout (table shdrs gotCnt pltCnt)).segments, ∀ a,
      (seg.pagesAt seg.addr.val).Covers (a - base) → protOf s₃.os.kernel a = seg.prot :=
    fun seg hseg a ha => object_protected hM hbase hlaid hfrom hprotect hseg ha
  have hback : ∀ seg' ∈ segs, ∃ seg ∈ (layout (table shdrs gotCnt pltCnt)).segments,
      seg'.prot = seg.prot ∧ ∀ a, (seg'.pagesAt seg'.addr.val).Covers a →
        (seg.pagesAt seg.addr.val).Covers (a - base) := by
    intro seg' hseg'
    obtain ⟨seg, hseg, needCopy, rfl⟩ := loadedFrom_mem hfrom hseg'
    refine ⟨seg, hseg, rfl, fun a ha => ?_⟩
    exact shift_covers.mp ha
  have hplaced : ∀ k, k < (table shdrs gotCnt pltCnt).length → ∀ a,
      ({ shdrAt (table shdrs gotCnt pltCnt) k with shAddr := addr k } : ElfShdr w).OnPage base a →
        protOf s₃.os.kernel a =
          sectionProt (shdrAt (table shdrs gotCnt pltCnt) k).shFlags := by
    rintro k hk a ⟨x, hx, hpage⟩
    have hne : sizeAt (table shdrs gotCnt pltCnt) k ≠ 0 := by
      intro hzero
      unfold Within at hx
      unfold sizeAt at hzero
      dsimp only at hx
      omega
    obtain ⟨seg, hseg, hprot, hlo, hhi⟩ := hlaid.held _ (List.mem_finRange _) k (mem_members hk) hne
    have hsound := hlaid.sound seg hseg
    have hfits := hsound.fits
    rw [← hprot]
    apply hown seg hseg a
    have hx' : (seg.pagesAt seg.addr.val).Covers x := by
      rw [hsound.covers_iff]
      unfold sizeAt at hhi
      have hin := (within_toNat_iff (by dsimp only; omega)).mp hx
      dsimp only at hin
      omega
    rw [← shift_covers]
    have hxb : ((seg.pagesAt seg.addr.val).shift base).Covers (base + x) := by
      rw [shift_covers]
      have hcancel : base + x - base = x := by grind
      rwa [hcancel]
    have hlen : (seg.pagesAt seg.addr.val).len % 2 ^ 12 = 0 := by
      have haligned := hsound.len
      unfold PageAligned at haligned
      change pageLen seg.len.toNat % 2 ^ 12 = 0
      rw [pageLen_of_aligned hsound.len]
      exact haligned
    exact covers_of_samePage (hbase.add hsound.aligned) hlen hxb hpage
  have hat : ∀ shdr k, (withAddrs (table shdrs gotCnt pltCnt) addr)[k]? = some shdr →
      k < (table shdrs gotCnt pltCnt).length ∧
        shdr = { shdrAt (table shdrs gotCnt pltCnt) k with shAddr := addr k } := by
    intro shdr k hk
    rw [withAddrs_getElem?] at hk
    obtain ⟨shdr', hget, rfl⟩ := Option.map_eq_some_iff.mp hk
    exact ⟨(List.getElem?_eq_some_iff.mp hget).1, by rw [shdrAt, hget]; rfl⟩
  refine ⟨?_, ?_, ?_, ?_, ?_⟩
  · intro seg' hseg' a ha
    obtain ⟨seg, hseg, hprot, hcovers⟩ := hback seg' hseg'
    rw [hprot]
    exact hown seg hseg a (hcovers a ha)
  · intro shdr hshdr a ha
    obtain ⟨k, hk, rfl⟩ := mem_withAddrs hshdr
    exact hplaced k hk a ha
  · intro seg' hseg' a ha hwrite hexec
    obtain ⟨seg, hseg, hprot, hcovers⟩ := hback seg' hseg'
    obtain ⟨i, hi, hflags⟩ := (hlaid.sound seg hseg).prot
    rw [hown seg hseg a (hcovers a ha), hflags] at hwrite hexec
    refine ⟨{ shdrAt (table shdrs gotCnt pltCnt) i with shAddr := addr i }, ?_,
      (sectionProt_write _).mp hwrite, (sectionProt_exec _).mp hexec⟩
    apply List.mem_of_getElem? (i := i)
    rw [withAddrs_getElem?, getElem?_eq_shdrAt hi]
    rfl
  · intro shdr hshdr a ha
    obtain ⟨hk, rfl⟩ := hat shdr _ hshdr
    have hgot : shdrAt (table shdrs gotCnt pltCnt) shdrs.length =
        PltGotSection.createGotShdr gotCnt := by simp [shdrAt, table]
    rw [hplaced _ hk a ha, hgot, createGotShdr_prot]
    simp
  · intro shdr hshdr a ha
    obtain ⟨hk, rfl⟩ := hat shdr _ hshdr
    have hplt : shdrAt (table shdrs gotCnt pltCnt) (shdrs.length + 1) =
        PltGotSection.createPltShdr pltCnt := by simp [shdrAt, table]
    rw [hplaced _ hk a ha, hplt, createPltShdr_prot]
    simp

/-- Final protections match the headers: of an image exactly when it is copied or no
anonymous tail of a later header brings a foreign protection, of an object when its
layout stays below the top of the address space. -/
theorem page_protections (hM : ProtectsPages M copies protOf) (hR : KeepsFd R) :
    (∀ (ps : ProgramSegments w) (space : ElfSegments w) (segs : List (ElfSegment w))
        (s s₁ s₂ : LoadState w K O), PagesApart ps.loads →
      ps.loadSegments M R s = .ok (space, segs) s₁ →
      ElfSegment.mprotectAll M segs s₁ = .ok () s₂ →
        (HeadersProtected ps.loads space.base (protOf s₂.os.kernel) ↔
          copies (R.asFd s.object) = true ∨ TailsAgree ps.loads)) ∧
      ∀ (S : StaticReloc) (shdrs out : List (ElfShdr w)) (ss : SectionSegments w)
        (gotCnt pltCnt : Nat) (o o₁ o' : O) (space : ElfSegments w) (segs : List (ElfSegment w))
        (s s₁ s₂ s₃ : LoadState w K O),
      PltGotSection.countNeededEntries S R shdrs o = .ok (gotCnt, pltCnt) o₁ →
      LayoutRises (SectionSegments.table shdrs gotCnt pltCnt) 0 (List.finRange 4) →
      SectionSegments.new S R shdrs o = .ok (ss, out) o' →
      ss.loadSegments M R s = .ok (space, segs) s₁ →
      ElfSegment.mprotectAll M segs s₂ = .ok () s₃ →
        SectionsProtected out shdrs.length segs space.base (protOf s₃.os.kernel) :=
  ⟨fun _ _ _ _ _ _ hapart hload hprotect =>
      ProgramSegments.protected_iff hM hR hapart hload hprotect,
    fun _ _ _ _ _ _ _ _ _ _ _ _ _ _ _ hcount hrise hnew hload hprotect =>
      SectionSegments.protected_of_rises hM hcount hrise hnew hload hprotect⟩

end Object

theorem callShdrs_rises :
    LayoutRises (SectionSegments.table callShdrs 2 1) 0 (List.finRange 4) :=
  ⟨⟨by decide, by decide, by decide, by decide, by decide⟩,
    ⟨by decide, by decide, by decide, by decide, by decide⟩,
    ⟨by decide, by decide, by decide, by decide, by decide⟩,
    ⟨by decide, by decide, by decide, by decide, by decide⟩, trivial⟩

theorem twoHeaders_loadable : ∀ ph ∈ twoHeaders.loads, ph.Loadable callFile := by
  have hcases : ∀ ph ∈ twoHeaders.loads, ph.pFilesz.toNat ≤ ph.pMemsz.toNat ∧
      ph.pVaddr.toNat + ph.pMemsz.toNat < 2 ^ 64 ∧
      ph.pOffset.toNat % 2 ^ 12 = ph.pVaddr.toNat % 2 ^ 12 ∧
      ph.pOffset.toNat + ph.pFilesz.toNat ≤ callFile.length := by decide
  intro ph hph
  obtain ⟨hfilesz, hwrap, hcongruent, hpresent⟩ := hcases ph hph
  exact ⟨hfilesz, hwrap, hcongruent, hpresent⟩

/-- Nothing is mapped yet. -/
def sampleState : LoadState 64 (BitVec 64 → ProtFlags) Unit :=
  ⟨⟨fun _ => 0, fun _ => ProtFlags.protNone⟩, (), []⟩

/-- Two headers mapped from a file, and an object with a GOT and a PLT. -/
theorem sample_images_protected :
    (∃ space segs s₁ s₂,
      twoHeaders.loadSegments (protMmap callFile 0x10000) (bytesReader callFile (some 3))
        sampleState = .ok (space, segs) s₁ ∧
      ElfSegment.mprotectAll (protMmap callFile 0x10000) segs s₁ = .ok () s₂ ∧
      HeadersProtected twoHeaders.loads space.base s₂.os.kernel) ∧
    ∃ space segs s₁ s₂,
      callSegments.loadSegments (protMmap callFile 0x10000) (bytesReader callFile (some 3))
        sampleState = .ok (space, segs) s₁ ∧
      ElfSegment.mprotectAll (protMmap callFile 0x10000) segs s₁ = .ok () s₂ ∧
      SectionsProtected callOut callShdrs.length segs space.base s₂.os.kernel := by
  obtain ⟨himage, hobject⟩ := page_protections (protMmap_protects callFile (0x10000 : BitVec 64))
    (bytesReader_keepsFd callFile (some 3))
  constructor
  · have hrun : Exec.returned ((twoHeaders.loadSegments (protMmap callFile 0x10000)
        (bytesReader callFile (some 3)) >>= fun loaded => do
          ElfSegment.mprotectAll (protMmap callFile 0x10000) loaded.2) sampleState) = true := by
      decide +kernel
    obtain ⟨_, s₂, hrun⟩ := Exec.exists_of_returned hrun
    obtain ⟨⟨space, segs⟩, s₁, hload, hprotect⟩ := Exec.bind_ok_iff.mp hrun
    refine ⟨space, segs, s₁, s₂, hload, hprotect, ?_⟩
    have hapart : PagesApart twoHeaders.loads := pagesApart_pair (by decide)
    apply (himage twoHeaders space segs _ s₁ s₂ hapart hload hprotect).mpr
    exact .inr (tailsAgree_of_loadable hapart twoHeaders_loadable (by decide))
  · have hrun : Exec.returned ((callSegments.loadSegments (protMmap callFile 0x10000)
        (bytesReader callFile (some 3)) >>= fun loaded => do
          ElfSegment.mprotectAll (protMmap callFile 0x10000) loaded.2) sampleState) = true := by
      decide +kernel
    obtain ⟨_, s₂, hrun⟩ := Exec.exists_of_returned hrun
    obtain ⟨⟨space, segs⟩, s₁, hload, hprotect⟩ := Exec.bind_ok_iff.mp hrun
    exact ⟨space, segs, s₁, s₂, hload, hprotect,
      hobject X86_64Relocator.staticReloc callShdrs callOut callSegments 2 1 () () () space segs _
        s₁ s₁ s₂ rfl callShdrs_rises (call_new (some 3)) hload hprotect⟩

end ElfLoader
