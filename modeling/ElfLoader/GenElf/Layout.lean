import ElfLoader.GenElf.Sizes

/-! # The layout of a generated file

The cursor leaves the sections one behind the other, aligned, and the first section
of every group on a page. The segments follow from the first and the last section of
each group.
-/

namespace ElfLoader.GenElf

open Placement

/-! ## One step of the cursor -/

theorem alignUp_eq_some {v a x : Nat} (h : alignUp v a = some x) : a ≠ 0 ∧ x = up v a := by
  unfold alignUp at h
  simp only [Option.bind_eq_bind, Option.bind_eq_some_iff] at h
  obtain ⟨sum, hsum, h⟩ := h
  obtain ⟨-, rfl⟩ := addU64_eq_some_iff.mp hsum
  split at h
  · cases h
  · rename_i ha
    cases h
    exact ⟨ha, (up_eq_div v ha).symm⟩

namespace ElfLayout

variable {layout layout' : ElfLayout}

theorem alignToPage_eq_some (h : layout.alignToPage = some layout') :
    layout.pageSize ≠ 0 ∧ layout' = { layout with fileOff := up layout.fileOff layout.pageSize } := by
  unfold alignToPage at h
  simp only [Option.bind_eq_bind, Option.bind_eq_some_iff, Option.pure_def,
    Option.some.injEq] at h
  obtain ⟨fileOff, hup, rfl⟩ := h
  obtain ⟨hpage, rfl⟩ := alignUp_eq_some hup
  exact ⟨hpage, rfl⟩

theorem addSection_eq_some {size align offset vaddr : Nat}
    (h : layout.addSection size align = some (offset, vaddr, layout')) :
    align ≠ 0 ∧ offset = up layout.fileOff align ∧ vaddr = layout.baseAddr + offset ∧
      layout' = { layout with fileOff := offset + size } := by
  unfold addSection at h
  simp only [Option.bind_eq_bind, Option.bind_eq_some_iff, Option.pure_def, Option.some.injEq,
    Prod.mk.injEq] at h
  obtain ⟨o, hup, v, hvaddr, f, hfile, rfl, rfl, rfl⟩ := h
  obtain ⟨halign, rfl⟩ := alignUp_eq_some hup
  obtain ⟨-, rfl⟩ := addU64_eq_some_iff.mp hvaddr
  obtain ⟨-, rfl⟩ := addU64_eq_some_iff.mp hfile
  exact ⟨halign, rfl, rfl, rfl⟩

/-- Entering a group moves the cursor to a page, anything else leaves it. -/
theorem enterGroup_eq_some {group last : Option Nat}
    (h : layout.enterGroup group last = some layout') :
    layout'.baseAddr = layout.baseAddr ∧ layout'.pageSize = layout.pageSize ∧
      layout.fileOff ≤ layout'.fileOff ∧
      (group ≠ last → group.isSome → layout.pageSize ∣ layout'.fileOff) := by
  unfold enterGroup at h
  split at h
  · obtain ⟨hpage, rfl⟩ := alignToPage_eq_some h
    exact ⟨rfl, rfl, le_up _ _, fun _ _ => dvd_up _ hpage⟩
  · rename_i hsame
    cases h
    exact ⟨rfl, rfl, Nat.le_refl _, fun hne hsome => absurd ⟨hne, hsome⟩ hsame⟩

end ElfLayout

/-! ## All sections -/

def Section.group (sec : Section) : Option Nat := sec.header.shtype.group

def Section.offset (sec : Section) : Nat := sec.header.offset

def Section.size (sec : Section) : Nat := sec.header.size

/-- Where a group differs from the one before it, it starts on a page. -/
def OnPages (pageSize : Nat) (last : Option Nat) : List Section → Prop
  | [] => True
  | sec :: secs =>
      (sec.group ≠ last → sec.group.isSome → pageSize ∣ sec.offset) ∧
        OnPages pageSize sec.group secs

theorem OnPages.first {pageSize g : Nat} {last : Option Nat} {secs : List Section} {first : Section}
    (h : OnPages pageSize last secs) (hlast : last ≠ some g)
    (hfirst : (secs.filter fun sec => sec.group = some g).head? = some first) :
    pageSize ∣ first.offset := by
  induction secs generalizing last with
  | nil => cases hfirst
  | cons sec secs ih =>
      by_cases hgroup : sec.group = some g
      · rw [List.filter_cons_of_pos (by simpa using hgroup)] at hfirst
        cases hfirst
        exact h.1 (by rw [hgroup]; exact hlast.symm) (by rw [hgroup]; rfl)
      · rw [List.filter_cons_of_neg (by simpa using hgroup)] at hfirst
        exact ih h.2 hgroup hfirst

/-- What the cursor does to the sections. -/
structure Assigned (layout layout' : ElfLayout) (last : Option Nat) (secs : List Section) :
    Prop where
  ascending : Ascending Section.offset Section.size layout.fileOff layout'.fileOff secs
  aligned : ∀ sec ∈ secs, sec.header.addralign ≠ 0 ∧ sec.header.addralign ∣ sec.offset
  addr : ∀ sec ∈ secs, sec.header.addr =
    if sec.header.shtype.isAlloc then layout.baseAddr + sec.offset else 0
  onPages : (∀ sec ∈ secs, sec.header.addralign ∣ layout.pageSize) →
    OnPages layout.pageSize last secs

theorem assigned {layout layout' : ElfLayout} {last : Option Nat} {secs secs' : List Section}
    (h : assign layout last secs = some (secs', layout')) : Assigned layout layout' last secs' := by
  induction secs generalizing layout last secs' with
  | nil =>
      cases h
      exact ⟨Nat.le_refl _, fun _ hs => absurd hs List.not_mem_nil,
        fun _ hs => absurd hs List.not_mem_nil, fun _ => trivial⟩
  | cons sec secs ih =>
      obtain ⟨entered, offset, vaddr, after, rest, henter, hadd, hrest, rfl⟩ := assign_cons h
      obtain ⟨hbase, hpageSize, hle, hpage⟩ := ElfLayout.enterGroup_eq_some henter
      obtain ⟨halign, hoffset, rfl, rfl⟩ := ElfLayout.addSection_eq_some hadd
      have hup := le_up entered.fileOff sec.header.addralign
      have hih := ih hrest
      refine ⟨⟨?_, hih.ascending⟩, fun s hs => ?_, fun s hs => ?_, fun hdvd => ⟨?_, ?_⟩⟩
      · change layout.fileOff ≤ offset
        omega
      · rcases List.mem_cons.mp hs with rfl | hmem
        · refine ⟨halign, ?_⟩
          change sec.header.addralign ∣ offset
          rw [hoffset]
          exact dvd_up _ halign
        · exact hih.aligned s hmem
      · rcases List.mem_cons.mp hs with rfl | hmem
        · rw [← hbase]
          rfl
        · rw [← hbase]
          exact hih.addr s hmem
      · intro hne hsome
        have hdvdFile := hpage hne hsome
        have hdvdAlign : sec.header.addralign ∣ layout.pageSize :=
          hdvd (sec.placed offset (entered.baseAddr + offset)) List.mem_cons_self
        change layout.pageSize ∣ offset
        rw [hoffset, up_of_dvd fun _ => Nat.dvd_trans hdvdAlign hdvdFile]
        exact hdvdFile
      · rw [← hpageSize]
        apply hih.onPages
        intro s hs
        change s.header.addralign ∣ entered.pageSize
        rw [hpageSize]
        exact hdvd s (List.mem_cons_of_mem _ hs)

/-- The sections after the layout: sorted by groups, one behind the other. -/
structure LaidOut (layout layout' : ElfLayout) (secs : List Section) : Prop
    extends Assigned layout layout' none secs where
  sorted : secs.Pairwise fun a b => sortKey a ≤ sortKey b

theorem laidOut {manager manager' : ShdrManager} {layout layout' : ElfLayout}
    (h : manager.layout layout = some (manager', layout')) :
    LaidOut layout layout' manager'.shdrs := by
  have hassign := (layout_spec h).1
  refine ⟨assigned hassign, ?_⟩
  have hcore := assign_core hassign
  -- the key is a function of what placing leaves alone
  have hkeys : manager'.shdrs.map sortKey =
      (manager.shdrs.insertionSort fun a b => sortKey a ≤ sortKey b).map sortKey := by
    have hmap := congrArg (List.map fun c : SectionKind × Nat × Nat × SectionId =>
      c.1.group.getD 3) hcore
    rw [List.map_map, List.map_map] at hmap
    exact hmap
  have hsorted := List.pairwise_insertionSort (fun a b : Section => sortKey a ≤ sortKey b)
    manager.shdrs
  rw [← List.pairwise_map (R := (· ≤ ·)), hkeys, List.pairwise_map]
  exact hsorted

section Groups

variable {layout layout' : ElfLayout} {secs : List Section}

theorem sortKey_of_group {sec : Section} {g : Nat} (h : sec.group = some g) : sortKey sec = g := by
  unfold sortKey
  rw [show sec.header.shtype.group = some g from h]
  rfl

/-- A section of an earlier group ends before one of a later group starts. -/
theorem LaidOut.before (h : LaidOut layout layout' secs) {a b : Section} (ha : a ∈ secs)
    (hb : b ∈ secs) {g g' : Nat} (hga : a.group = some g) (hgb : b.group = some g')
    (hlt : g < g') : a.offset + a.size ≤ b.offset := by
  have hne : a ≠ b := by
    rintro rfl
    rw [hga] at hgb
    cases hgb
    exact Nat.lt_irrefl g hlt
  have hboth := h.ascending.pairwise.and h.sorted
  rcases related_of_mem hboth ha hb hne with hab | hba
  · exact hab.1
  · have hle := hba.2
    rw [sortKey_of_group hga, sortKey_of_group hgb] at hle
    omega

/-- The first and the last section of a group enclose it. -/
theorem LaidOut.enclosed (h : LaidOut layout layout' secs) {g : Nat} {first last sec : Section}
    (hfirst : (secs.filter fun sec => sec.group = some g).head? = some first)
    (hlast : (secs.filter fun sec => sec.group = some g).getLast? = some last)
    (hsec : sec ∈ secs) (hgroup : sec.group = some g) :
    first.offset ≤ sec.offset ∧ sec.offset + sec.size ≤ last.offset + last.size := by
  have hmem : sec ∈ secs.filter fun sec => sec.group = some g :=
    List.mem_filter.mpr ⟨hsec, by simpa using hgroup⟩
  have hpair := h.ascending.pairwise.filter fun sec => decide (sec.group = some g)
  constructor
  · obtain ⟨rest, hrest⟩ := List.head?_eq_some_iff.mp hfirst
    rw [hrest] at hmem hpair
    rcases List.mem_cons.mp hmem with rfl | htail
    · exact Nat.le_refl _
    · have hle := (List.pairwise_cons.mp hpair).1 sec htail
      omega
  · obtain ⟨rest, hrest⟩ := List.getLast?_eq_some_iff.mp hlast
    rw [hrest] at hmem hpair
    rcases List.mem_append.mp hmem with hinit | htail
    · have hle := (List.pairwise_append.mp hpair).2.2 sec hinit last (List.mem_singleton.mpr rfl)
      omega
    · rw [List.mem_singleton.mp htail]

end Groups

/-! ## The segments -/

/-- The access a group needs. -/
def groupFlags : Nat → BitVec 32
  | 0 => pfR
  | 1 => pfR ||| pfX
  | _ => pfR ||| pfW

/-- The segment of a group: from a page, with the sections of the group inside. -/
structure Covers (layout : ElfLayout) (secs : List Section) (g : Nat) (p : ProgramHeader) :
    Prop where
  type : p.pType = ptLoad
  flags : p.pFlags = groupFlags g
  vaddr : p.pVaddr = layout.baseAddr + p.pOffset
  page : layout.pageSize ∣ p.pOffset
  filesz : p.pFilesz = p.pMemsz
  inside : ∀ sec ∈ secs, sec.group = some g →
    p.pOffset ≤ sec.offset ∧ sec.offset + sec.size ≤ p.pOffset + p.pMemsz
  starts : g ≠ 0 → ∃ sec ∈ secs, sec.group = some g ∧ p.pOffset = sec.offset
  ends : ∃ sec ∈ secs, sec.group = some g ∧ p.pOffset + p.pMemsz = sec.offset + sec.size

theorem isAlloc_of_group {kind : SectionKind} {g : Nat} (h : kind.group = some g) :
    kind.isAlloc = true := by
  unfold SectionKind.group at h
  split at h
  · assumption
  · cases h

/-- The header of the segment from a first to a last section. -/
theorem loadSegment_eq_some {secs : List Section} {first last : Section} {flags : BitVec 32}
    {fromStart : Bool} {pageSize base : Nat} {ps : List ProgramHeader}
    (hfirst : secs.head? = some first) (hlast : secs.getLast? = some last)
    (haddr : first.header.addr = base + first.offset)
    (h : loadSegment secs flags fromStart pageSize = some ps) :
    ∃ o, o = (if fromStart then 0 else first.offset) ∧ o ≤ last.offset + last.size ∧
      last.offset + last.size < 2 ^ 64 ∧
      ps = [{ pType := ptLoad, pFlags := flags, pOffset := o, pVaddr := base + o
              pFilesz := last.offset + last.size - o, pMemsz := last.offset + last.size - o
              pAlign := pageSize }] := by
  unfold loadSegment at h
  rw [hfirst, hlast] at h
  dsimp only at h
  cases fromStart with
  | false =>
      simp only [Bool.false_eq_true, if_false, Option.bind_eq_bind, Option.bind_eq_some_iff,
        Option.pure_def, Option.some.injEq] at h
      obtain ⟨pVaddr, rfl, fileEnd, hend, pFilesz, hsize, rfl⟩ := h
      obtain ⟨hlt, rfl⟩ := addU64_eq_some_iff.mp hend
      obtain ⟨hle, rfl⟩ := subU64_eq_some_iff.mp hsize
      exact ⟨first.offset, rfl, hle, hlt, by rw [← haddr]; rfl⟩
  | true =>
      simp only [if_true, Option.bind_eq_bind, Option.bind_eq_some_iff, Option.pure_def,
        Option.some.injEq] at h
      obtain ⟨pVaddr, hvaddr, fileEnd, hend, pFilesz, hsize, rfl⟩ := h
      obtain ⟨hlt, rfl⟩ := addU64_eq_some_iff.mp hend
      obtain ⟨-, rfl⟩ := subU64_eq_some_iff.mp hsize
      obtain ⟨-, rfl⟩ := subU64_eq_some_iff.mp hvaddr
      have hbase : first.header.addr - first.header.offset = base + 0 := by
        rw [haddr]
        exact Nat.add_sub_cancel base first.header.offset
      exact ⟨0, rfl, Nat.zero_le _, hlt, by rw [hbase]; rfl⟩

theorem LaidOut.covers {layout layout' : ElfLayout} {secs : List Section} {g : Nat}
    {flags : BitVec 32} {ps : List ProgramHeader} (h : LaidOut layout layout' secs)
    (hflags : flags = groupFlags g) (hdvd : ∀ sec ∈ secs, sec.header.addralign ∣ layout.pageSize)
    (hgroup : ∃ sec ∈ secs, sec.group = some g)
    (hps : loadSegment (secs.filter fun sec => sec.group = some g) flags (g == 0)
      layout.pageSize = some ps) : ∃ p, ps = [p] ∧ Covers layout secs g p := by
  obtain ⟨witness, hwitness, hg⟩ := hgroup
  have hne : (secs.filter fun sec => sec.group = some g) ≠ [] :=
    List.ne_nil_of_mem (List.mem_filter.mpr ⟨hwitness, by simpa using hg⟩)
  obtain ⟨first, hfirst⟩ : ∃ first, (secs.filter fun sec => sec.group = some g).head? = some first :=
    ⟨_, List.head?_eq_some_head hne⟩
  obtain ⟨last, hlast⟩ : ∃ last, (secs.filter fun sec => sec.group = some g).getLast? = some last :=
    ⟨_, List.getLast?_eq_some_getLast hne⟩
  obtain ⟨hfirstMem, hfirstGroup⟩ := List.mem_filter.mp (List.mem_of_head? hfirst)
  obtain ⟨hlastMem, hlastGroup⟩ := List.mem_filter.mp (List.mem_of_getLast? hlast)
  have hfirstGroup := of_decide_eq_true hfirstGroup
  have hlastGroup := of_decide_eq_true hlastGroup
  have haddr : first.header.addr = layout.baseAddr + first.offset := by
    rw [h.addr first hfirstMem, if_pos (isAlloc_of_group hfirstGroup)]
  have hpage : layout.pageSize ∣ first.offset := (h.onPages hdvd).first (by rintro ⟨⟩) hfirst
  obtain ⟨o, ho, hle, -, rfl⟩ := loadSegment_eq_some hfirst hlast haddr hps
  have hoFirst : o ≤ first.offset := by
    rw [ho]
    split
    · exact Nat.zero_le _
    · exact Nat.le_refl _
  have hend : o + (last.offset + last.size - o) = last.offset + last.size :=
    Nat.add_sub_cancel' hle
  refine ⟨_, rfl, rfl, hflags, rfl, ?_, rfl, fun sec hsec hsg => ?_, fun hzero => ?_,
    last, hlastMem, hlastGroup, hend⟩
  · change layout.pageSize ∣ o
    rw [ho]
    split
    · exact Nat.dvd_zero _
    · exact hpage
  · have hin := h.enclosed hfirst hlast hsec hsg
    change o ≤ sec.offset ∧ sec.offset + sec.size ≤ o + (last.offset + last.size - o)
    omega
  · refine ⟨first, hfirstMem, hfirstGroup, ?_⟩
    rw [if_neg (by simpa using hzero)] at ho
    exact ho

section Loads

variable {layout layout' : ElfLayout} {secs : List Section}

/-- The segment of an earlier group ends, rounded up to a page, before the one of a
later group starts. -/
theorem LaidOut.apart (h : LaidOut layout layout' secs) (hbase : layout.pageSize ∣ layout.baseAddr)
    {g g' : Nat} {p q : ProgramHeader} (hp : Covers layout secs g p)
    (hq : Covers layout secs g' q) (hlt : g < g') :
    up (p.pVaddr + p.pMemsz) layout.pageSize ≤ q.pVaddr := by
  obtain ⟨a, ha, hga, hend⟩ := hp.ends
  obtain ⟨b, hb, hgb, hstart⟩ := hq.starts (by omega)
  have hbefore := h.before ha hb hga hgb hlt
  apply up_le
  · rw [hp.vaddr, hq.vaddr]
    omega
  · rw [hq.vaddr]
    exact Nat.dvd_add hbase hq.page

/-- The addresses of the section are those of a part of the segment. -/
def ProgramHeader.Holds (p : ProgramHeader) (sec : Section) : Prop :=
  p.pVaddr ≤ sec.header.addr ∧ sec.header.addr + sec.header.size ≤ p.pVaddr + p.pMemsz

instance (p : ProgramHeader) (sec : Section) : Decidable (p.Holds sec) :=
  inferInstanceAs (Decidable (_ ∧ _))

theorem LaidOut.addr_of_group (h : LaidOut layout layout' secs) {sec : Section} {g : Nat}
    (hsec : sec ∈ secs) (hg : sec.group = some g) :
    sec.header.addr = layout.baseAddr + sec.offset := by
  rw [h.addr sec hsec, if_pos (isAlloc_of_group hg)]

/-- A section with bytes lies in the segment of its group and in no other. -/
theorem LaidOut.holds_iff (h : LaidOut layout layout' secs)
    (hbase : layout.pageSize ∣ layout.baseAddr) {g g' : Nat} {p q : ProgramHeader} {sec : Section}
    (hp : Covers layout secs g p) (hq : Covers layout secs g' q) (hsec : sec ∈ secs)
    (hg : sec.group = some g) (hsize : sec.size ≠ 0) : q.Holds sec ↔ g' = g := by
  have haddr := h.addr_of_group hsec hg
  constructor
  · rintro ⟨hlo, hhi⟩
    have hin := hp.inside sec hsec hg
    have hpaddr := hp.vaddr
    change sec.header.addr + sec.size ≤ q.pVaddr + q.pMemsz at hhi
    rcases Nat.lt_trichotomy g' g with hlt | rfl | hlt
    · have hapart := h.apart hbase hq hp hlt
      have hup := le_up (q.pVaddr + q.pMemsz) layout.pageSize
      omega
    · rfl
    · have hapart := h.apart hbase hp hq hlt
      have hup := le_up (p.pVaddr + p.pMemsz) layout.pageSize
      omega
  · rintro rfl
    have hin := hq.inside sec hsec hg
    have hqaddr := hq.vaddr
    refine ⟨by omega, ?_⟩
    change sec.header.addr + sec.size ≤ q.pVaddr + q.pMemsz
    omega

variable {manager : ShdrManager} {is64 : Bool} {phdrs : List ProgramHeader}

theorem sectionSegment_length (secs : List Section) (q : Section → Bool) (type flags : BitVec 32)
    (align : Nat) : (sectionSegment (secs.find? q) type flags align).length =
      (secs.any q).toNat := by
  induction secs with
  | nil => rfl
  | cons sec secs ih =>
      rw [List.find?_cons, List.any_cons]
      cases q sec with
      | true => rfl
      | false => exact ih

theorem sectionSegment_not_load {sec : Option Section} {type flags : BitVec 32} {align : Nat}
    (h : type ≠ ptLoad) : (sectionSegment sec type flags align).filter
      (fun p => p.pType = ptLoad) = [] := by
  cases sec with
  | none => rfl
  | some sec => exact List.filter_cons_of_neg (by simpa [sectionSegment] using h)

theorem loadSegment_length {secs : List Section} {flags : BitVec 32} {fromStart : Bool}
    {pageSize : Nat} {ps : List ProgramHeader} (hne : secs ≠ [])
    (h : loadSegment secs flags fromStart pageSize = some ps) : ps.length = 1 := by
  unfold loadSegment at h
  rw [List.head?_eq_some_head hne, List.getLast?_eq_some_getLast hne] at h
  dsimp only at h
  cases fromStart with
  | false =>
      simp only [Bool.false_eq_true, if_false, Option.bind_eq_bind, Option.bind_eq_some_iff,
        Option.pure_def, Option.some.injEq] at h
      obtain ⟨pVaddr, -, fileEnd, -, pFilesz, -, rfl⟩ := h
      rfl
  | true =>
      simp only [if_true, Option.bind_eq_bind, Option.bind_eq_some_iff, Option.pure_def,
        Option.some.injEq] at h
      obtain ⟨pVaddr, -, fileEnd, -, pFilesz, -, rfl⟩ := h
      rfl

/-- The headers are as many as have been counted before the layout. -/
theorem phdrs_length
    (hr : manager.rSecs = some (manager.shdrs.filter fun sec => sec.group = some 0))
    (hrx : manager.rxSecs = some (manager.shdrs.filter fun sec => sec.group = some 1))
    (hrw : manager.rwSecs = some (manager.shdrs.filter fun sec => sec.group = some 2))
    (hgroups : ∀ g < 3, ∃ sec ∈ manager.shdrs, sec.group = some g) {pageSize : Nat}
    (hphdrs : manager.phdrs is64 pageSize = some phdrs) : phdrs.length = manager.getPhnum := by
  have hne : ∀ g < 3, (manager.shdrs.filter fun sec => sec.group = some g) ≠ [] := by
    intro g hg
    obtain ⟨sec, hsec, hgroup⟩ := hgroups g hg
    exact List.ne_nil_of_mem (List.mem_filter.mpr ⟨hsec, decide_eq_true hgroup⟩)
  have hhas : ∀ g < 3, manager.shdrs.any (fun sec => sec.header.shtype.group = some g) = true := by
    intro g hg
    obtain ⟨sec, hsec, hgroup⟩ := hgroups g hg
    exact List.any_eq_true.mpr ⟨sec, hsec, decide_eq_true hgroup⟩
  unfold ShdrManager.phdrs at hphdrs
  rw [hr, hrx, hrw] at hphdrs
  simp only [Option.bind_eq_bind, Option.bind_some, Option.bind_eq_some_iff, Option.pure_def,
    Option.some.injEq] at hphdrs
  obtain ⟨rs, hrs, rxs, hrxs, rws, hrws, rfl⟩ := hphdrs
  have hlr := loadSegment_length (hne 0 (by omega)) hrs
  have hlrx := loadSegment_length (hne 1 (by omega)) hrxs
  have hlrw := loadSegment_length (hne 2 (by omega)) hrws
  unfold ShdrManager.getPhnum ShdrManager.find
  simp only [List.length_cons, List.length_append, sectionSegment_length, hlr, hlrx, hlrw,
    hhas 0 (by omega), hhas 1 (by omega), hhas 2 (by omega), Bool.toNat_true]
  omega

/-- One segment is loaded for each group. -/
theorem LaidOut.loads (h : LaidOut layout layout' manager.shdrs)
    (hr : manager.rSecs = some (manager.shdrs.filter fun sec => sec.group = some 0))
    (hrx : manager.rxSecs = some (manager.shdrs.filter fun sec => sec.group = some 1))
    (hrw : manager.rwSecs = some (manager.shdrs.filter fun sec => sec.group = some 2))
    (hdvd : ∀ sec ∈ manager.shdrs, sec.header.addralign ∣ layout.pageSize)
    (hgroups : ∀ g < 3, ∃ sec ∈ manager.shdrs, sec.group = some g)
    (hphdrs : manager.phdrs is64 layout.pageSize = some phdrs) :
    ∃ r rx rw, phdrs.filter (fun p => p.pType = ptLoad) = [r, rx, rw] ∧
      Covers layout manager.shdrs 0 r ∧ Covers layout manager.shdrs 1 rx ∧
      Covers layout manager.shdrs 2 rw := by
  unfold ShdrManager.phdrs at hphdrs
  rw [hr, hrx, hrw] at hphdrs
  simp only [Option.bind_eq_bind, Option.bind_some, Option.bind_eq_some_iff, Option.pure_def,
    Option.some.injEq] at hphdrs
  obtain ⟨rs, hrs, rxs, hrxs, rws, hrws, rfl⟩ := hphdrs
  obtain ⟨r, rfl, hcr⟩ := h.covers rfl hdvd (hgroups 0 (by omega)) hrs
  obtain ⟨rx, rfl, hcrx⟩ := h.covers rfl hdvd (hgroups 1 (by omega)) hrxs
  obtain ⟨rw, rfl, hcrw⟩ := h.covers rfl hdvd (hgroups 2 (by omega)) hrws
  refine ⟨r, rx, rw, ?_, hcr, hcrx, hcrw⟩
  have hphdr : ¬ ptPhdr = ptLoad := by decide
  rw [List.filter_cons_of_neg (by simpa using hphdr), List.filter_append, List.filter_append,
    sectionSegment_not_load (by decide), sectionSegment_not_load (by decide)]
  simp [hcr.type, hcrx.type, hcrw.type]

end Loads

end ElfLoader.GenElf
