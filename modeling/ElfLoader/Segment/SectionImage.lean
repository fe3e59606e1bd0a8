import ElfLoader.Library.Search
import ElfLoader.Segment.SectionLayout

/-! # The image of object sections

Memory is looked at from the base of the image, so every range is a range of
numbers below the size of the layout. A unit with several content sections is
copied section by section; a unit with one is mapped or copied as one piece.
-/

namespace ElfLoader

open ByteMemory Placement

variable {w : Nat} {K O : Type}

/-- A mapping without a descriptor asks for a copy. -/
structure CopiesWithoutFile (M : Mmap w K) : Prop where
  copy : ∀ {addr len prot flags offset s p needCopy s'},
    M.mmap (some addr) len prot flags offset none s = .ok (p, needCopy) s' → needCopy = true

/-! ## Loading one segment -/

section Load

variable {M : Mmap w K} {R : ElfReader w O} {file : List UInt8}

/-- Without a single map entry nothing is mapped from the file. -/
theorem mmapSegment_of_many {seg : ElfSegment w} (hinfo : seg.mapInfo.length ≠ 1) :
    (seg.mmapSegment M R : Load w K O (ElfSegment w)) = do
      let addr ← Exec.lift seg.addr.absoluteAddr
      Load.record (.map addr seg.len 0)
      let mapped ← Load.onOs (M.mmap (some addr) seg.len seg.mapProt seg.flags 0 none)
      return { seg with needCopy := mapped.2 } := by
  unfold ElfSegment.mmapSegment
  cases hlist : seg.mapInfo with
  | nil => rfl
  | cons info rest =>
      cases rest with
      | nil =>
          rw [hlist] at hinfo
          exact absurd rfl hinfo
      | cons info' rest => rfl

theorem mmapSegment_ok_of_many {seg seg' : ElfSegment w} {A : BitVec w} {s s' : LoadState w K O}
    (haddr : seg.addr = .absolute A) (hinfo : seg.mapInfo.length ≠ 1)
    (h : seg.mmapSegment M R s = .ok seg' s') :
    ∃ p needCopy, M.mmap (some A) seg.len seg.mapProt seg.flags 0 none s.os =
        .ok (p, needCopy) s'.os ∧
      s'.object = s.object ∧ seg' = { seg with needCopy } := by
  rw [mmapSegment_of_many hinfo] at h
  simp only [haddr, Address.absoluteAddr, Exec.bind_ok_iff, Exec.lift_ok_iff,
    Load.onOs_ok_iff] at h
  obtain ⟨_, _, ⟨hA, rfl⟩, _, _, hrec, ⟨p, needCopy⟩, _, ⟨os, hmap, rfl⟩, hret⟩ := h
  cases hA
  cases hrec
  cases hret
  exact ⟨p, needCopy, hmap, rfl, by rw [haddr]⟩

/-- The stages of the loop body for a segment at `start`. -/
theorem load_stages {seg seg' : ElfSegment w} {base start : BitVec w} {s s' : LoadState w K O}
    (haddr : seg.addr = .relative start) (h : seg.load M R base s = .ok seg' s') :
    ∃ seg₁ s₁ s₂,
      ElfSegment.mmapSegment M R { seg with addr := .absolute (base + start) } s = .ok seg₁ s₁ ∧
      seg₁.copyData R s₁ = .ok () s₂ ∧ seg₁.fillZero M s₂ = .ok () s' := by
  simp only [ElfSegment.load, Exec.bind_ok_iff, Exec.lift_ok_iff] at h
  obtain ⟨seg₀, _, ⟨hrebase, rfl⟩, seg₁, s₁, hmap, _, s₂, hcopy, _, s₃, hzero, hret⟩ := h
  rw [ElfSegment.rebase, haddr] at hrebase
  cases hrebase
  cases hret
  exact ⟨_, s₁, s₂, hmap, hcopy, hzero⟩

/-- One section is read to its place. -/
theorem copyInfo_ok (hR : ReadsFile R file) {ptr : BitVec w} {info : FileMapInfo w}
    {s s' : LoadState w K O} (h : ElfSegment.copyInfo R ptr info s = .ok () s') :
    ∃ bytes : List UInt8, bytes.length = info.filesz.toNat ∧
      (∀ k, k < info.filesz.toNat → file[info.offset.toNat + k]? = bytes[k]?) ∧
      s'.os.mem = write s.os.mem (ptr + info.start) bytes := by
  simp only [ElfSegment.copyInfo, Exec.bind_ok_iff, Load.onObject_ok_iff] at h
  obtain ⟨_, _, hrec, bytes, _, ⟨o, hread, rfl⟩, hwrite⟩ := h
  cases hrec
  cases hwrite
  obtain ⟨hbytes, hlen⟩ := hR.read hread
  refine ⟨bytes, hlen, fun k hk => ?_, rfl⟩
  rw [hbytes, List.getElem?_take_of_lt hk, List.getElem?_drop]

end Load

/-! ## The content of a unit -/

section Content

variable {M : Mmap w K} {R : ElfReader w O} {file : List UInt8} {tbl : List (ElfShdr w)}
  {addr : Nat → BitVec w} {base start : BitVec w}

/-- Sections are read to their places one by one. -/
theorem copyInfos_ok (hR : ReadsFile R file) {js : List Nat} {lo hi : Nat} (hnodup : js.Nodup)
    (hplaced : Placed (sizeAt tbl) (alignAt tbl) (fun i => (addr i).toNat) js lo hi)
    (hsize : ∀ j ∈ js, sizeAt tbl j ≠ 0) (hhi : hi ≤ 2 ^ w) {s s' : LoadState w K O}
    (h : (js.map (infoAt tbl start addr)).forM (ElfSegment.copyInfo R (base + start)) s =
      .ok () s') :
    (∀ x, x < 2 ^ w →
        (∀ j ∈ js, x ∉ Placement.range (sizeAt tbl) (fun i => (addr i).toNat) j) →
        view s'.os.mem base x = view s.os.mem base x) ∧
      ∀ j ∈ js, ∀ k, k < sizeAt tbl j → file[(shdrAt tbl j).shOffset.toNat + k]? =
        some (view s'.os.mem base ((addr j).toNat + k)) := by
  induction js generalizing s with
  | nil =>
      cases h
      exact ⟨fun _ _ _ => rfl, fun _ hj => absurd hj List.not_mem_nil⟩
  | cons j js ih =>
      obtain ⟨hj, hnodup'⟩ := List.nodup_cons.mp hnodup
      obtain ⟨hjsize, hsize'⟩ := List.forall_mem_cons.mp hsize
      have hrest := hplaced.subset fun i hi => List.mem_cons_of_mem j hi
      have hin := hplaced.inside j List.mem_cons_self hjsize
      rw [List.map_cons] at h
      obtain ⟨s₁, hbody, hloop⟩ := Exec.forM_cons_ok_iff.mp h
      obtain ⟨hframe, hcontent⟩ := ih hnodup' hrest hsize' hloop
      obtain ⟨bytes, hlength, hbytes, hmem⟩ := copyInfo_ok hR hbody
      have hto : base + start + (infoAt tbl start addr j).start =
          base + BitVec.ofNat w (addr j).toNat := by
        rw [BitVec.ofNat_toNat, BitVec.setWidth_eq]
        change base + start + (addr j - start) = base + addr j
        grind
      have hlen : bytes.length = sizeAt tbl j := hlength
      rw [hto] at hmem
      constructor
      · intro x hx hout
        obtain ⟨hxj, hxjs⟩ := List.forall_mem_cons.mp hout
        rw [hframe x hx hxjs, hmem]
        apply view_write_of_not_mem (by omega) hx
        rw [Placement.range, Set.mem_Ico] at hxj
        omega
      · intro i hi k hk
        rcases List.mem_cons.mp hi with rfl | hi
        · -- the later sections stay off this one
          have hlater : ∀ i' ∈ js, (addr i).toNat + k ∉
              Placement.range (sizeAt tbl) (fun i => (addr i).toNat) i' := by
            intro i' hi'
            have hne : i ≠ i' := fun heq => hj (heq ▸ hi')
            have hdis := hplaced.disjoint i List.mem_cons_self i' (List.mem_cons_of_mem i hi') hne
            apply Set.disjoint_left.mp hdis
            exact ⟨Nat.le_add_right _ _, Nat.add_lt_add_left hk _⟩
          have hat := hbytes k hk
          rw [hframe _ (by omega) hlater, hmem, view_write_of_mem (by omega) (by omega)]
          exact hat.trans (List.getElem?_eq_getElem _)
        · exact hcontent i hi k hk

/-- One piece of the file is mapped, or read, to the start of the segment. -/
theorem piece_ok (hM : MapsFile M file) (hR : ReadsFile R file)
    {seg seg₁ : ElfSegment w} {info : FileMapInfo w} {s s₁ s₂ : LoadState w K O}
    (haddr : seg.addr = .absolute (base + start)) (hinfo : seg.mapInfo = [info])
    (hzero : info.start = 0) (hA : PageAligned (base + start)) (hoffset : PageAligned info.offset)
    (hlen : info.filesz.toNat ≤ seg.len.toNat) (hfit : start.toNat + seg.len.toNat ≤ 2 ^ w)
    (hpresent : info.offset.toNat + info.filesz.toNat ≤ file.length)
    (hmap : seg.mmapSegment M R s = .ok seg₁ s₁) (hcopy : seg₁.copyData R s₁ = .ok () s₂) :
    (∀ x, x < 2 ^ w → (x < start.toNat ∨ start.toNat + seg.len.toNat ≤ x) →
        view s₂.os.mem base x = view s.os.mem base x) ∧
      ∀ k, k < info.filesz.toNat → file[info.offset.toNat + k]? =
        some (view s₂.os.mem base (start.toNat + k)) := by
  have hstart : base + start = base + BitVec.ofNat w start.toNat := by
    rw [BitVec.ofNat_toNat, BitVec.setWidth_eq]
  obtain ⟨p, needCopy, hos, -, rfl⟩ := mmapSegment_ok haddr hinfo hmap
  cases needCopy with
  | false =>
      have hsame := copyData_of_mapped rfl hcopy
      subst hsame
      constructor
      · intro x hx hout
        apply hM.frame hos hA hoffset
        rw [hstart, view_within_iff (by omega) hx]
        omega
      · intro k hk
        have hget := List.getElem?_eq_getElem (by omega : info.offset.toNat + k < file.length)
        rw [hget, Option.some.injEq]
        symm
        apply hM.content hos hA hoffset
        · rw [hstart, view_within_iff (by omega) (by omega)]
          omega
        · have hdist : (base + BitVec.ofNat w (start.toNat + k) - (base + start)).toNat = k := by
            rw [hstart, BitVec.ofNat_add, ← BitVec.add_assoc, add_ofNat_sub_toNat _ (by omega)]
          rw [hdist]
          exact hget
  | true =>
      have hkeep := hM.copy hos
      simp only [ElfSegment.copyData, if_true, haddr, hinfo, Address.absoluteAddr,
        Exec.bind_ok_iff, Exec.lift_ok_iff] at hcopy
      obtain ⟨_, _, ⟨hptr, rfl⟩, hloop⟩ := hcopy
      cases hptr
      obtain ⟨s₃, hbody, hrest⟩ := Exec.forM_cons_ok_iff.mp hloop
      cases hrest
      obtain ⟨bytes, hlength, hbytes, hmem⟩ := copyInfo_ok hR hbody
      have hto : base + start + info.start = base + BitVec.ofNat w start.toNat := by
        rw [hzero, ← hstart]
        exact BitVec.add_zero _
      rw [hto, hkeep] at hmem
      rw [hmem]
      constructor
      · intro x hx hout
        exact view_write_of_not_mem (by omega) hx (by omega)
      · intro k hk
        rw [hbytes k hk, view_write_of_mem (by omega) (by omega : k < bytes.length)]
        exact List.getElem?_eq_getElem _

end Content

/-! ## One unit in memory -/

/-- The file offset of the bytes that stand at the address of a content section:
its own, or the start of its page where another header was moved instead. -/
def SectionUnit.fileStart (unit : SectionUnit) (tbl : List (ElfShdr w)) (j : Nat) : Nat :=
  if nonempty tbl unit.contentSections = [j] ∧
      UnitState.findOffset tbl unit.contentSections (shdrAt tbl j).shOffset ≠ some j then
    (shdrAt tbl j).shOffset.toNat - (shdrAt tbl j).shOffset.toNat % 2 ^ 12
  else (shdrAt tbl j).shOffset.toNat

/-- The bytes of a unit's sections in memory. -/
structure UnitImage (file : List UInt8) (tbl : List (ElfShdr w)) (unit : SectionUnit)
    (addr : Nat → BitVec w) (base : BitVec w) (m : Bytes w) : Prop where
  content : ∀ j ∈ nonempty tbl unit.contentSections, ∀ k, k < sizeAt tbl j →
    file[unit.fileStart tbl j + k]? = some (view m base ((addr j).toNat + k))
  zero : ∀ i ∈ unit.zeroSectons, ∀ k, k < sizeAt tbl i → view m base ((addr i).toNat + k) = 0

section Unit

variable {M : Mmap w K} {R : ElfReader w O} {file : List UInt8} {tbl : List (ElfShdr w)}
  {unit : SectionUnit} {addr : Nat → BitVec w} {base start : BitVec w}

/-- Only the bytes of the unit count. -/
theorem UnitImage.congr {m m' : Bytes w} (hlayout : UnitLayout tbl unit start.toNat addr)
    (h : UnitImage file tbl unit addr base m)
    (heq : ∀ x, start.toNat ≤ x → x < unit.zeroEnd tbl start.toNat →
      view m' base x = view m base x) : UnitImage file tbl unit addr base m' where
  content := by
    intro j hj k hk
    obtain ⟨hmem, hsize⟩ := mem_nonempty.mp hj
    have hin := hlayout.placed.inside j (List.mem_append_left _ hmem) hsize
    rw [heq _ (by omega) (by omega)]
    exact h.content j hj k hk
  zero := by
    intro i hi k hk
    have hin := hlayout.placed.inside i (List.mem_append_right _ hi) (by omega)
    rw [heq _ (by omega) (by omega)]
    exact h.zero i hi k hk

/-- `mmap_segment` and `copy_data` put the content of a unit in place. -/
structure ContentStage (file : List UInt8) (tbl : List (ElfShdr w)) (unit : SectionUnit)
    (addr : Nat → BitVec w) (base start : BitVec w) (seg seg₁ : ElfSegment w) (m m' : Bytes w) :
    Prop where
  segment : ∃ needCopy, seg₁ = { seg with addr := .absolute (base + start), needCopy }
  frame : ∀ x, x < 2 ^ w → (x < start.toNat ∨ unit.next tbl start.toNat ≤ x) →
    view m' base x = view m base x
  content : ∀ j ∈ nonempty tbl unit.contentSections, ∀ k, k < sizeAt tbl j →
    file[unit.fileStart tbl j + k]? = some (view m' base ((addr j).toNat + k))

/-- The address of the only content section, and where its bytes come from: the
start of the section, or the start of its page when another header was moved. -/
theorem single_section_at {j : Nat} (hone : nonempty tbl unit.contentSections = [j])
    (haddr : addr j = start + BitVec.ofNat w
      (if UnitState.findOffset tbl unit.contentSections (shdrAt tbl j).shOffset = some j then
        unit.shift tbl else 0)) :
    ∃ d, d ≤ unit.shift tbl ∧ addr j = start + BitVec.ofNat w d ∧
      unit.fileStart tbl j = (shdrAt tbl j).shOffset.toNat - unit.shift tbl + d := by
  have hshift : unit.shift tbl = (shdrAt tbl j).shOffset.toNat % 2 ^ 12 := by
    rw [SectionUnit.shift, hone]
  have hmod := Nat.mod_le (shdrAt tbl j).shOffset.toNat (2 ^ 12)
  by_cases hfound : UnitState.findOffset tbl unit.contentSections (shdrAt tbl j).shOffset = some j
  · rw [if_pos hfound] at haddr
    refine ⟨unit.shift tbl, Nat.le_refl _, haddr, ?_⟩
    rw [SectionUnit.fileStart, if_neg (fun h => h.2 hfound)]
    omega
  · rw [if_neg hfound] at haddr
    refine ⟨0, Nat.zero_le _, haddr, ?_⟩
    rw [SectionUnit.fileStart, if_pos ⟨hone, hfound⟩, hshift, Nat.add_zero]

section Stage

variable {seg seg₁ : ElfSegment w} {s s₁ s₂ : LoadState w K O}

/-- Several content sections are copied one by one. -/
theorem content_stage_many (hM : MapsFile M file) (hN : CopiesWithoutFile M) (hR : ReadsFile R file)
    (hunit : unit.Valid tbl) (hlayout : UnitLayout tbl unit start.toNat addr)
    (hmaps : seg.mapInfo = (nonempty tbl unit.contentSections).map (infoAt tbl start addr))
    (hfit : unit.next tbl start.toNat < 2 ^ w)
    (hmany : ∀ j, nonempty tbl unit.contentSections ≠ [j])
    (hmap : ElfSegment.mmapSegment M R { seg with addr := .absolute (base + start) } s =
      .ok seg₁ s₁) (hcopy : seg₁.copyData R s₁ = .ok () s₂) :
    ContentStage file tbl unit addr base start seg seg₁ s.os.mem s₂.os.mem := by
  have hle := contentEnd_le_zeroEnd tbl unit start.toNat
  have hle' := zeroEnd_le_next tbl unit start.toNat
  have hlen : ({ seg with addr := .absolute (base + start) } : ElfSegment w).mapInfo.length ≠
      1 := by
    dsimp only
    rw [hmaps, List.length_map]
    intro hlen
    obtain ⟨j, hj⟩ := List.length_eq_one_iff.mp hlen
    exact hmany j hj
  obtain ⟨p, needCopy, hos, -, rfl⟩ := mmapSegment_ok_of_many rfl hlen hmap
  obtain rfl := hN.copy hos
  have hkeep := hM.copy hos
  simp only [ElfSegment.copyData, if_true, hmaps, Address.absoluteAddr, Exec.bind_ok_iff,
    Exec.lift_ok_iff] at hcopy
  obtain ⟨_, _, ⟨hptr, rfl⟩, hloop⟩ := hcopy
  cases hptr
  have hplaced : Placed (sizeAt tbl) (alignAt tbl) (fun i => (addr i).toNat)
      (nonempty tbl unit.contentSections) start.toNat (unit.contentEnd tbl start.toNat) :=
    hlayout.content.subset fun i hi => (mem_nonempty.mp hi).1
  obtain ⟨hframe, hcontent⟩ := copyInfos_ok hR (hunit.content_nodup.filter _) hplaced
    (fun i hi => (mem_nonempty.mp hi).2) (by omega) hloop
  refine ⟨⟨true, rfl⟩, fun x hx hout => ?_, fun j hj k hk => ?_⟩
  · rw [hframe x hx (fun i hi hmem => ?_), hkeep]
    obtain ⟨hi, hsize⟩ := mem_nonempty.mp hi
    have hin := hlayout.content.inside i hi hsize
    rw [Placement.range, Set.mem_Ico] at hmem
    omega
  · have hstart : unit.fileStart tbl j = (shdrAt tbl j).shOffset.toNat :=
      if_neg fun h => hmany j h.1
    rw [hstart]
    exact hcontent j hj k hk

variable [WordSize w]

/-- A single content section is mapped from the start of its page. -/
theorem content_stage_one (hM : MapsFile M file) (hR : ReadsFile R file)
    (hbase : PageAligned base) (hpage : PageAligned start)
    (hseg : UnitSegment tbl unit start addr seg) (hfit : unit.next tbl start.toNat < 2 ^ w)
    {j : Nat} (hone : nonempty tbl unit.contentSections = [j])
    (hpres : (shdrAt tbl j).shOffset.toNat + sizeAt tbl j ≤ file.length)
    (hmap : ElfSegment.mmapSegment M R { seg with addr := .absolute (base + start) } s =
      .ok seg₁ s₁) (hcopy : seg₁.copyData R s₁ = .ok () s₂) :
    ContentStage file tbl unit addr base start seg seg₁ s.os.mem s₂.os.mem := by
  have hnext : start.toNat + seg.len.toNat = unit.next tbl start.toNat := by
    rw [hseg.len]
    rfl
  have hle := contentEnd_le_zeroEnd tbl unit start.toNat
  have hle' := zeroEnd_le_next tbl unit start.toNat
  have hmaps := hseg.mapInfo
  rw [SectionUnit.MapsContent, hone] at hmaps
  obtain ⟨hinfo, haddr⟩ := hmaps
  have hshift : unit.shift tbl = (shdrAt tbl j).shOffset.toNat % 2 ^ 12 := by
    rw [SectionUnit.shift, hone]
  have hend : start.toNat + sizeAt tbl j + unit.shift tbl ≤ unit.contentEnd tbl start.toNat := by
    have hup := le_up start.toNat (alignAt tbl j)
    rw [SectionUnit.contentEnd, hone, stop, stop]
    omega
  have hfilesz : ((shdrAt tbl j).shSize + BitVec.ofNat w (unit.shift tbl)).toNat =
      sizeAt tbl j + unit.shift tbl := by
    rw [BitVec.toNat_add, BitVec.toNat_ofNat, Nat.add_mod_mod]
    exact Nat.mod_eq_of_lt (by rw [← sizeAt]; omega)
  have hoffset := rounddown_page_toNat (shdrAt tbl j).shOffset
  have hmod := Nat.mod_le (shdrAt tbl j).shOffset.toNat (2 ^ 12)
  have hinfo₀ : ({ seg with addr := .absolute (base + start) } : ElfSegment w).mapInfo = [{
      start := 0
      filesz := (shdrAt tbl j).shSize + BitVec.ofNat w (unit.shift tbl)
      offset := rounddown (shdrAt tbl j).shOffset (pageSize w) }] := hinfo
  obtain ⟨hframe, hcontent⟩ := piece_ok hM hR rfl hinfo₀ rfl (hbase.add hpage)
    (pageAligned_rounddown _) (by dsimp only; omega) (by dsimp only; omega)
    (by dsimp only; omega) hmap hcopy
  obtain ⟨p, needCopy, -, -, hseg₁⟩ := mmapSegment_ok rfl hinfo₀ hmap
  refine ⟨⟨needCopy, hseg₁⟩, fun x hx hout => ?_, fun i hi k hk => ?_⟩
  · exact hframe x hx (by dsimp only; omega)
  · rw [hone] at hi
    obtain rfl := List.mem_singleton.mp hi
    obtain ⟨d, hd, hat⟩ := single_section_at hone haddr
    have hatNat : (addr i).toNat = start.toNat + d := by
      rw [hat.1, BitVec.toNat_add, BitVec.toNat_ofNat, Nat.add_mod_mod]
      exact Nat.mod_eq_of_lt (by omega)
    have hbyte := hcontent (d + k) (by dsimp only; omega)
    dsimp only at hbyte
    rw [hoffset, ← hshift, ← Nat.add_assoc, ← Nat.add_assoc] at hbyte
    rw [hat.2, hatNat]
    exact hbyte

/-- After `mmap_segment` and `copy_data` the content is in place. -/
theorem content_stage (hM : MapsFile M file) (hN : CopiesWithoutFile M) (hR : ReadsFile R file)
    (hbase : PageAligned base) (hpage : PageAligned start) (hunit : unit.Valid tbl)
    (hlayout : UnitLayout tbl unit start.toNat addr)
    (hseg : UnitSegment tbl unit start addr seg) (hfit : unit.next tbl start.toNat < 2 ^ w)
    (hpresent : ∀ j ∈ nonempty tbl unit.contentSections,
      (shdrAt tbl j).shOffset.toNat + sizeAt tbl j ≤ file.length)
    (hmap : ElfSegment.mmapSegment M R { seg with addr := .absolute (base + start) } s =
      .ok seg₁ s₁) (hcopy : seg₁.copyData R s₁ = .ok () s₂) :
    ContentStage file tbl unit addr base start seg seg₁ s.os.mem s₂.os.mem := by
  have hmaps := hseg.mapInfo
  unfold SectionUnit.MapsContent at hmaps
  split at hmaps
  · rename_i j hone
    have hpres := hpresent j (by rw [hone]; exact List.mem_singleton_self j)
    exact content_stage_one hM hR hbase hpage hseg hfit hone hpres hmap hcopy
  · rename_i js hmany
    exact content_stage_many hM hN hR hunit hlayout hmaps hfit hmany hmap hcopy

end Stage

variable [WordSize w]

/-- The loop body of `load_segments` for the segment of a unit. -/
theorem load_unit (hM : MapsFile M file) (hN : CopiesWithoutFile M) (hR : ReadsFile R file)
    (hbase : PageAligned base) (hpage : PageAligned start) (hunit : unit.Valid tbl)
    (hlayout : UnitLayout tbl unit start.toNat addr) {seg seg' : ElfSegment w}
    (hseg : UnitSegment tbl unit start addr seg) (hfit : unit.next tbl start.toNat < 2 ^ w)
    (hpresent : ∀ j ∈ nonempty tbl unit.contentSections,
      (shdrAt tbl j).shOffset.toNat + sizeAt tbl j ≤ file.length) {s s' : LoadState w K O}
    (h : seg.load M R base s = .ok seg' s') :
    (∀ x, x < 2 ^ w → (x < start.toNat ∨ unit.next tbl start.toNat ≤ x) →
        view s'.os.mem base x = view s.os.mem base x) ∧
      UnitImage file tbl unit addr base s'.os.mem := by
  obtain ⟨seg₁, s₁, s₂, hmap, hcopy, hfill⟩ := load_stages hseg.at_start h
  obtain ⟨⟨needCopy, rfl⟩, hframe, hcontent⟩ :=
    content_stage hM hN hR hbase hpage hunit hlayout hseg hfit hpresent hmap hcopy
  have hmem := fillZero_ok hM rfl (pageAligned_roundup _) hfill
  have hle := start_le_contentEnd tbl unit start.toNat
  have hle' := contentEnd_le_zeroEnd tbl unit start.toNat
  have hle'' := zeroEnd_le_next tbl unit start.toNat
  have hnext : unit.next tbl start.toNat = pageLen (unit.zeroEnd tbl start.toNat) := by
    unfold PageAligned at hpage
    unfold SectionUnit.next pageLen
    omega
  have hzeroStart : base + start + seg.contentSize =
      base + BitVec.ofNat w (unit.contentEnd tbl start.toNat) := by
    have hsplit : unit.contentEnd tbl start.toNat = start.toNat + seg.contentSize.toNat := by
      rw [hseg.contentSize]
      omega
    rw [hsplit, BitVec.ofNat_add, BitVec.ofNat_toNat, BitVec.ofNat_toNat, BitVec.setWidth_eq,
      BitVec.setWidth_eq, BitVec.add_assoc]
  have hview : ∀ x, x < 2 ^ w →
      (unit.contentEnd tbl start.toNat ≤ x → x < unit.zeroEnd tbl start.toNat →
        view s'.os.mem base x = 0) ∧
      (x < unit.contentEnd tbl start.toNat ∨ unit.next tbl start.toNat ≤ x →
        view s'.os.mem base x = view s₂.os.mem base x) := by
    intro x hx
    rw [hmem]
    exact view_zeroFilled hbase hzeroStart hseg.zeroSize hle' (by omega) hnext
      (Nat.le_of_lt hfit) hx
  refine ⟨fun x hx hout => ?_, ⟨fun j hj k hk => ?_, fun i hi k hk => ?_⟩⟩
  · rw [(hview x hx).2 (by omega), hframe x hx hout]
  · obtain ⟨hmemj, hsize⟩ := mem_nonempty.mp hj
    have hin := hlayout.content.inside j hmemj hsize
    rw [(hview _ (by omega)).2 (by omega)]
    exact hcontent j hj k hk
  · have hin := hlayout.zero.inside i hi (by omega)
    exact (hview _ (by omega)).1 (by omega) (by omega)

end Unit

/-! ## All units -/

section Image

variable {M : Mmap w K} {R : ElfReader w O} {file : List UInt8} {tbl : List (ElfShdr w)}
  {addr : Nat → BitVec w} {base : BitVec w}

theorem UnitImage.of_empty {unit : SectionUnit} {start : Nat} {m : Bytes w}
    (hlayout : UnitLayout tbl unit start addr) (hend : unit.zeroEnd tbl start = start) :
    UnitImage file tbl unit addr base m := by
  have hnone : ∀ i ∈ unit.members, sizeAt tbl i = 0 := by
    intro i hi
    by_contra hsize
    have hin := hlayout.placed.inside i hi hsize
    omega
  constructor
  · intro j hj
    obtain ⟨hmem, hsize⟩ := mem_nonempty.mp hj
    exact absurd (hnone j (List.mem_append_left _ hmem)) hsize
  · intro i hi k hk
    have hsize := hnone i (List.mem_append_right _ hi)
    omega

variable [WordSize w]

/-- The loop of `load_segments` over the segments of an object. -/
theorem loadAll_units (hM : MapsFile M file) (hN : CopiesWithoutFile M) (hR : ReadsFile R file)
    (hbase : PageAligned base) {start : BitVec w} {cs : List (Fin 4)}
    {segs segs' : List (ElfSegment w)} (hlaid : LaidOut tbl addr start cs segs)
    (hfit : layoutEnd tbl start.toNat cs < 2 ^ w)
    (hpresent : ∀ c, ∀ j ∈ nonempty tbl (SectionSegments.groupSections tbl c).contentSections,
      (shdrAt tbl j).shOffset.toNat + sizeAt tbl j ≤ file.length) {s s' : LoadState w K O}
    (h : ElfSegment.loadAll M R base segs s = .ok segs' s') :
    (∀ x, x < 2 ^ w → x < start.toNat → view s'.os.mem base x = view s.os.mem base x) ∧
      ∀ c ∈ cs,
        UnitImage file tbl (SectionSegments.groupSections tbl c) addr base s'.os.mem := by
  induction hlaid generalizing s segs' with
  | nil =>
      cases h
      exact ⟨fun _ _ _ => rfl, fun _ hc => absurd hc List.not_mem_nil⟩
  | @empty start c cs segs hunit hend hrest ih =>
      rw [layoutEnd, next_of_zeroEnd hend] at hfit
      obtain ⟨hframe, himage⟩ := ih hfit h
      refine ⟨hframe, fun c' hc' => ?_⟩
      rcases List.mem_cons.mp hc' with rfl | hc'
      · exact UnitImage.of_empty hunit hend
      · exact himage c' hc'
  | @segment start next c cs seg segs hunit hseg hpage hnext hrest ih =>
      rw [layoutEnd, ← hnext] at hfit
      simp only [ElfSegment.loadAll, Exec.bind_ok_iff] at h
      obtain ⟨seg', s₁, hhead, rest, s₂, htail, hret⟩ := h
      cases hret
      have hle := le_layoutEnd tbl next.toNat cs
      have hroom : (SectionSegments.groupSections tbl c).next tbl start.toNat < 2 ^ w := by
        rw [← hnext]
        omega
      obtain ⟨hframe, himage⟩ := load_unit hM hN hR hbase hpage (groupSections_valid tbl c) hunit
        hseg hroom (hpresent c) hhead
      obtain ⟨hframe', himage'⟩ := ih hfit htail
      have hend := zeroEnd_le_next tbl (SectionSegments.groupSections tbl c) start.toNat
      have hge : start.toNat ≤ next.toNat := by
        rw [hnext]
        exact Nat.le_add_right _ _
      constructor
      · intro x hx hlo
        rw [hframe' x hx (by omega), hframe x hx (.inl hlo)]
      · intro c' hc'
        rcases List.mem_cons.mp hc' with rfl | hc'
        · exact himage.congr hunit fun x _ hhi => hframe' x (by omega) (by omega)
        · exact himage' c' hc'

end Image

/-! ## What the headers promise -/

/-- The sections stand in memory as their headers say: file bytes, or zeros. -/
def SectionsLoaded (file : List UInt8) (out : List (ElfShdr w)) (base : BitVec w) (m : Bytes w) :
    Prop :=
  ∀ shdr ∈ out, ∀ k, k < shdr.shSize.toNat →
    (shdr.shType ≠ shtNobits →
      file[shdr.shOffset.toNat + k]? = some (m (base + shdr.shAddr + BitVec.ofNat w k))) ∧
    (shdr.shType = shtNobits → m (base + shdr.shAddr + BitVec.ofNat w k) = 0)

/-- In every class with one content section that has bytes, that section is the
first of the class at its file offset, or the page it starts in repeats its
bytes. -/
def SectionsFound (file : List UInt8) (shdrs : List (ElfShdr w)) : Prop :=
  ∀ c j, nonempty shdrs (SectionSegments.groupSections shdrs c).contentSections = [j] →
    (∀ i ∈ (SectionSegments.groupSections shdrs c).contentSections, i < j →
      (shdrAt shdrs i).shOffset ≠ (shdrAt shdrs j).shOffset) ∨
    ∀ k, k < sizeAt shdrs j →
      file[(shdrAt shdrs j).shOffset.toNat - (shdrAt shdrs j).shOffset.toNat % 2 ^ 12 + k]? =
        file[(shdrAt shdrs j).shOffset.toNat + k]?

section Promise

variable {file : List UInt8} {tbl : List (ElfShdr w)} {addr : Nat → BitVec w} {base : BitVec w}
  {m : Bytes w}

theorem findOffset_eq_some_iff {c : Fin 4} {j : Nat}
    (hj : j ∈ (SectionSegments.groupSections tbl c).contentSections) :
    UnitState.findOffset tbl (SectionSegments.groupSections tbl c).contentSections
        (shdrAt tbl j).shOffset = some j ↔
      ∀ i ∈ (SectionSegments.groupSections tbl c).contentSections, i < j →
        (shdrAt tbl i).shOffset ≠ (shdrAt tbl j).shOffset := by
  have hvalid := groupSections_valid tbl c
  have hat : ∀ i ∈ (SectionSegments.groupSections tbl c).contentSections,
      tbl[i]?.any (fun shdr => shdr.shOffset == (shdrAt tbl j).shOffset) =
        ((shdrAt tbl i).shOffset == (shdrAt tbl j).shOffset) := by
    intro i hi
    rw [getElem?_eq_shdrAt (hvalid.content_lt i hi)]
    rfl
  rw [UnitState.findOffset, Search.find?_eq_some_iff_of_sorted (groupSections_holds tbl c).1.sorted hj
    (by rw [hat j hj, beq_self_eq_true])]
  constructor
  · intro h i hi hlt heq
    have hfalse := h i hi hlt
    rw [hat i hi, heq, beq_self_eq_true] at hfalse
    cases hfalse
  · intro h i hi hlt
    rw [hat i hi]
    exact beq_false_of_ne (h i hi hlt)

/-- With all units in memory the headers say where their bytes are exactly when the
single content sections were found. -/
theorem sectionsLoaded_iff
    (himage : ∀ c, UnitImage file tbl (SectionSegments.groupSections tbl c) addr base m) :
    SectionsLoaded file (withAddrs tbl addr) base m ↔ SectionsFound file tbl := by
  constructor
  · intro h c j hone
    have hmem : j ∈ nonempty tbl (SectionSegments.groupSections tbl c).contentSections := by
      rw [hone]
      exact List.mem_singleton_self j
    obtain ⟨hj, hsize⟩ := mem_nonempty.mp hmem
    have hheld := ((groupSections_holds tbl c).1.mem_iff j).mp hj
    by_cases hfound : UnitState.findOffset tbl
        (SectionSegments.groupSections tbl c).contentSections (shdrAt tbl j).shOffset = some j
    · exact .inl ((findOffset_eq_some_iff hj).mp hfound)
    · right
      intro k hk
      have hbyte := (himage c).content j hmem k hk
      rw [SectionUnit.fileStart, if_pos ⟨hone, hfound⟩, view_add] at hbyte
      have hshdr : { shdrAt tbl j with shAddr := addr j } ∈ withAddrs tbl addr :=
        List.mem_of_getElem? (withAddrs_some hsize)
      have hsaid := (h _ hshdr k hk).1 (fun hn => by
        have hkind := hheld.2.2
        rw [beq_eq_false_iff_ne] at hkind
        exact hkind hn)
      rw [hbyte]
      exact hsaid.symm
  · intro h shdr hshdr k hk
    obtain ⟨i, hi, rfl⟩ := mem_withAddrs hshdr
    have hsize : sizeAt tbl i ≠ 0 := by
      rw [sizeAt]
      dsimp only at hk
      omega
    obtain ⟨hcontent, hzero⟩ := groupSections_holds tbl (flagsToIdx (shdrAt tbl i).shFlags)
    constructor
    · intro hkind
      have hj := (hcontent.mem_iff i).mpr ⟨hi, rfl, beq_false_of_ne hkind⟩
      have hmem := mem_nonempty.mpr ⟨hj, hsize⟩
      have hbyte := (himage _).content i hmem k hk
      rw [view_add] at hbyte
      refine Eq.trans ?_ hbyte
      unfold SectionUnit.fileStart
      split
      · rename_i hlost
        rcases h _ i hlost.1 with hfirst | hsame
        · exact absurd ((findOffset_eq_some_iff hj).mpr hfirst) hlost.2
        · exact (hsame k hk).symm
      · rfl
    · intro hkind
      have hz := (hzero.mem_iff i).mpr ⟨hi, rfl, beq_iff_eq.mpr hkind⟩
      have hbyte := (himage _).zero i hz k hk
      rwa [view_add] at hbyte

/-- A zero-initialised header does not change the content of a unit. -/
theorem groupSections_concat_nobits {shdr : ElfShdr w} (hkind : shdr.shType = shtNobits)
    (c : Fin 4) :
    (SectionSegments.groupSections (tbl ++ [shdr]) c).contentSections =
      (SectionSegments.groupSections tbl c).contentSections := by
  rw [groupSections_concat]
  by_cases hc : flagsToIdx shdr.shFlags = c
  · rw [hc, Function.update_self, SectionUnit.addSection, if_pos hkind]
  · rw [Function.update_of_ne (Ne.symm hc)]

theorem sectionsFound_concat_nobits {shdr : ElfShdr w} (hkind : shdr.shType = shtNobits) :
    SectionsFound file (tbl ++ [shdr]) ↔ SectionsFound file tbl := by
  have hat : ∀ c, ∀ i ∈ (SectionSegments.groupSections tbl c).contentSections,
      shdrAt (tbl ++ [shdr]) i = shdrAt tbl i :=
    fun c i hi => shdrAt_concat_lt shdr ((groupSections_valid tbl c).content_lt i hi)
  have hlist : ∀ c, nonempty (tbl ++ [shdr])
      (SectionSegments.groupSections (tbl ++ [shdr]) c).contentSections =
        nonempty tbl (SectionSegments.groupSections tbl c).contentSections := by
    intro c
    rw [groupSections_concat_nobits hkind]
    apply List.filter_congr
    intro i hi
    rw [sizeAt, sizeAt, hat c i hi]
  unfold SectionsFound
  apply forall_congr'
  intro c
  apply forall_congr'
  intro j
  rw [hlist, groupSections_concat_nobits hkind]
  apply imp_congr_right
  intro hone
  have hj : j ∈ (SectionSegments.groupSections tbl c).contentSections := by
    have hmem : j ∈ nonempty tbl (SectionSegments.groupSections tbl c).contentSections := by
      rw [hone]
      exact List.mem_singleton_self j
    exact (mem_nonempty.mp hmem).1
  have hothers : (∀ i ∈ (SectionSegments.groupSections tbl c).contentSections, i < j →
      (shdrAt (tbl ++ [shdr]) i).shOffset ≠ (shdrAt tbl j).shOffset) ↔
      ∀ i ∈ (SectionSegments.groupSections tbl c).contentSections, i < j →
        (shdrAt tbl i).shOffset ≠ (shdrAt tbl j).shOffset := by
    apply forall_congr'
    intro i
    apply imp_congr_right
    intro hi
    rw [hat c i hi]
  rw [sizeAt, hat c j hj, hothers]
  rfl

/-- Only headers of the object have content. -/
theorem section_present {shdrs : List (ElfShdr w)} {gotCnt pltCnt : Nat} {c : Fin 4} {j : Nat}
    (hpresent : ∀ shdr ∈ shdrs, shdr.shType ≠ shtNobits → shdr.shSize ≠ 0 →
      shdr.shOffset.toNat + shdr.shSize.toNat ≤ file.length)
    (hj : j ∈ nonempty (SectionSegments.table shdrs gotCnt pltCnt)
      (SectionSegments.groupSections (SectionSegments.table shdrs gotCnt pltCnt)
        c).contentSections) :
    (shdrAt (SectionSegments.table shdrs gotCnt pltCnt) j).shOffset.toNat +
      sizeAt (SectionSegments.table shdrs gotCnt pltCnt) j ≤ file.length := by
  obtain ⟨hmem, hsize⟩ := mem_nonempty.mp hj
  obtain ⟨hlt, -, hkind⟩ := ((groupSections_holds _ c).1.mem_iff j).mp hmem
  rw [beq_eq_false_iff_ne] at hkind
  rcases List.mem_append.mp (List.mem_of_getElem? (getElem?_eq_shdrAt hlt)) with hin | hin
  · refine hpresent _ hin hkind ?_
    intro hnone
    apply hsize
    rw [sizeAt, hnone]
    exact BitVec.toNat_zero
  · -- the synthetic headers are zero-initialised
    exfalso
    rcases List.mem_pair.mp hin with heq | heq
    · exact hkind (congrArg ElfShdr.shType heq)
    · exact hkind (congrArg ElfShdr.shType heq)

end Promise

section Object

variable [WordSize w] {M : Mmap w K} {R : ElfReader w O} {file : List UInt8}

/-- Loading an object leaves its sections as the headers say exactly when the
single content section of each class was found again. -/
theorem SectionSegments.sections_loaded_iff {S : StaticReloc} {shdrs out : List (ElfShdr w)}
    {gotCnt pltCnt : Nat} {o o₁ o' : O} {ss : SectionSegments w}
    (hM : MapsFile M file) (hN : CopiesWithoutFile M) (hR : ReadsFile R file)
    (hreg : ∀ shdr ∈ shdrs, shdr.Regular)
    (hpresent : ∀ shdr ∈ shdrs, shdr.shType ≠ shtNobits → shdr.shSize ≠ 0 →
      shdr.shOffset.toNat + shdr.shSize.toNat ≤ file.length)
    (hcount : PltGotSection.countNeededEntries S R shdrs o = .ok (gotCnt, pltCnt) o₁)
    (hfit : NoOverflow shdrs gotCnt pltCnt)
    (hnew : SectionSegments.new S R shdrs o = .ok (ss, out) o')
    {space : ElfSegments w} {segs : List (ElfSegment w)} {s s' : LoadState w K O}
    (hload : ss.loadSegments M R s = .ok (space, segs) s') :
    SectionsLoaded file out space.base s'.os.mem ↔ SectionsFound file shdrs := by
  rw [SectionSegments.new, Exec.bind_of_ok hcount] at hnew
  cases hnew
  obtain ⟨addr, hshdrs, -, hlaid⟩ := layout_spec hreg hfit
  have hzero : (0 : BitVec w).toNat = 0 := BitVec.toNat_zero
  simp only [SectionSegments.loadSegments, ElfLoader.loadSegments, SectionSegments.createSpace,
    Exec.bind_ok_iff, Load.onOs_ok_iff] at hload
  obtain ⟨_, _, ⟨_, _, hrec, p, _, ⟨os, hreserve, rfl⟩, hspace⟩, _, _, hsegs, segs', s₂, hall,
    hret⟩ := hload
  cases hrec
  cases hspace
  cases hsegs
  cases hret
  have hbase : PageAligned (ElfSegments.base ⟨p, 0, (SectionSegments.layout
      (SectionSegments.table shdrs gotCnt pltCnt)).offset⟩) := by
    have hsub : p - (0 : BitVec w) = p := BitVec.sub_zero p
    change PageAligned (p - 0)
    rw [hsub]
    exact (hM.reserve hreserve).1
  have hall' : ∀ c, ∀ j ∈ nonempty (SectionSegments.table shdrs gotCnt pltCnt)
      (SectionSegments.groupSections (SectionSegments.table shdrs gotCnt pltCnt) c).contentSections,
      (shdrAt (SectionSegments.table shdrs gotCnt pltCnt) j).shOffset.toNat +
        sizeAt (SectionSegments.table shdrs gotCnt pltCnt) j ≤ file.length := by
    intro c j hj
    exact section_present hpresent hj
  obtain ⟨-, himage⟩ := loadAll_units hM hN hR hbase hlaid (by rw [hzero]; exact hfit.total) hall'
    hall
  dsimp only
  rw [hshdrs, sectionsLoaded_iff (fun c => himage c (List.mem_finRange c))]
  have htable : SectionSegments.table shdrs gotCnt pltCnt =
      shdrs ++ [PltGotSection.createGotShdr gotCnt] ++ [PltGotSection.createPltShdr pltCnt] := by
    rw [SectionSegments.table, List.append_assoc]
    rfl
  rw [htable, sectionsFound_concat_nobits rfl, sectionsFound_concat_nobits rfl]

end Object

/-! ## Objects with and without an empty section in the way -/

theorem unixMmap_copiesWithoutFile (file : List UInt8) (free : BitVec w) :
    CopiesWithoutFile (unixMmap file free) where
  copy := by
    intro addr len prot flags offset s p needCopy s' h
    cases h
    rfl

theorem callShdrs_found : SectionsFound callFile callShdrs := by
  intro c j hone
  left
  have hcases : ∀ c : Fin 4, ∀ i ∈ (SectionSegments.groupSections callShdrs c).contentSections,
      ∀ j ∈ nonempty callShdrs (SectionSegments.groupSections callShdrs c).contentSections,
        i < j → (shdrAt callShdrs i).shOffset ≠ (shdrAt callShdrs j).shOffset := by decide
  intro i hi
  exact hcases c i hi j (by rw [hone]; exact List.mem_singleton_self j)

theorem call_object_sections_loaded :
    ∃ space segs s', callSegments.loadSegments (unixMmap callFile 0x10000)
          (bytesReader callFile (some 3)) ⟨⟨fun _ => 7, ()⟩, (), []⟩ = .ok (space, segs) s' ∧
      SectionsLoaded callFile callOut space.base s'.os.mem := by
  have hreturns : Exec.returned (callSegments.loadSegments (unixMmap callFile 0x10000)
      (bytesReader callFile (some 3)) ⟨⟨fun _ => 7, ()⟩, (), []⟩) = true := rfl
  obtain ⟨⟨space, segs⟩, s', hload⟩ := Exec.exists_of_returned hreturns
  refine ⟨space, segs, s', hload, ?_⟩
  exact (SectionSegments.sections_loaded_iff (unixMmap_mapsFile _ _)
    (unixMmap_copiesWithoutFile _ _) (bytesReader_readsFile _ _) callShdrs_regular (by decide) rfl
    callShdrs_noOverflow (call_new (some 3)) hload).mpr callShdrs_found

/-- An empty section stands at the file offset of the only code. -/
def shadowedShdrs : List (ElfShdr 64) :=
  [sampleShdr 0 0 0 0 0 0, sampleShdr 1 6 8 0 1 0, sampleShdr 1 6 8 2 1 0]

def shadowedSegments : SectionSegments 64 where
  segments := [sampleSegment 0 0x1000 10 6 ⟨5⟩ [⟨0, 10, 0⟩]]
  totalSize := 0x1000
  gotBase := 0
  pltBase := 16

/-- The empty header has been moved in the place of the other one, which is left at
the start of the page. -/
def shadowedOut : List (ElfShdr 64) :=
  [sampleShdr 0 0 0 0 0 0, { sampleShdr 1 6 8 0 1 0 with shAddr := 8 }, sampleShdr 1 6 8 2 1 0,
    PltGotSection.createGotShdr 0, { PltGotSection.createPltShdr 0 with shAddr := 16 }]

theorem shadowed_section_misplaced :
    SectionSegments.new X86_64Relocator.staticReloc
        (bytesReader [1, 2, 3, 4, 5, 6, 7, 8, 9, 10] none) shadowedShdrs () =
      .ok (shadowedSegments, shadowedOut) () ∧
    ∃ space segs s',
      shadowedSegments.loadSegments (unixMmap [1, 2, 3, 4, 5, 6, 7, 8, 9, 10] 0x10000)
          (bytesReader [1, 2, 3, 4, 5, 6, 7, 8, 9, 10] none) ⟨⟨fun _ => 0, ()⟩, (), []⟩ =
        .ok (space, segs) s' ∧
      ¬ SectionsLoaded [1, 2, 3, 4, 5, 6, 7, 8, 9, 10] shadowedOut space.base s'.os.mem := by
  refine ⟨rfl, _, _, _, rfl, ?_⟩
  intro h
  have hbyte := (h (sampleShdr 1 6 8 2 1 0) (by decide) 0 (by decide)).1 (by decide)
  revert hbyte
  decide

end ElfLoader
