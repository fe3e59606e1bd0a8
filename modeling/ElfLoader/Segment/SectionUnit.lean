import ElfLoader.Library.Placement
import ElfLoader.Segment.Section

/-! # The sections of one protection class (`SectionUnit::create_segment`)

Only `sh_addr` changes in the table, so a table during the layout is the table
at the start with other addresses. The cursor of `create_segment` is followed on
values, next to a layout that has no largest address: where that layout ends
below the top of the address space, the two agree.
-/

namespace ElfLoader

open Placement

variable {w : Nat}

/-! ## The table through its addresses -/

def shdrAt (tbl : List (ElfShdr w)) (i : Nat) : ElfShdr w := tbl[i]?.getD default

def sizeAt (tbl : List (ElfShdr w)) (i : Nat) : Nat := (shdrAt tbl i).shSize.toNat

def alignAt (tbl : List (ElfShdr w)) (i : Nat) : Nat := (shdrAt tbl i).shAddralign.toNat

/-- The table with other addresses. -/
def withAddrs (tbl : List (ElfShdr w)) (addr : Nat → BitVec w) : List (ElfShdr w) :=
  tbl.mapIdx fun i shdr => { shdr with shAddr := addr i }

section Table

variable {tbl : List (ElfShdr w)} {addr : Nat → BitVec w} {i : Nat}

theorem getElem?_eq_shdrAt (h : i < tbl.length) : tbl[i]? = some (shdrAt tbl i) := by
  rw [shdrAt, List.getElem?_eq_getElem h]
  rfl

theorem withAddrs_getElem? (tbl : List (ElfShdr w)) (addr : Nat → BitVec w) (i : Nat) :
    (withAddrs tbl addr)[i]? = tbl[i]?.map fun shdr => { shdr with shAddr := addr i } :=
  List.getElem?_mapIdx

theorem withAddrs_modify (f : BitVec w → BitVec w) (i : Nat) :
    (withAddrs tbl addr).modify i (fun shdr => { shdr with shAddr := f shdr.shAddr }) =
      withAddrs tbl (Function.update addr i (f (addr i))) := by
  apply List.ext_getElem?
  intro j
  rw [List.getElem?_modify, withAddrs_getElem?, withAddrs_getElem?]
  by_cases hij : i = j
  · subst hij
    cases tbl[i]? with
    | none => simp
    | some shdr => simp
  · rw [Function.update_of_ne (Ne.symm hij)]
    cases tbl[j]? with
    | none => simp
    | some shdr => simp [hij]

theorem withAddrs_self (tbl : List (ElfShdr w)) :
    withAddrs tbl (fun i => (shdrAt tbl i).shAddr) = tbl := by
  apply List.ext_getElem?
  intro i
  rw [withAddrs_getElem?]
  cases h : tbl[i]? with
  | none => rfl
  | some shdr => simp [shdrAt, h]

theorem withAddrs_some (h : sizeAt tbl i ≠ 0) :
    (withAddrs tbl addr)[i]? = some { shdrAt tbl i with shAddr := addr i } := by
  rw [withAddrs_getElem?]
  cases hget : tbl[i]? with
  | none =>
      rw [sizeAt, shdrAt, hget] at h
      exact absurd rfl h
  | some shdr =>
      simp [shdrAt, hget]

theorem placeContent_of_empty {st : UnitState w} (hst : st.shdrs = withAddrs tbl addr)
    (h : sizeAt tbl i = 0) : st.placeContent i = st := by
  unfold UnitState.placeContent
  rw [hst, withAddrs_getElem?]
  cases hget : tbl[i]? with
  | none => rfl
  | some shdr =>
      have hzero : shdr.shSize = 0 := by
        rw [sizeAt, shdrAt, hget] at h
        exact BitVec.eq_of_toNat_eq (by simpa using h)
      simp [hzero]

theorem placeContent_of_nonempty {st : UnitState w} (hst : st.shdrs = withAddrs tbl addr)
    (h : sizeAt tbl i ≠ 0) :
    st.placeContent i =
      { shdrs := withAddrs tbl (Function.update addr i
          (roundup st.cursor.cur (shdrAt tbl i).shAddralign))
        cursor := ⟨st.cursor.start,
          roundup st.cursor.cur (shdrAt tbl i).shAddralign + (shdrAt tbl i).shSize⟩
        mapInfo := st.mapInfo ++
          [{ start := roundup st.cursor.cur (shdrAt tbl i).shAddralign - st.cursor.start
             filesz := (shdrAt tbl i).shSize
             offset := (shdrAt tbl i).shOffset }] } := by
  have hsize : (shdrAt tbl i).shSize ≠ 0 := by
    intro hzero
    apply h
    rw [sizeAt, hzero]
    exact BitVec.toNat_zero
  unfold UnitState.placeContent
  rw [hst, withAddrs_some h]
  simp only [hsize, if_false, setShAddr]
  rw [← withAddrs_modify (fun _ => roundup st.cursor.cur (shdrAt tbl i).shAddralign) i]
  rfl

theorem placeZero_eq {st : UnitState w} (hst : st.shdrs = withAddrs tbl addr)
    (h : i < tbl.length) :
    st.placeZero i =
      { shdrs := withAddrs tbl (Function.update addr i
          (roundup st.cursor.cur (shdrAt tbl i).shAddralign))
        cursor := ⟨st.cursor.start,
          roundup st.cursor.cur (shdrAt tbl i).shAddralign + (shdrAt tbl i).shSize⟩
        mapInfo := st.mapInfo } := by
  have hget : (withAddrs tbl addr)[i]? = some { shdrAt tbl i with shAddr := addr i } := by
    rw [withAddrs_getElem?, getElem?_eq_shdrAt h]
    rfl
  unfold UnitState.placeZero
  rw [hst, hget]
  simp only [setShAddr]
  rw [← withAddrs_modify (fun _ => roundup st.cursor.cur (shdrAt tbl i).shAddralign) i]
  rfl

end Table

/-! ## The cursor -/

/-- What is asked of a section header: its alignment is none or a power of two up
to the page size, and its file offset is aligned. -/
structure ElfShdr.Regular (shdr : ElfShdr w) : Prop where
  align : shdr.shAddralign = 0 ∨ ∃ k, k ≤ 12 ∧ shdr.shAddralign = BitVec.ofNat w (2 ^ k)
  offset : shdr.shAddralign ≠ 0 → shdr.shAddralign.toNat ∣ shdr.shOffset.toNat

/-- The sections with bytes. -/
def nonempty (tbl : List (ElfShdr w)) (is : List Nat) : List Nat :=
  is.filter fun i => sizeAt tbl i ≠ 0

/-- What is read from the file for a content section in a segment at `start`. -/
def infoAt (tbl : List (ElfShdr w)) (start : BitVec w) (addr : Nat → BitVec w) (i : Nat) :
    FileMapInfo w where
  start := addr i - start
  filesz := (shdrAt tbl i).shSize
  offset := (shdrAt tbl i).shOffset

section Cursor

variable {tbl : List (ElfShdr w)} {addr : Nat → BitVec w}

theorem shdrAt_regular (hreg : ∀ shdr ∈ tbl, shdr.Regular) (i : Nat) :
    (shdrAt tbl i).Regular := by
  cases h : tbl[i]? with
  | none =>
      rw [shdrAt, h]
      exact ⟨.inl rfl, fun hne => absurd rfl hne⟩
  | some shdr =>
      rw [shdrAt, h]
      exact hreg shdr (List.mem_of_getElem? h)

/-- From `st` to `st'` the cursor has moved over the sections `used`; of the
addresses only those of `is` may differ, and these sections are placed. -/
structure Advanced (tbl : List (ElfShdr w)) (st st' : UnitState w) (addr addr' : Nat → BitVec w)
    (is used : List Nat) : Prop where
  shdrs : st'.shdrs = withAddrs tbl addr'
  start : st'.cursor.start = st.cursor.start
  cur : st'.cursor.cur.toNat = stop (sizeAt tbl) (alignAt tbl) st.cursor.cur.toNat used
  frame : ∀ i, i ∉ is → addr' i = addr i
  placed : Placed (sizeAt tbl) (alignAt tbl) (fun i => (addr' i).toNat) is st.cursor.cur.toNat
    (stop (sizeAt tbl) (alignAt tbl) st.cursor.cur.toNat used)

theorem Advanced.refl {st : UnitState w} (hst : st.shdrs = withAddrs tbl addr) :
    Advanced tbl st st addr addr [] [] :=
  ⟨hst, rfl, rfl, fun _ _ => rfl, Placed.nil⟩

/-- A section without bytes may be passed over. -/
theorem Advanced.skip {st st' : UnitState w} {addr' : Nat → BitVec w} {i : Nat}
    {is used : List Nat} (hsize : sizeAt tbl i = 0)
    (h : Advanced tbl st st' addr addr' is used) :
    Advanced tbl st st' addr addr' (i :: is) used where
  shdrs := h.shdrs
  start := h.start
  cur := h.cur
  frame := fun j hj => h.frame j (fun hmem => hj (List.mem_cons_of_mem i hmem))
  placed := by
    have hhead : Placed (sizeAt tbl) (alignAt tbl) (fun i => (addr' i).toNat) [i]
        st.cursor.cur.toNat st.cursor.cur.toNat :=
      Placed.singleton (fun hne => absurd hsize hne) (fun hne => absurd hsize hne)
    exact hhead.append h.placed (Nat.le_refl _) (le_stop _ _ _ _)

variable [WordSize w]

theorem two_pow_lt_word {k : Nat} (hk : k ≤ 12) : 2 ^ k < 2 ^ w := by
  have hpage := WordSize.page_lt w
  exact Nat.pow_lt_pow_right (by omega) (by omega)

theorem roundup_toNat {x align : BitVec w}
    (halign : align = 0 ∨ ∃ k, k ≤ 12 ∧ align = BitVec.ofNat w (2 ^ k))
    (hfit : up x.toNat align.toNat < 2 ^ w) :
    (roundup x align).toNat = up x.toNat align.toNat := by
  rcases halign with rfl | ⟨k, hk, rfl⟩
  · have hzero : (0 : BitVec w).toNat = 0 := BitVec.toNat_zero
    rw [roundup, if_pos rfl, hzero, up, if_pos rfl]
  · have hlt := two_pow_lt_word (w := w) hk
    have hpos := Nat.two_pow_pos k
    have hval : (BitVec.ofNat w (2 ^ k)).toNat = 2 ^ k := by
      rw [BitVec.toNat_ofNat, Nat.mod_eq_of_lt hlt]
    have hne : BitVec.ofNat w (2 ^ k) ≠ 0 := by
      intro h
      have hzero := congrArg BitVec.toNat h
      rw [hval] at hzero
      simp at hzero
    have hpage := WordSize.page_lt w
    have hgap := Align.up_sub_toNat (by omega : k < w) x
    rw [hval, up, if_neg (by omega)] at hfit ⊢
    rw [roundup, if_neg hne]
    have hsplit : Align.up x (BitVec.ofNat w (2 ^ k)) =
        x + (Align.up x (BitVec.ofNat w (2 ^ k)) - x) := by grind
    rw [hsplit, BitVec.toNat_add, hgap, Nat.mod_eq_of_lt hfit]

/-- Where the next section goes and where the cursor is after it. -/
theorem place_toNat {shdr : ElfShdr w} (hreg : shdr.Regular) {cur : BitVec w}
    (hfit : up cur.toNat shdr.shAddralign.toNat + shdr.shSize.toNat < 2 ^ w) :
    (roundup cur shdr.shAddralign).toNat = up cur.toNat shdr.shAddralign.toNat ∧
      (roundup cur shdr.shAddralign + shdr.shSize).toNat =
        up cur.toNat shdr.shAddralign.toNat + shdr.shSize.toNat := by
  have hround := roundup_toNat (x := cur) hreg.align (by omega)
  refine ⟨hround, ?_⟩
  rw [BitVec.toNat_add_of_lt (by rwa [hround]), hround]

/-- One section is placed at the rounded cursor. -/
theorem Advanced.cons {st st₁ st' : UnitState w} {addr' : Nat → BitVec w} {i : Nat}
    {is used : List Nat} (hreg : (shdrAt tbl i).Regular) (hi : i ∉ is)
    (hfit : up st.cursor.cur.toNat (alignAt tbl i) + sizeAt tbl i < 2 ^ w)
    (hcursor : st₁.cursor = ⟨st.cursor.start,
      roundup st.cursor.cur (shdrAt tbl i).shAddralign + (shdrAt tbl i).shSize⟩)
    (h : Advanced tbl st₁ st'
      (Function.update addr i (roundup st.cursor.cur (shdrAt tbl i).shAddralign)) addr' is used) :
    Advanced tbl st st' addr addr' (i :: is) (i :: used) := by
  obtain ⟨hat, hnext⟩ := place_toNat hreg hfit
  have hcur : st₁.cursor.cur.toNat =
      up st.cursor.cur.toNat (alignAt tbl i) + sizeAt tbl i := by
    rw [hcursor]
    exact hnext
  have haddr : (addr' i).toNat = up st.cursor.cur.toNat (alignAt tbl i) := by
    rw [h.frame i hi, Function.update_self]
    exact hat
  have hmove := h.cur
  have hplaced := h.placed
  rw [hcur] at hmove hplaced
  refine ⟨h.shdrs, h.start.trans (by rw [hcursor]), hmove, fun j hj => ?_, ?_⟩
  · rw [List.mem_cons, not_or] at hj
    rw [h.frame j hj.2, Function.update_of_ne hj.1]
  · have hhead : Placed (sizeAt tbl) (alignAt tbl) (fun i => (addr' i).toNat) [i]
        st.cursor.cur.toNat (up st.cursor.cur.toNat (alignAt tbl i) + sizeAt tbl i) := by
      refine Placed.singleton (fun _ => ?_) (fun _ halign => ?_)
      · have hle := le_up st.cursor.cur.toNat (alignAt tbl i)
        rw [haddr]
        omega
      · rw [haddr]
        exact dvd_up _ halign
    have hle := le_up st.cursor.cur.toNat (alignAt tbl i)
    exact hhead.append hplaced (by omega) (le_stop _ _ _ _)

/-- The loop over the content sections. -/
theorem placeContent_foldl (hreg : ∀ i, (shdrAt tbl i).Regular) {is : List Nat}
    (hnodup : is.Nodup) {st : UnitState w} (hst : st.shdrs = withAddrs tbl addr)
    (hfit : stop (sizeAt tbl) (alignAt tbl) st.cursor.cur.toNat (nonempty tbl is) < 2 ^ w) :
    ∃ addr',
      Advanced tbl st (is.foldl UnitState.placeContent st) addr addr' is (nonempty tbl is) ∧
      (is.foldl UnitState.placeContent st).mapInfo =
        st.mapInfo ++ (nonempty tbl is).map (infoAt tbl st.cursor.start addr') := by
  induction is generalizing st addr with
  | nil => exact ⟨addr, Advanced.refl hst, (List.append_nil _).symm⟩
  | cons i is ih =>
      obtain ⟨hi, hnodup'⟩ := List.nodup_cons.mp hnodup
      rw [List.foldl_cons]
      by_cases hsize : sizeAt tbl i = 0
      · have hskip : nonempty tbl (i :: is) = nonempty tbl is :=
          List.filter_cons_of_neg (by simpa using hsize)
        rw [hskip] at hfit ⊢
        rw [placeContent_of_empty hst hsize]
        obtain ⟨addr', hmoved, hinfo⟩ := ih hnodup' hst hfit
        exact ⟨addr', hmoved.skip hsize, hinfo⟩
      · have hkeep : nonempty tbl (i :: is) = i :: nonempty tbl is :=
          List.filter_cons_of_pos (by simpa using hsize)
        rw [hkeep, stop] at hfit
        have hle := le_stop (sizeAt tbl) (alignAt tbl)
          (up st.cursor.cur.toNat (alignAt tbl i) + sizeAt tbl i) (nonempty tbl is)
        have hroom := Nat.lt_of_le_of_lt hle hfit
        have hnext := (place_toNat (hreg i) hroom).2
        have hstep := placeContent_of_nonempty hst hsize
        have hfit₁ : stop (sizeAt tbl) (alignAt tbl) (st.placeContent i).cursor.cur.toNat
            (nonempty tbl is) < 2 ^ w := by
          rw [hstep]
          change stop _ _ (roundup st.cursor.cur _ + (shdrAt tbl i).shSize).toNat _ < _
          rw [hnext]
          exact hfit
        obtain ⟨addr', hmoved, hinfo⟩ := ih hnodup' (congrArg UnitState.shdrs hstep) hfit₁
        refine ⟨addr', ?_, ?_⟩
        · rw [hkeep]
          exact Advanced.cons (hreg i) hi hroom (congrArg UnitState.cursor hstep) hmoved
        · have hat := hmoved.frame i hi
          rw [Function.update_self] at hat
          rw [hinfo, hkeep, hstep, List.map_cons, List.append_assoc, List.singleton_append,
            infoAt, hat]

/-- The loop over the zero-initialised sections. -/
theorem placeZero_foldl (hreg : ∀ i, (shdrAt tbl i).Regular) {is : List Nat}
    (hnodup : is.Nodup) (hlt : ∀ i ∈ is, i < tbl.length) {st : UnitState w}
    (hst : st.shdrs = withAddrs tbl addr)
    (hfit : stop (sizeAt tbl) (alignAt tbl) st.cursor.cur.toNat is < 2 ^ w) :
    ∃ addr', Advanced tbl st (is.foldl UnitState.placeZero st) addr addr' is is ∧
      (is.foldl UnitState.placeZero st).mapInfo = st.mapInfo := by
  induction is generalizing st addr with
  | nil => exact ⟨addr, Advanced.refl hst, rfl⟩
  | cons i is ih =>
      obtain ⟨hi, hnodup'⟩ := List.nodup_cons.mp hnodup
      obtain ⟨hlen, hlt'⟩ := List.forall_mem_cons.mp hlt
      rw [List.foldl_cons]
      rw [stop] at hfit
      have hle := le_stop (sizeAt tbl) (alignAt tbl)
        (up st.cursor.cur.toNat (alignAt tbl i) + sizeAt tbl i) is
      have hroom := Nat.lt_of_le_of_lt hle hfit
      have hnext := (place_toNat (hreg i) hroom).2
      have hstep := placeZero_eq hst hlen
      have hfit₁ : stop (sizeAt tbl) (alignAt tbl) (st.placeZero i).cursor.cur.toNat is <
          2 ^ w := by
        rw [hstep]
        change stop _ _ (roundup st.cursor.cur _ + (shdrAt tbl i).shSize).toNat _ < _
        rw [hnext]
        exact hfit
      obtain ⟨addr', hmoved, hinfo⟩ := ih hnodup' hlt' (congrArg UnitState.shdrs hstep) hfit₁
      refine ⟨addr', ?_, ?_⟩
      · exact Advanced.cons (hreg i) hi hroom (congrArg UnitState.cursor hstep) hmoved
      · rw [hinfo, hstep]

end Cursor

/-! ## One unit -/

namespace SectionUnit

/-- The residue by which a single content section is moved. -/
def shift (unit : SectionUnit) (tbl : List (ElfShdr w)) : Nat :=
  match nonempty tbl unit.contentSections with
  | [j] => (shdrAt tbl j).shOffset.toNat % 2 ^ 12
  | _ => 0

/-- Where the content of a unit that starts at `start` ends, without a largest
address. -/
def contentEnd (unit : SectionUnit) (tbl : List (ElfShdr w)) (start : Nat) : Nat :=
  stop (sizeAt tbl) (alignAt tbl) start (nonempty tbl unit.contentSections) + unit.shift tbl

def zeroEnd (unit : SectionUnit) (tbl : List (ElfShdr w)) (start : Nat) : Nat :=
  stop (sizeAt tbl) (alignAt tbl) (unit.contentEnd tbl start) unit.zeroSectons

/-- Where the next unit starts. -/
def next (unit : SectionUnit) (tbl : List (ElfShdr w)) (start : Nat) : Nat :=
  start + pageLen (unit.zeroEnd tbl start - start)

/-- The map entries of a unit at `start`. A single content section is read from
the start of its page; its header is moved when it is the first one at its file
offset. -/
def MapsContent (unit : SectionUnit) (tbl : List (ElfShdr w)) (start : BitVec w)
    (addr : Nat → BitVec w) (mapInfo : List (FileMapInfo w)) : Prop :=
  match nonempty tbl unit.contentSections with
  | [j] =>
      mapInfo = [{
        start := 0
        filesz := (shdrAt tbl j).shSize + BitVec.ofNat w (unit.shift tbl)
        offset := rounddown (shdrAt tbl j).shOffset (pageSize w) }] ∧
      addr j = start + BitVec.ofNat w
        (if UnitState.findOffset tbl unit.contentSections (shdrAt tbl j).shOffset = some j
          then unit.shift tbl else 0)
  | js => mapInfo = js.map (infoAt tbl start addr)

end SectionUnit

section Unit

variable {tbl : List (ElfShdr w)} {addr : Nat → BitVec w} {unit : SectionUnit}

theorem mem_nonempty {is : List Nat} {i : Nat} :
    i ∈ nonempty tbl is ↔ i ∈ is ∧ sizeAt tbl i ≠ 0 := by
  simp [nonempty]

theorem alignSingle_of_one {content : List Nat} {st : UnitState w} {info : FileMapInfo w} {i : Nat}
    (hinfo : st.mapInfo = [info])
    (hfind : UnitState.findOffset st.shdrs content info.offset = some i) :
    st.alignSingle content =
      { shdrs := st.shdrs.modify i fun shdr =>
          { shdr with shAddr := shdr.shAddr + (info.offset - rounddown info.offset (pageSize w)) }
        cursor := st.cursor.add (info.offset - rounddown info.offset (pageSize w))
        mapInfo := [{ info with
          filesz := info.filesz + (info.offset - rounddown info.offset (pageSize w))
          offset := rounddown info.offset (pageSize w) }] } := by
  simp only [UnitState.alignSingle, hinfo, hfind]

theorem alignSingle_of_not_one {content : List Nat} {st : UnitState w}
    (hinfo : st.mapInfo.length ≠ 1) : st.alignSingle content = st := by
  unfold UnitState.alignSingle
  split
  · rename_i info hone
    rw [hone] at hinfo
    exact absurd rfl hinfo
  · rfl

theorem findOffset_withAddrs (content : List Nat) (offset : BitVec w) :
    UnitState.findOffset (withAddrs tbl addr) content offset =
      UnitState.findOffset tbl content offset := by
  unfold UnitState.findOffset
  congr 1
  funext i
  rw [withAddrs_getElem?]
  cases tbl[i]? with
  | none => rfl
  | some shdr => rfl

/-- The header of the single content section, or an empty one before it. -/
theorem findOffset_isSome {content : List Nat} {j : Nat} (hj : j ∈ content)
    (hsize : sizeAt tbl j ≠ 0) :
    ∃ i ∈ content, UnitState.findOffset tbl content (shdrAt tbl j).shOffset = some i := by
  have hat : tbl[j]?.any (fun shdr => shdr.shOffset == (shdrAt tbl j).shOffset) = true := by
    cases hget : tbl[j]? with
    | none =>
        rw [sizeAt, shdrAt, hget] at hsize
        exact absurd rfl hsize
    | some shdr => simp [shdrAt, hget]
  have hsome : (UnitState.findOffset tbl content (shdrAt tbl j).shOffset).isSome := by
    rw [UnitState.findOffset, List.find?_isSome]
    exact ⟨j, hj, hat⟩
  obtain ⟨i, hi⟩ := Option.isSome_iff_exists.mp hsome
  exact ⟨i, List.mem_of_find?_eq_some hi, hi⟩

/-- The addresses of a unit's sections: the content behind its start, then the
zero-initialised sections. -/
structure UnitLayout (tbl : List (ElfShdr w)) (unit : SectionUnit) (start : Nat)
    (addr : Nat → BitVec w) : Prop where
  content : Placed (sizeAt tbl) (alignAt tbl) (fun i => (addr i).toNat) unit.contentSections
    start (unit.contentEnd tbl start)
  zero : Placed (sizeAt tbl) (alignAt tbl) (fun i => (addr i).toNat) unit.zeroSectons
    (unit.contentEnd tbl start) (unit.zeroEnd tbl start)

/-- The segment of a unit at `start`. -/
structure UnitSegment (tbl : List (ElfShdr w)) (unit : SectionUnit) (start : BitVec w)
    (addr : Nat → BitVec w) (seg : ElfSegment w) : Prop where
  at_start : seg.addr = .relative start
  len : seg.len.toNat = pageLen (unit.zeroEnd tbl start.toNat - start.toNat)
  contentSize : seg.contentSize.toNat = unit.contentEnd tbl start.toNat - start.toNat
  zeroSize : seg.zeroSize.toNat =
    unit.zeroEnd tbl start.toNat - unit.contentEnd tbl start.toNat
  mapInfo : unit.MapsContent tbl start addr seg.mapInfo
  prot : ∃ i, (i ∈ unit.contentSections ∨ i ∈ unit.zeroSectons) ∧
    seg.prot = sectionProt (shdrAt tbl i).shFlags

/-- The positions of a unit: within the table, and each held once. -/
structure SectionUnit.Valid (unit : SectionUnit) (tbl : List (ElfShdr w)) : Prop where
  content_lt : ∀ i ∈ unit.contentSections, i < tbl.length
  zero_lt : ∀ i ∈ unit.zeroSectons, i < tbl.length
  content_nodup : unit.contentSections.Nodup
  zero_nodup : unit.zeroSectons.Nodup
  disjoint : ∀ i ∈ unit.contentSections, i ∉ unit.zeroSectons

theorem start_le_contentEnd (tbl : List (ElfShdr w)) (unit : SectionUnit) (start : Nat) :
    start ≤ unit.contentEnd tbl start :=
  Nat.le_trans (le_stop _ _ _ _) (Nat.le_add_right _ _)

theorem contentEnd_le_zeroEnd (tbl : List (ElfShdr w)) (unit : SectionUnit) (start : Nat) :
    unit.contentEnd tbl start ≤ unit.zeroEnd tbl start := le_stop _ _ _ _

theorem zeroEnd_le_next (tbl : List (ElfShdr w)) (unit : SectionUnit) (start : Nat) :
    unit.zeroEnd tbl start ≤ unit.next tbl start := by
  unfold SectionUnit.next pageLen
  omega

theorem next_of_zeroEnd {start : Nat} (h : unit.zeroEnd tbl start = start) :
    unit.next tbl start = start := by
  rw [SectionUnit.next, h, Nat.sub_self]
  rfl

/-- A unit without sections. -/
theorem next_of_empty (tbl : List (ElfShdr w)) (hcontent : unit.contentSections = [])
    (hzero : unit.zeroSectons = []) (start : Nat) :
    unit.contentEnd tbl start = start ∧ unit.zeroEnd tbl start = start := by
  have hend : unit.contentEnd tbl start = start := by
    simp [SectionUnit.contentEnd, SectionUnit.shift, nonempty, hcontent, stop]
  refine ⟨hend, ?_⟩
  rw [SectionUnit.zeroEnd, hend, hzero, stop]

theorem MapsContent.congr {start : BitVec w} {addr' : Nat → BitVec w}
    {mapInfo : List (FileMapInfo w)} (h : unit.MapsContent tbl start addr mapInfo)
    (heq : ∀ i ∈ unit.contentSections, addr' i = addr i) :
    unit.MapsContent tbl start addr' mapInfo := by
  have hmem : ∀ i ∈ nonempty tbl unit.contentSections, addr' i = addr i :=
    fun i hi => heq i (mem_nonempty.mp hi).1
  unfold SectionUnit.MapsContent at h ⊢
  split at h
  · rename_i j hlist
    rw [hlist] at hmem
    rw [hmem j (List.mem_singleton_self j)]
    exact h
  · rename_i js hother
    rw [h]
    apply List.map_congr_left
    intro i hi
    rw [infoAt, infoAt, hmem i hi]

theorem unit_empty (hunit : unit.Valid tbl)
    (h : (unit.contentSections.head?.or unit.zeroSectons.head?).bind
      ((withAddrs tbl addr)[·]?) = none) :
    unit.contentSections = [] ∧ unit.zeroSectons = [] := by
  have hget : ∀ i, i < tbl.length → (withAddrs tbl addr)[i]? ≠ none := by
    intro i hi hnone
    rw [withAddrs_getElem?, List.getElem?_eq_getElem hi] at hnone
    cases hnone
  cases hcontent : unit.contentSections with
  | cons i is =>
      rw [hcontent] at h
      exact absurd h (hget i (hunit.content_lt i (by rw [hcontent]; exact List.mem_cons_self)))
  | nil =>
      cases hzero : unit.zeroSectons with
      | cons i is =>
          rw [hcontent, hzero] at h
          exact absurd h (hget i (hunit.zero_lt i (by rw [hzero]; exact List.mem_cons_self)))
      | nil => exact ⟨rfl, rfl⟩

/-- The section whose flags a segment takes. -/
theorem unit_first {first : ElfShdr w}
    (h : (unit.contentSections.head?.or unit.zeroSectons.head?).bind
      ((withAddrs tbl addr)[·]?) = some first) :
    ∃ i, (i ∈ unit.contentSections ∨ i ∈ unit.zeroSectons) ∧
      sectionProt first.shFlags = sectionProt (shdrAt tbl i).shFlags := by
  obtain ⟨i, hi, hget⟩ := Option.bind_eq_some_iff.mp h
  rw [withAddrs_getElem?] at hget
  obtain ⟨shdr, hat, rfl⟩ := Option.map_eq_some_iff.mp hget
  refine ⟨i, ?_, ?_⟩
  · rcases Option.or_eq_some_iff.mp hi with hhead | ⟨-, hhead⟩
    · exact .inl (List.mem_of_mem_head? hhead)
    · exact .inr (List.mem_of_mem_head? hhead)
  · rw [shdrAt, hat]
    rfl

variable [WordSize w]

/-- The single content section stands where its unit starts. -/
theorem up_page (hreg : ∀ i, (shdrAt tbl i).Regular) {S : Nat} (hpage : S % 2 ^ 12 = 0)
    (j : Nat) :
    up S (alignAt tbl j) = S := by
  apply up_of_dvd
  intro hne
  rcases (hreg j).align with hzero | ⟨k, hk, hpow⟩
  · rw [alignAt, hzero] at hne
    exact absurd BitVec.toNat_zero hne
  · rw [alignAt, hpow, BitVec.toNat_ofNat, Nat.mod_eq_of_lt (two_pow_lt_word hk)]
    exact Nat.dvd_trans (Nat.pow_dvd_pow 2 hk) (Nat.dvd_of_mod_eq_zero hpage)

/-- After the move by the residue of its file offset a section is still aligned. -/
theorem align_dvd_shift (hreg : ∀ i, (shdrAt tbl i).Regular) {j : Nat} (hne : alignAt tbl j ≠ 0) :
    alignAt tbl j ∣ (shdrAt tbl j).shOffset.toNat % 2 ^ 12 := by
  have hnot : (shdrAt tbl j).shAddralign ≠ 0 := by
    intro hzero
    rw [alignAt, hzero] at hne
    exact hne BitVec.toNat_zero
  have hoffset := (hreg j).offset hnot
  rcases (hreg j).align with hzero | ⟨k, hk, hpow⟩
  · exact absurd hzero hnot
  · have hval : alignAt tbl j = 2 ^ k := by
      rw [alignAt, hpow, BitVec.toNat_ofNat, Nat.mod_eq_of_lt (two_pow_lt_word hk)]
    rw [← alignAt, hval] at hoffset
    rw [hval]
    exact (Nat.dvd_mod_iff (Nat.pow_dvd_pow 2 hk)).mpr hoffset

/-- The header of the only section with bytes stays at the start, or moves by the
residue of its file offset; it is aligned in both cases. -/
theorem placed_one (hreg : ∀ i, (shdrAt tbl i).Regular) {offset : BitVec w}
    (hpage : PageAligned offset) {j : Nat} (hone : nonempty tbl unit.contentSections = [j])
    {addr' : Nat → BitVec w} {d : Nat} (hat : (addr' j).toNat = offset.toNat + d)
    (hd : d = unit.shift tbl ∨ d = 0) :
    Placed (sizeAt tbl) (alignAt tbl) (fun i => (addr' i).toNat) unit.contentSections
      offset.toNat (offset.toNat + sizeAt tbl j + unit.shift tbl) := by
  refine Placed.of_one (j := j) (fun k hk hne => ?_) (fun _ => ?_) (fun _ halign => ?_)
  · have hmem := mem_nonempty.mpr ⟨hk, hne⟩
    rw [hone] at hmem
    exact List.mem_singleton.mp hmem
  · rw [hat]
    omega
  · rw [hat]
    have hstart : alignAt tbl j ∣ offset.toNat := by
      have hdvd := dvd_up offset.toNat halign
      rwa [up_page hreg hpage j] at hdvd
    have hmove : alignAt tbl j ∣ d := by
      rcases hd with rfl | rfl
      · rw [SectionUnit.shift, hone]
        exact align_dvd_shift hreg halign
      · exact Nat.dvd_zero _
    exact Nat.dvd_add hstart hmove

/-- The unit's content when a single section has bytes. -/
theorem placeContents_one (hreg : ∀ i, (shdrAt tbl i).Regular) {offset : BitVec w}
    (hpage : PageAligned offset) {j : Nat} (hone : nonempty tbl unit.contentSections = [j])
    {st : UnitState w} {addr₁ : Nat → BitVec w} (hstart : st.cursor.start = offset)
    (hcur : st.cursor.cur.toNat = offset.toNat + sizeAt tbl j)
    (hshdrs : st.shdrs = withAddrs tbl addr₁) (haddr : addr₁ j = offset)
    (hframe : ∀ i, i ∉ unit.contentSections → addr₁ i = addr i)
    (hinfo : st.mapInfo = [infoAt tbl offset addr₁ j])
    (hfit : offset.toNat + sizeAt tbl j + unit.shift tbl < 2 ^ w) :
    ∃ addr', (st.alignSingle unit.contentSections).shdrs = withAddrs tbl addr' ∧
      (st.alignSingle unit.contentSections).cursor.start = offset ∧
      (st.alignSingle unit.contentSections).cursor.cur.toNat =
        offset.toNat + sizeAt tbl j + unit.shift tbl ∧
      (∀ i, i ∉ unit.contentSections → addr' i = addr i) ∧
      Placed (sizeAt tbl) (alignAt tbl) (fun i => (addr' i).toNat) unit.contentSections
        offset.toNat (offset.toNat + sizeAt tbl j + unit.shift tbl) ∧
      unit.MapsContent tbl offset addr' (st.alignSingle unit.contentSections).mapInfo := by
  have hj : j ∈ unit.contentSections ∧ sizeAt tbl j ≠ 0 := by
    rw [← mem_nonempty, hone]
    exact List.mem_singleton_self j
  have hshift : unit.shift tbl = (shdrAt tbl j).shOffset.toNat % 2 ^ 12 := by
    rw [SectionUnit.shift, hone]
  have hlen : (infoAt tbl offset addr₁ j).offset -
      rounddown (infoAt tbl offset addr₁ j).offset (pageSize w) =
        BitVec.ofNat w (unit.shift tbl) := by
    rw [rounddown_page_sub, hshift]
    rfl
  have hshiftNat : (BitVec.ofNat w (unit.shift tbl)).toNat = unit.shift tbl := by
    rw [BitVec.toNat_ofNat, Nat.mod_eq_of_lt (by omega)]
  obtain ⟨i, hi, hfind⟩ := findOffset_isSome hj.1 hj.2
  have hfind' : UnitState.findOffset st.shdrs unit.contentSections
      (infoAt tbl offset addr₁ j).offset = some i := by
    rw [hshdrs, findOffset_withAddrs]
    exact hfind
  have hstep := alignSingle_of_one hinfo hfind'
  rw [hlen] at hstep
  have hsize : offset.toNat + sizeAt tbl j < 2 ^ w := by omega
  -- the section itself has moved, or an empty one in its place
  obtain ⟨d, hd, hat, hcases⟩ : ∃ d, d = (if some i = some j then unit.shift tbl else 0) ∧
      Function.update addr₁ i (addr₁ i + BitVec.ofNat w (unit.shift tbl)) j =
        offset + BitVec.ofNat w d ∧ (d = unit.shift tbl ∨ d = 0) := by
    by_cases hij : i = j
    · refine ⟨unit.shift tbl, (if_pos (by rw [hij])).symm, ?_, .inl rfl⟩
      rw [hij, Function.update_self, haddr]
    · refine ⟨0, (if_neg (fun h => hij (Option.some.inj h))).symm, ?_, .inr rfl⟩
      rw [Function.update_of_ne (Ne.symm hij), haddr]
      exact (BitVec.add_zero offset).symm
  have hatNat : (offset + BitVec.ofNat w d).toNat = offset.toNat + d := by
    rw [BitVec.toNat_add, BitVec.toNat_ofNat, Nat.add_mod_mod]
    exact Nat.mod_eq_of_lt (by omega)
  rw [hstep]
  refine ⟨Function.update addr₁ i (addr₁ i + BitVec.ofNat w (unit.shift tbl)), ?_, hstart, ?_,
    fun k hk => ?_, ?_, ?_⟩
  · rw [hshdrs]
    exact withAddrs_modify (fun a => a + BitVec.ofNat w (unit.shift tbl)) i
  · change (st.cursor.cur + BitVec.ofNat w (unit.shift tbl)).toNat = _
    rw [BitVec.toNat_add_of_lt (by rw [hcur, hshiftNat]; exact hfit), hcur, hshiftNat]
  · have hne : k ≠ i := fun h => hk (h ▸ hi)
    rw [Function.update_of_ne hne, hframe k hk]
  · exact placed_one hreg hpage hone ((congrArg BitVec.toNat hat).trans hatNat) hcases
  · rw [SectionUnit.MapsContent, hone]
    refine ⟨?_, ?_⟩
    · have hzero : (infoAt tbl offset addr₁ j).start = 0 := by
        rw [infoAt, haddr]
        exact BitVec.sub_self offset
      rw [hzero]
      rfl
    · rw [hfind, ← hd]
      exact hat

theorem placeContents_spec (hreg : ∀ i, (shdrAt tbl i).Regular)
    (hnodup : unit.contentSections.Nodup) {offset : BitVec w} (hpage : PageAligned offset)
    (hfit : unit.contentEnd tbl offset.toNat < 2 ^ w) :
    ∃ addr', (unit.placeContents (withAddrs tbl addr) offset).shdrs = withAddrs tbl addr' ∧
      (unit.placeContents (withAddrs tbl addr) offset).cursor.start = offset ∧
      (unit.placeContents (withAddrs tbl addr) offset).cursor.cur.toNat =
        unit.contentEnd tbl offset.toNat ∧
      (∀ i, i ∉ unit.contentSections → addr' i = addr i) ∧
      Placed (sizeAt tbl) (alignAt tbl) (fun i => (addr' i).toNat) unit.contentSections
        offset.toNat (unit.contentEnd tbl offset.toNat) ∧
      unit.MapsContent tbl offset addr'
        (unit.placeContents (withAddrs tbl addr) offset).mapInfo := by
  have hst : (UnitState.mk (withAddrs tbl addr) (Cursor.new offset) []).shdrs =
      withAddrs tbl addr := rfl
  unfold SectionUnit.contentEnd at hfit ⊢
  unfold SectionUnit.placeContents
  obtain ⟨addr₁, hmoved, hinfo⟩ := placeContent_foldl hreg hnodup hst
    (Nat.lt_of_le_of_lt (Nat.le_add_right _ _) hfit)
  have hcur := hmoved.cur
  have hplaced := hmoved.placed
  -- without a single content section nothing is aligned
  have hother : (nonempty tbl unit.contentSections).length ≠ 1 →
      unit.shift tbl = 0 ∧ (unit.contentSections.foldl UnitState.placeContent
        (UnitState.mk (withAddrs tbl addr) (Cursor.new offset) [])).alignSingle
          unit.contentSections = unit.contentSections.foldl UnitState.placeContent
        (UnitState.mk (withAddrs tbl addr) (Cursor.new offset) []) := by
    intro hne
    constructor
    · unfold SectionUnit.shift
      split
      · rename_i j hlist
        rw [hlist] at hne
        exact absurd rfl hne
      · rfl
    · apply alignSingle_of_not_one
      rw [hinfo, List.nil_append, List.length_map]
      exact hne
  by_cases hone : (nonempty tbl unit.contentSections).length = 1
  · obtain ⟨j, hlist⟩ := List.length_eq_one_iff.mp hone
    have hmem : j ∈ unit.contentSections ∧ sizeAt tbl j ≠ 0 := by
      rw [← mem_nonempty, hlist]
      exact List.mem_singleton_self j
    have hstop : stop (sizeAt tbl) (alignAt tbl) offset.toNat
        (nonempty tbl unit.contentSections) = offset.toNat + sizeAt tbl j := by
      rw [hlist, stop, up_page hreg hpage j, stop]
    change (_ : UnitState w).cursor.cur.toNat = stop _ _ offset.toNat _ at hcur
    change Placed _ _ _ _ offset.toNat (stop _ _ offset.toNat _) at hplaced
    rw [hstop] at hfit hcur hplaced ⊢
    have haddr : addr₁ j = offset := by
      have hin := hplaced.inside j hmem.1 hmem.2
      exact BitVec.eq_of_toNat_eq (by omega)
    rw [hlist] at hinfo
    exact placeContents_one hreg hpage hlist hmoved.start hcur hmoved.shdrs haddr hmoved.frame
      hinfo hfit
  · obtain ⟨hshift, hsame⟩ := hother hone
    rw [hsame, hshift, Nat.add_zero]
    refine ⟨addr₁, hmoved.shdrs, hmoved.start, hcur, hmoved.frame, hplaced, ?_⟩
    unfold SectionUnit.MapsContent
    rw [hinfo, List.nil_append]
    split
    · rename_i j hlist
      rw [hlist] at hone
      exact absurd rfl hone
    · rfl

/-- Both loops of `create_segment`. -/
theorem placeUnit_spec (addr : Nat → BitVec w) (hreg : ∀ i, (shdrAt tbl i).Regular)
    (hunit : unit.Valid tbl) {offset : BitVec w} (hpage : PageAligned offset)
    (hfit : unit.zeroEnd tbl offset.toNat < 2 ^ w) {content st : UnitState w}
    (hcontent : content = unit.placeContents (withAddrs tbl addr) offset)
    (hst : st = unit.zeroSectons.foldl UnitState.placeZero content) :
    ∃ addr', st.shdrs = withAddrs tbl addr' ∧
      content.cursor.curOffset.toNat = unit.contentEnd tbl offset.toNat - offset.toNat ∧
      st.cursor.curOffset.toNat = unit.zeroEnd tbl offset.toNat - offset.toNat ∧
      (∀ i, i ∉ unit.contentSections → i ∉ unit.zeroSectons → addr' i = addr i) ∧
      UnitLayout tbl unit offset.toNat addr' ∧ unit.MapsContent tbl offset addr' st.mapInfo := by
  have hle := start_le_contentEnd tbl unit offset.toNat
  have hle' := contentEnd_le_zeroEnd tbl unit offset.toNat
  obtain ⟨addr₁, hshdrs₁, hstart₁, hcur₁, hframe₁, hplaced₁, hmaps₁⟩ :=
    placeContents_spec hreg hunit.content_nodup hpage (Nat.lt_of_le_of_lt hle' hfit)
  rw [← hcontent] at hshdrs₁ hstart₁ hcur₁ hmaps₁
  obtain ⟨addr', hmoved, hinfo⟩ := placeZero_foldl hreg hunit.zero_nodup hunit.zero_lt hshdrs₁
    (by rw [hcur₁]; exact hfit)
  rw [← hst] at hmoved hinfo
  have hcur := hmoved.cur
  have hplaced := hmoved.placed
  rw [hcur₁] at hcur hplaced
  have hsame : ∀ i ∈ unit.contentSections, addr' i = addr₁ i :=
    fun i hi => hmoved.frame i (hunit.disjoint i hi)
  refine ⟨addr', hmoved.shdrs, ?_, ?_, fun i hi hi' => ?_, ⟨?_, hplaced⟩, ?_⟩
  · rw [Cursor.curOffset, hstart₁, BitVec.toNat_sub_of_le (by rw [BitVec.le_def]; omega), hcur₁]
  · have hcurE : st.cursor.cur.toNat = unit.zeroEnd tbl offset.toNat := hcur
    rw [Cursor.curOffset, hmoved.start, hstart₁,
      BitVec.toNat_sub_of_le (by rw [BitVec.le_def]; omega), hcurE]
  · rw [hmoved.frame i hi', hframe₁ i hi]
  · exact hplaced₁.congr (fun i hi => congrArg BitVec.toNat (hsame i hi))
  · rw [hinfo]
    exact MapsContent.congr hmaps₁ hsame

theorem createSegment_spec (addr : Nat → BitVec w) (hreg : ∀ i, (shdrAt tbl i).Regular)
    (hunit : unit.Valid tbl) {offset : BitVec w} (hpage : PageAligned offset)
    (hfit : unit.next tbl offset.toNat < 2 ^ w) :
    ∃ addr', (unit.createSegment (withAddrs tbl addr) offset).2.1 = withAddrs tbl addr' ∧
      (unit.createSegment (withAddrs tbl addr) offset).2.2.toNat = unit.next tbl offset.toNat ∧
      (∀ i, i ∉ unit.contentSections → i ∉ unit.zeroSectons → addr' i = addr i) ∧
      UnitLayout tbl unit offset.toNat addr' ∧
      ((unit.createSegment (withAddrs tbl addr) offset).1 = none ∧
          unit.zeroEnd tbl offset.toNat = offset.toNat ∨
        ∃ seg, (unit.createSegment (withAddrs tbl addr) offset).1 = some seg ∧
          UnitSegment tbl unit offset addr' seg) := by
  have hle := start_le_contentEnd tbl unit offset.toNat
  have hle' := contentEnd_le_zeroEnd tbl unit offset.toNat
  have hle'' := zeroEnd_le_next tbl unit offset.toNat
  obtain ⟨addr', hshdrs, hcontent, hzero, hframe, hlayout, hmaps⟩ :=
    placeUnit_spec addr hreg hunit hpage (Nat.lt_of_le_of_lt hle'' hfit) rfl rfl
  unfold SectionUnit.createSegment
  cases hfirst : (unit.contentSections.head?.or unit.zeroSectons.head?).bind
      ((withAddrs tbl addr)[·]?) with
  | none =>
      obtain ⟨hnil, hnil'⟩ := unit_empty hunit hfirst
      obtain ⟨-, hend⟩ := next_of_empty tbl hnil hnil' offset.toNat
      refine ⟨addr, rfl, ?_, fun _ _ _ => rfl, ⟨?_, ?_⟩, .inl ⟨rfl, hend⟩⟩
      · rw [next_of_zeroEnd hend]
      · rw [hnil]
        exact Placed.nil
      · rw [hnil']
        exact Placed.nil
  | some first =>
      dsimp only
      generalize unit.zeroSectons.foldl UnitState.placeZero
        (unit.placeContents (withAddrs tbl addr) offset) = st at *
      generalize unit.placeContents (withAddrs tbl addr) offset = content at *
      have hzeroSize : (st.cursor.curOffset - content.cursor.curOffset).toNat =
          unit.zeroEnd tbl offset.toNat - unit.contentEnd tbl offset.toNat := by
        rw [BitVec.toNat_sub_of_le (by rw [BitVec.le_def]; omega), hzero, hcontent]
        omega
      have hsum : content.cursor.curOffset + (st.cursor.curOffset - content.cursor.curOffset) =
          st.cursor.curOffset := by grind
      have hlen : (roundup st.cursor.curOffset (pageSize w)).toNat =
          pageLen (unit.zeroEnd tbl offset.toNat - offset.toNat) := by
        rw [roundup_page_toNat_of_lt, hzero]
        rw [hzero]
        unfold SectionUnit.next at hfit
        omega
      rw [hsum]
      by_cases hempty : roundup st.cursor.curOffset (pageSize w) = 0
      · have hend : unit.zeroEnd tbl offset.toNat = offset.toNat := by
          rw [hempty] at hlen
          have hzero : (0 : BitVec w).toNat = 0 := BitVec.toNat_zero
          rw [hzero, pageLen] at hlen
          omega
        rw [if_pos hempty]
        exact ⟨addr', hshdrs, (next_of_zeroEnd hend).symm, hframe, hlayout, .inl ⟨rfl, hend⟩⟩
      · rw [if_neg hempty]
        refine ⟨addr', hshdrs, ?_, hframe, hlayout, .inr ⟨_, rfl, ?_⟩⟩
        · rw [BitVec.toNat_add_of_lt (by rw [hlen]; exact hfit), hlen]
          rfl
        · exact ⟨rfl, hlen, hcontent, hzeroSize, hmaps, unit_first hfirst⟩

end Unit

end ElfLoader
