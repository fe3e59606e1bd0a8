import ElfLoader.Elf.Header
import ElfLoader.GenElf.Sizes

/-! # Reading back what the generator writes

The loader's records are a fixed sequence of fields. A buffer that is written field
by field is read back field by field, at the offsets of the loader.
-/

namespace ElfLoader.GenElf

open ByteMemory Splice

/-! ## Fields -/

section Fields

variable {w : Nat} {fields : List (List UInt8)} {k off : Nat}

/-- The field at position `k` of a record. -/
theorem fieldNat_flatten {n : Nat} {v : BitVec n} (rest : List UInt8)
    (hfield : fields[k]? = some (leBytes v)) (hoff : off = start fields k) (hn : n % 8 = 0) :
    fieldNat (fields.flatten ++ rest) off (n / 8) = v.toNat := by
  obtain ⟨hk, hget⟩ := List.getElem?_eq_some_iff.mp hfield
  have hend := start_end_le fields hk
  have hslice := slice_flatten fields hk
  rw [hget, leBytes_length] at hslice hend
  have hpre : slice (fields.flatten ++ rest) off (n / 8) = slice fields.flatten off (n / 8) := by
    apply slice_congr
    intro i hlo hhi
    exact List.getElem?_append_left (by omega)
  rw [fieldNat, show ((fields.flatten ++ rest).drop off).take (n / 8) = leBytes v from ?_,
    leNat_leBytes v hn]
  rw [← hslice, ← hoff]
  exact hpre

theorem fieldWord_flatten {v : BitVec w} (rest : List UInt8)
    (hfield : fields[k]? = some (leBytes v)) (hoff : off = start fields k) (hw : w % 8 = 0) :
    fieldWord (fields.flatten ++ rest) off = v := by
  rw [fieldWord, fieldNat_flatten rest hfield hoff hw, BitVec.ofNat_toNat, BitVec.setWidth_eq]

theorem field32_flatten {v : BitVec 32} (rest : List UInt8)
    (hfield : fields[k]? = some (leBytes v)) (hoff : off = start fields k) :
    field32 (fields.flatten ++ rest) off = UInt32.ofBitVec v := by
  have hnat : fieldNat (fields.flatten ++ rest) off 4 = v.toNat :=
    fieldNat_flatten rest hfield hoff rfl
  rw [field32, hnat]
  apply UInt32.toBitVec_inj.mp
  exact (BitVec.ofNat_toNat 32 v).trans (BitVec.setWidth_eq v)

theorem field16_flatten {v : BitVec 16} (rest : List UInt8)
    (hfield : fields[k]? = some (leBytes v)) (hoff : off = start fields k) :
    field16 (fields.flatten ++ rest) off = UInt16.ofBitVec v := by
  have hnat : fieldNat (fields.flatten ++ rest) off 2 = v.toNat :=
    fieldNat_flatten rest hfield hoff rfl
  rw [field16, hnat]
  apply UInt16.toBitVec_inj.mp
  exact (BitVec.ofNat_toNat 16 v).trans (BitVec.setWidth_eq v)

end Fields

/-- A table that is written record by record is read record by record. -/
theorem records_flatten {R : Type} {ofBytes : List UInt8 → R} {size : Nat}
    {entries : List (List UInt8)} {rs : List R}
    (h : List.Forall₂ (fun e r => e.length = size ∧ ∀ rest, ofBytes (e ++ rest) = r) entries rs) :
    records ofBytes size entries.flatten entries.length = rs := by
  induction h with
  | nil => rfl
  | @cons e r entries rs he _ ih =>
      have hhead : ofBytes ((e :: entries).flatten.drop (0 * size)) = r := by
        rw [Nat.zero_mul, List.drop_zero, List.flatten_cons]
        exact he.2 _
      have htail : (fun k => ofBytes ((e :: entries).flatten.drop ((k + 1) * size))) =
          fun k => ofBytes (entries.flatten.drop (k * size)) := by
        funext k
        rw [List.flatten_cons, Nat.add_mul, Nat.one_mul, Nat.add_comm, ← he.1, List.drop_append,
          List.drop_eq_nil_of_le (Nat.le_add_right _ _), List.nil_append, Nat.add_sub_cancel_left]
      rw [records, List.length_cons, List.range_succ_eq_map, List.map_cons, List.map_map, hhead]
      change r :: (List.range entries.length).map
        (fun k => ofBytes ((e :: entries).flatten.drop ((k + 1) * size))) = r :: rs
      rw [htail]
      exact congrArg (r :: ·) ih

/-! ## Headers -/

theorem addrBytes_eq (arch : Arch) (value : Nat) :
    addrBytes arch.is64 value = leBytes (BitVec.ofNat arch.bits value) := by
  cases arch <;> rfl

theorem bits_mod_eight (arch : Arch) : arch.bits % 8 = 0 := by
  cases arch <;> rfl

/-- What the loader reads of a section header. -/
def SectionHeader.elfShdr (w : Nat) (map : SectionKind.Map) (h : SectionHeader) : ElfShdr w where
  shName := UInt32.ofBitVec (BitVec.ofNat 32 h.nameOff)
  shType := UInt32.ofBitVec h.shtype.shtype
  shFlags := BitVec.ofNat w h.shtype.flags.toNat
  shAddr := BitVec.ofNat w h.addr
  shOffset := BitVec.ofNat w h.offset
  shSize := BitVec.ofNat w h.size
  shLink := UInt32.ofBitVec (BitVec.ofNat 32 ((h.shtype.link map).getD 0))
  shInfo := UInt32.ofBitVec (BitVec.ofNat 32 (h.shtype.info map))
  shAddralign := BitVec.ofNat w h.addralign
  shEntsize := BitVec.ofNat w (h.shtype.entsize (w == 64))

/-- The fields of a section header, in the order they are written. -/
def SectionHeader.fields (w : Nat) (map : SectionKind.Map) (h : SectionHeader) :
    List (List UInt8) :=
  let word (value : Nat) := leBytes (BitVec.ofNat 32 value)
  let addr (value : Nat) := leBytes (BitVec.ofNat w value)
  [word h.nameOff, leBytes h.shtype.shtype, addr h.shtype.flags.toNat, addr h.addr, addr h.offset,
    addr h.size, word ((h.shtype.link map).getD 0), word (h.shtype.info map), addr h.addralign,
    addr (h.shtype.entsize (w == 64))]

theorem SectionHeader.write_eq_some {arch : Arch} {map : SectionKind.Map} {h : SectionHeader}
    {bytes : List UInt8} (hwrite : h.write map arch.is64 = some bytes) :
    bytes = (h.fields arch.bits map).flatten := by
  unfold SectionHeader.write at hwrite
  simp only [Option.bind_eq_bind, Option.bind_eq_some_iff, Option.pure_def,
    Option.some.injEq] at hwrite
  obtain ⟨link, hlink, rfl⟩ := hwrite
  have hclass : (arch.bits == 64) = arch.is64 := by cases arch <;> rfl
  unfold SectionHeader.fields
  simp only [hlink, Option.getD_some, hclass, addrBytes_eq, List.flatten_cons, List.flatten_nil,
    List.append_nil, List.append_assoc]

theorem SectionHeader.fields_lengths (w : Nat) (map : SectionKind.Map) (h : SectionHeader) :
    (h.fields w map).map List.length =
      [4, 4, w / 8, w / 8, w / 8, w / 8, 4, 4, w / 8, w / 8] := by
  simp [fields]

theorem SectionHeader.fields_length (w : Nat) (map : SectionKind.Map) (h : SectionHeader) :
    (h.fields w map).flatten.length = ElfLoader.shdrSize w := by
  rw [List.length_flatten, fields_lengths, ElfLoader.shdrSize]
  simp only [List.sum_cons, List.sum_nil]
  omega

theorem SectionHeader.ofBytes_fields {w : Nat} (hw : w % 8 = 0) (map : SectionKind.Map)
    (h : SectionHeader) (rest : List UInt8) :
    ElfShdr.ofBytes ((h.fields w map).flatten ++ rest) = h.elfShdr w map := by
  have hstart : ∀ k, start (h.fields w map) k =
      ([4, 4, w / 8, w / 8, w / 8, w / 8, 4, 4, w / 8, w / 8].take k).sum := by
    intro k
    rw [start_eq_sum, fields_lengths]
  unfold ElfShdr.ofBytes
  rw [field32_flatten (k := 0) rest rfl (by simp [hstart]),
    field32_flatten (k := 1) rest rfl (by simp [hstart]),
    fieldWord_flatten (k := 2) rest rfl (by simp [hstart]) hw,
    fieldWord_flatten (k := 3) rest rfl (by simp [hstart]; omega) hw,
    fieldWord_flatten (k := 4) rest rfl (by simp [hstart]; omega) hw,
    fieldWord_flatten (k := 5) rest rfl (by simp [hstart]; omega) hw,
    field32_flatten (k := 6) rest rfl (by simp [hstart]; omega),
    field32_flatten (k := 7) rest rfl (by simp [hstart]; omega),
    fieldWord_flatten (k := 8) rest rfl (by simp [hstart]; omega) hw,
    fieldWord_flatten (k := 9) rest rfl (by simp [hstart]; omega) hw]
  rfl

/-- What the loader reads of a program header. -/
def ProgramHeader.elfPhdr (w : Nat) (p : ProgramHeader) : ElfPhdr w where
  pType := UInt32.ofBitVec p.pType
  pFlags := UInt32.ofBitVec p.pFlags
  pOffset := BitVec.ofNat w p.pOffset
  pVaddr := BitVec.ofNat w p.pVaddr
  pPaddr := BitVec.ofNat w p.pVaddr
  pFilesz := BitVec.ofNat w p.pFilesz
  pMemsz := BitVec.ofNat w p.pMemsz
  pAlign := BitVec.ofNat w p.pAlign

/-- The fields of a program header; the flags stand in different places. -/
def ProgramHeader.fields (w : Nat) (p : ProgramHeader) : List (List UInt8) :=
  let addr (value : Nat) := leBytes (BitVec.ofNat w value)
  if w = 64 then
    [leBytes p.pType, leBytes p.pFlags, addr p.pOffset, addr p.pVaddr, addr p.pVaddr,
      addr p.pFilesz, addr p.pMemsz, addr p.pAlign]
  else
    [leBytes p.pType, addr p.pOffset, addr p.pVaddr, addr p.pVaddr, addr p.pFilesz,
      addr p.pMemsz, leBytes p.pFlags, addr p.pAlign]

theorem bits_cases (arch : Arch) : arch.bits = 64 ∨ arch.bits = 32 := by
  cases arch <;> decide

theorem ProgramHeader.write_eq (p : ProgramHeader) (arch : Arch) :
    p.write arch.is64 = (p.fields arch.bits).flatten := by
  have hwrite : ∀ is64, p.write is64 = (p.fields (if is64 then 64 else 32)).flatten := by
    intro is64
    unfold ProgramHeader.write ProgramHeader.fields
    cases is64 <;> simp [addrBytes]
  exact hwrite arch.is64

theorem ProgramHeader.fields_length (p : ProgramHeader) {w : Nat} (hw : w = 64 ∨ w = 32) :
    (p.fields w).flatten.length = ElfLoader.phdrSize w := by
  rcases hw with rfl | rfl <;> simp [fields, ElfLoader.phdrSize]

theorem ProgramHeader.ofBytes_fields (p : ProgramHeader) {w : Nat} (hw : w = 64 ∨ w = 32)
    (rest : List UInt8) : ElfPhdr.ofBytes ((p.fields w).flatten ++ rest) = p.elfPhdr w := by
  unfold ElfPhdr.ofBytes
  rcases hw with rfl | rfl
  · rw [field32_flatten (k := 0) rest rfl (by rfl), field32_flatten (k := 1) rest rfl (by rfl),
      fieldWord_flatten (k := 2) rest rfl (by rfl) rfl,
      fieldWord_flatten (k := 3) rest rfl (by rfl) rfl,
      fieldWord_flatten (k := 4) rest rfl (by rfl) rfl,
      fieldWord_flatten (k := 5) rest rfl (by rfl) rfl,
      fieldWord_flatten (k := 6) rest rfl (by rfl) rfl,
      fieldWord_flatten (k := 7) rest rfl (by rfl) rfl]
    rfl
  · rw [field32_flatten (k := 0) rest rfl (by rfl), field32_flatten (k := 6) rest rfl (by rfl),
      fieldWord_flatten (k := 1) rest rfl (by rfl) rfl,
      fieldWord_flatten (k := 2) rest rfl (by rfl) rfl,
      fieldWord_flatten (k := 3) rest rfl (by rfl) rfl,
      fieldWord_flatten (k := 4) rest rfl (by rfl) rfl,
      fieldWord_flatten (k := 5) rest rfl (by rfl) rfl,
      fieldWord_flatten (k := 7) rest rfl (by rfl) rfl]
    rfl

section Ehdr

variable (writer : DylibWriter) (st : WriteState)

/-- What the loader reads of the file header. -/
def DylibWriter.elfEhdr (shstrndx : Nat) : Ehdr writer.arch.bits where
  eIdent := writer.getIdent
  eType := etDyn
  eMachine := UInt16.ofBitVec writer.getMachine
  eVersion := 1
  eEntry := 0
  ePhoff := BitVec.ofNat _ (ehdrSize writer.arch.is64)
  eShoff := BitVec.ofNat _ st.layout.fileOff
  eFlags := UInt32.ofBitVec writer.getFlags
  eEhsize := UInt16.ofNat (ehdrSize writer.arch.is64)
  ePhentsize := UInt16.ofNat (phdrSize writer.arch.is64)
  ePhnum := UInt16.ofNat st.manager.getPhnum
  eShentsize := UInt16.ofNat (shdrSize writer.arch.is64)
  eShnum := UInt16.ofNat (st.manager.shdrs.length + 1)
  eShstrndx := UInt16.ofNat shstrndx

/-- The fields of the file header, in the order they are written. -/
def DylibWriter.ehdrFields (shstrndx : Nat) : List (List UInt8) :=
  let half (value : Nat) := leBytes (BitVec.ofNat 16 value)
  let addr (value : Nat) := leBytes (BitVec.ofNat writer.arch.bits value)
  [writer.getIdent, half 3, leBytes writer.getMachine, leBytes (1#32), addr 0,
    addr (ehdrSize writer.arch.is64), addr st.layout.fileOff, leBytes writer.getFlags,
    half (ehdrSize writer.arch.is64), half (phdrSize writer.arch.is64),
    half st.manager.getPhnum, half (shdrSize writer.arch.is64),
    half (st.manager.shdrs.length + 1), half shstrndx]

variable {writer st}

theorem DylibWriter.ehdr_eq_some {bytes : List UInt8} (h : writer.ehdr st = some bytes) :
    ∃ shstrndx, st.manager.getShdrMap .shStrTab = some shstrndx ∧
      bytes = (writer.ehdrFields st shstrndx).flatten := by
  unfold DylibWriter.ehdr at h
  simp only [Option.bind_eq_bind, Option.bind_eq_some_iff, Option.pure_def,
    Option.some.injEq] at h
  obtain ⟨shstrndx, hmap, rfl⟩ := h
  refine ⟨shstrndx, hmap, ?_⟩
  unfold DylibWriter.ehdrFields
  simp only [addrBytes_eq, List.flatten_cons, List.flatten_nil, List.append_nil,
    List.append_assoc]

theorem DylibWriter.ehdrFields_lengths (shstrndx : Nat) :
    (writer.ehdrFields st shstrndx).map List.length =
      [16, 2, 2, 4, writer.arch.bits / 8, writer.arch.bits / 8, writer.arch.bits / 8, 4, 2, 2, 2,
        2, 2, 2] := by
  simp [ehdrFields, getIdent]

theorem DylibWriter.ehdrFields_length (shstrndx : Nat) :
    (writer.ehdrFields st shstrndx).flatten.length = ElfLoader.ehdrSize writer.arch.bits := by
  rw [List.length_flatten, ehdrFields_lengths, ElfLoader.ehdrSize]
  simp only [List.sum_cons, List.sum_nil]
  omega

theorem DylibWriter.ofBytes_ehdrFields (shstrndx : Nat) (rest : List UInt8) :
    Ehdr.ofBytes ((writer.ehdrFields st shstrndx).flatten ++ rest) =
      writer.elfEhdr st shstrndx := by
  have hw := bits_mod_eight writer.arch
  have hstart : ∀ k, start (writer.ehdrFields st shstrndx) k =
      ([16, 2, 2, 4, writer.arch.bits / 8, writer.arch.bits / 8, writer.arch.bits / 8, 4, 2, 2, 2,
        2, 2, 2].take k).sum := by
    intro k
    rw [start_eq_sum, ehdrFields_lengths]
  have hident : ((writer.ehdrFields st shstrndx).flatten ++ rest).take 16 = writer.getIdent := by
    unfold ehdrFields
    rw [List.flatten_cons, List.append_assoc]
    exact List.take_left' rfl
  unfold Ehdr.ofBytes
  rw [hident, field16_flatten (k := 1) rest rfl (by simp [hstart]),
    field16_flatten (k := 2) rest rfl (by simp [hstart]),
    field32_flatten (k := 3) rest rfl (by simp [hstart]),
    fieldWord_flatten (k := 4) rest rfl (by simp [hstart]) hw,
    fieldWord_flatten (k := 5) rest rfl (by simp [hstart]; omega) hw,
    fieldWord_flatten (k := 6) rest rfl (by simp [hstart]; omega) hw,
    field32_flatten (k := 7) rest rfl (by simp [hstart]; omega),
    field16_flatten (k := 8) rest rfl (by simp [hstart]; omega),
    field16_flatten (k := 9) rest rfl (by simp [hstart]; omega),
    field16_flatten (k := 10) rest rfl (by simp [hstart]; omega),
    field16_flatten (k := 11) rest rfl (by simp [hstart]; omega),
    field16_flatten (k := 12) rest rfl (by simp [hstart]; omega),
    field16_flatten (k := 13) rest rfl (by simp [hstart]; omega)]
  rfl

end Ehdr

end ElfLoader.GenElf
