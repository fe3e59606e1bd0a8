import ElfLoader.Elf.Version
import ElfLoader.Library.ByteMemory
import ElfLoader.Library.Exec
import ElfLoader.Library.Slots

/-! # Building the version table (`src/elf/version.rs`, `ELFVersion::new`)

Definitions and needs are records that name the distance to their successor.
The iterators follow `vd_next` and `vn_next`, but inside one record they step
through the auxiliary records by the size of one: `vna_next` is never read.
-/

namespace ElfLoader

open ByteMemory

variable {w : Nat}

def readU16 (m : Bytes w) (p : BitVec w) : UInt16 := UInt16.ofBitVec (readBits 16 m p)

def readU32 (m : Bytes w) (p : BitVec w) : UInt32 := UInt32.ofBitVec (readBits 32 m p)

/-- `ptr.byte_add(off as usize)`. -/
def byteAdd (p : BitVec w) (off : UInt32) : BitVec w := p + BitVec.ofNat w off.toNat

structure VerDef where
  vdVersion : UInt16
  vdFlags : UInt16
  vdNdx : UInt16
  vdCnt : UInt16
  vdHash : UInt32
  vdAux : UInt32
  vdNext : UInt32
deriving DecidableEq, Repr

structure VerDefAux where
  vdaName : UInt32
  vdaNext : UInt32
deriving DecidableEq, Repr

structure VerNeed where
  vnVersion : UInt16
  vnCnt : UInt16
  vnFile : UInt32
  vnAux : UInt32
  vnNext : UInt32
deriving DecidableEq, Repr

structure VerNeedAux where
  vnaHash : UInt32
  vnaFlags : UInt16
  vnaOther : UInt16
  vnaName : UInt32
  vnaNext : UInt32
deriving DecidableEq, Repr

def VerDef.read (m : Bytes w) (p : BitVec w) : VerDef where
  vdVersion := readU16 m p
  vdFlags := readU16 m (p + 2)
  vdNdx := readU16 m (p + 4)
  vdCnt := readU16 m (p + 6)
  vdHash := readU32 m (p + 8)
  vdAux := readU32 m (p + 12)
  vdNext := readU32 m (p + 16)

def VerDefAux.read (m : Bytes w) (p : BitVec w) : VerDefAux where
  vdaName := readU32 m p
  vdaNext := readU32 m (p + 4)

def VerNeed.read (m : Bytes w) (p : BitVec w) : VerNeed where
  vnVersion := readU16 m p
  vnCnt := readU16 m (p + 2)
  vnFile := readU32 m (p + 4)
  vnAux := readU32 m (p + 8)
  vnNext := readU32 m (p + 12)

def VerNeedAux.read (m : Bytes w) (p : BitVec w) : VerNeedAux where
  vnaHash := readU32 m p
  vnaFlags := readU16 m (p + 4)
  vnaOther := readU16 m (p + 6)
  vnaName := readU32 m (p + 8)
  vnaNext := readU32 m (p + 12)

def VerDef.index (verdef : VerDef) : Nat := (versionIndex verdef.vdNdx).toNat

def VerNeedAux.index (aux : VerNeedAux) : Nat := (versionIndex aux.vnaOther).toNat

/-- What an iterator yields: `num` records, each with the place it was read
from, the next one `step` further on. -/
def walk {R : Type} (read : BitVec w → R) (step : R → UInt32) :
    Nat → BitVec w → List (BitVec w × R)
  | 0, _ => []
  | num + 1, ptr =>
      let record := read ptr
      (ptr, record) :: walk read step num (byteAdd ptr (step record))

theorem walk_length {R : Type} (read : BitVec w → R) (step : R → UInt32) (num : Nat)
    (ptr : BitVec w) : (walk read step num ptr).length = num := by
  induction num generalizing ptr with
  | zero => rfl
  | succ num ih => rw [walk, List.length_cons, ih]

/-- `size_of::<VerDefAux>()` and `size_of::<VerNeedAux>()`. -/
def verDefAuxSize : UInt32 := 8
def verNeedAuxSize : UInt32 := 16

/-- `VerDefAuxIterator`. -/
def verDefAuxIterator (m : Bytes w) (ptr : BitVec w) (num : Nat) : List VerDefAux :=
  (walk (VerDefAux.read m) (fun _ => verDefAuxSize) num ptr).map Prod.snd

/-- `VerNeedAuxIterator`. -/
def verNeedAuxIterator (m : Bytes w) (ptr : BitVec w) (num : Nat) : List VerNeedAux :=
  (walk (VerNeedAux.read m) (fun _ => verNeedAuxSize) num ptr).map Prod.snd

/-- `VerDefIterator`: the records, each with what its auxiliary iterator yields. -/
def verDefIterator (m : Bytes w) (table : BitVec w × Nat) : List (VerDef × List VerDefAux) :=
  (walk (VerDef.read m) VerDef.vdNext table.2 table.1).map fun (ptr, verdef) =>
    (verdef, verDefAuxIterator m (byteAdd ptr verdef.vdAux) verdef.vdCnt.toNat)

/-- `VerNeedIterator`. -/
def verNeedIterator (m : Bytes w) (table : BitVec w × Nat) : List (VerNeed × List VerNeedAux) :=
  (walk (VerNeed.read m) VerNeed.vnNext table.2 table.1).map fun (ptr, verneed) =>
    (verneed, verNeedAuxIterator m (byteAdd ptr verneed.vnAux) verneed.vnCnt.toNat)

namespace ELFVersion

/-- `if ndx_max < index { ndx_max = index }`. -/
def raise (ndxMax index : Nat) : Nat := if ndxMax < index then index else ndxMax

/-- `versions[index] = Version { name, hash }`, with the name read first. -/
def store (strtab : List UInt8) (versions : List (Option Version)) (index : Nat) (nameOff : UInt32)
    (hash : UInt32) : Except Halt (List (Option Version)) := do
  let name ← getStr strtab nameOff.toNat
  if index < versions.length then return versions.set index (some { name, hash })
  else .error (.panic "index out of bounds")

/-- One iteration of the second loop over the definitions. -/
def storeDef (strtab : List UInt8) (versions : List (Option Version))
    (entry : VerDef × List VerDefAux) : Except Halt (List (Option Version)) :=
  match entry.2 with
  | [] => .error (.panic "called `Option::unwrap()` on a `None` value")
  | aux :: _ => store strtab versions entry.1.index aux.vdaName entry.1.vdHash

/-- One iteration of the second loop over the auxiliary records of a need. -/
def storeNeed (strtab : List UInt8) (versions : List (Option Version)) (aux : VerNeedAux) :
    Except Halt (List (Option Version)) :=
  store strtab versions aux.index aux.vnaName aux.vnaHash

/-- `ELFVersion::new`. `version_ids` is the `DT_VERSYM` array; a table is the
address and the number of its records. -/
def new (m : Bytes w) (versionIds : Option (List UInt16))
    (verneeds verdefs : Option (BitVec w × Nat)) (strtab : List UInt8) :
    Except Halt (Option ELFVersion) := do
  match versionIds with
  | none => return none
  | some versionIds =>
      let defs := (verdefs.map (verDefIterator m)).getD []
      let needs := (verneeds.map (verNeedIterator m)).getD []
      let ndxMax := defs.foldl (fun ndxMax (verdef, _) => raise ndxMax verdef.index) 0
      let ndxMax := needs.foldl
        (fun ndxMax (_, auxes) => auxes.foldl (fun ndxMax aux => raise ndxMax aux.index) ndxMax)
        ndxMax
      -- `reserve` and `set_len`: the slots exist and hold nothing
      let versions := List.replicate (ndxMax + 1) none
      let versions ← defs.foldlM (storeDef strtab) versions
      let versions ← needs.foldlM
        (fun versions (_, auxes) => auxes.foldlM (storeNeed strtab) versions) versions
      return some { versionIds, versions }

end ELFVersion

/-! ## The versions a file names -/

/-- A version number with the name and the hash recorded for it. -/
structure VersionRecord where
  index : Nat
  nameOff : UInt32
  hash : UInt32
deriving DecidableEq, Repr

def VersionRecord.version (strtab : List UInt8) (r : VersionRecord) : Except Halt Version := do
  let name ← getStr strtab r.nameOff.toNat
  return { name, hash := r.hash }

def VerNeedAux.record (aux : VerNeedAux) : VersionRecord where
  index := aux.index
  nameOff := aux.vnaName
  hash := aux.vnaHash

/-- The definitions, linked by `vd_next`. -/
def linkedDefs (m : Bytes w) (verdefs : Option (BitVec w × Nat)) : List (BitVec w × VerDef) :=
  (verdefs.map fun table => walk (VerDef.read m) VerDef.vdNext table.2 table.1).getD []

/-- The needs, linked by `vn_next`. -/
def linkedNeeds (m : Bytes w) (verneeds : Option (BitVec w × Nat)) : List (BitVec w × VerNeed) :=
  (verneeds.map fun table => walk (VerNeed.read m) VerNeed.vnNext table.2 table.1).getD []

/-- The auxiliary records of the needs: `vn_cnt` of them from `vn_aux` on, each
`step` behind its predecessor. -/
def needAuxes (m : Bytes w) (verneeds : Option (BitVec w × Nat)) (step : VerNeedAux → UInt32) :
    List VerNeedAux :=
  (linkedNeeds m verneeds).flatMap fun (ptr, verneed) =>
    (walk (VerNeedAux.read m) step verneed.vnCnt.toNat (byteAdd ptr verneed.vnAux)).map Prod.snd

/-- The auxiliary records of the needs, linked by `vna_next`. -/
def linkedAuxes (m : Bytes w) (verneeds : Option (BitVec w × Nat)) : List VerNeedAux :=
  needAuxes m verneeds VerNeedAux.vnaNext

/-- The records that stand back to back where the first auxiliary record of a
need stands, as many as the need counts. -/
def adjacentAuxes (m : Bytes w) (verneeds : Option (BitVec w × Nat)) : List VerNeedAux :=
  needAuxes m verneeds fun _ => verNeedAuxSize

/-- A definition is named by its first auxiliary record. -/
def defRecord (m : Bytes w) (entry : BitVec w × VerDef) : VersionRecord where
  index := entry.2.index
  nameOff := (VerDefAux.read m (byteAdd entry.1 entry.2.vdAux)).vdaName
  hash := entry.2.vdHash

def defRecords (m : Bytes w) (verdefs : Option (BitVec w × Nat)) : List VersionRecord :=
  (linkedDefs m verdefs).map (defRecord m)

/-- The versions the file names, by number. -/
def linkedRecords (m : Bytes w) (verneeds verdefs : Option (BitVec w × Nat)) :
    List VersionRecord :=
  defRecords m verdefs ++ (linkedAuxes m verneeds).map VerNeedAux.record

/-- Version data as a linker may write it; the distances between records are
arbitrary. -/
structure WellFormedVersions (m : Bytes w) (verneeds verdefs : Option (BitVec w × Nat))
    (strtab : List UInt8) : Prop where
  counted : ∀ entry ∈ linkedDefs m verdefs, 1 ≤ entry.2.vdCnt
  defNdx : ∀ entry ∈ linkedDefs m verdefs, entry.2.vdNdx < 0x8000
  needNdx : ∀ aux ∈ linkedAuxes m verneeds, aux.vnaOther < 0x8000
  distinct : ((linkedDefs m verdefs).map (fun entry => entry.2.vdNdx) ++
    (linkedAuxes m verneeds).map VerNeedAux.vnaOther).Nodup
  named : ∀ r ∈ linkedRecords m verneeds verdefs, ∃ v, r.version strtab = .ok v

/-- Every linked auxiliary record agrees in number, name and hash with one of
the records that stand back to back at `vn_aux`. -/
def AuxesAdjacent (m : Bytes w) (verneeds : Option (BitVec w × Nat)) (strtab : List UInt8) :
    Prop :=
  ∀ aux ∈ linkedAuxes m verneeds, ∃ aux' ∈ adjacentAuxes m verneeds,
    aux'.index = aux.index ∧ aux'.vnaHash = aux.vnaHash ∧
      getStr strtab aux'.vnaName.toNat = getStr strtab aux.vnaName.toNat

/-- The version table is there and holds the version the file names under each
number, so a requirement and a comparison are about that version. -/
def BuiltFromLinks (m : Bytes w) (versionIds : List UInt16)
    (verneeds verdefs : Option (BitVec w × Nat)) (strtab : List UInt8) : Prop :=
  ∃ table, ELFVersion.new m (some versionIds) verneeds verdefs strtab = .ok (some table) ∧
    ∀ r ∈ linkedRecords m verneeds verdefs, ∀ v, r.version strtab = .ok v →
      table.versions[r.index]? = some (some v) ∧
      ∀ symIdx ndx, versionIds[symIdx]? = some ndx → (versionIndex ndx).toNat = r.index →
        getRequirement (some table) symIdx =
          .ok (if versionIndex ndx ≤ 1 then none
            else some { name := v.name, hash := v.hash, hidden := isHidden ndx }) ∧
        ∀ req, checkMatch (some table) symIdx (some req) =
          .ok (versionMatches req v (isHidden ndx))

/-! ## What the loops do -/

section Build

variable {m : Bytes w} {verneeds verdefs : Option (BitVec w × Nat)} {strtab : List UInt8}
  {versionIds : List UInt16}

/-- The records the loops visit, in their order. -/
def visitedRecords (m : Bytes w) (verneeds verdefs : Option (BitVec w × Nat)) :
    List VersionRecord :=
  defRecords m verdefs ++ (adjacentAuxes m verneeds).map VerNeedAux.record

/-- One past the greatest number of a visited record. -/
def slotCount (m : Bytes w) (verneeds verdefs : Option (BitVec w × Nat)) : Nat :=
  ((visitedRecords m verneeds verdefs).map VersionRecord.index).foldl ELFVersion.raise 0 + 1

/-- The stores of the records, in their order. -/
def storeRecords (strtab : List UInt8) (versions : List (Option Version))
    (records : List VersionRecord) : Except Halt (List (Option Version)) :=
  records.foldlM (fun versions r => ELFVersion.store strtab versions r.index r.nameOff r.hash)
    versions

theorem defs_foldl_raise (start : Nat) :
    ((verdefs.map (verDefIterator m)).getD []).foldl
        (fun ndxMax (verdef, _) => ELFVersion.raise ndxMax verdef.index) start =
      ((defRecords m verdefs).map VersionRecord.index).foldl ELFVersion.raise start := by
  cases verdefs with
  | none => rfl
  | some table =>
      simp only [Option.map_some, Option.getD_some, verDefIterator, defRecords, linkedDefs,
        List.foldl_map]
      rfl

theorem needs_eq :
    (((verneeds.map (verNeedIterator m)).getD []).map Prod.snd).flatten =
      adjacentAuxes m verneeds := by
  cases verneeds with
  | none => rfl
  | some table =>
      simp only [Option.map_some, Option.getD_some, verNeedIterator, adjacentAuxes, needAuxes,
        linkedNeeds, List.map_map, List.flatMap]
      rfl

theorem needs_foldl_raise (start : Nat) :
    ((verneeds.map (verNeedIterator m)).getD []).foldl
        (fun ndxMax (_, auxes) =>
          auxes.foldl (fun ndxMax aux => ELFVersion.raise ndxMax aux.index) ndxMax) start =
      (((adjacentAuxes m verneeds).map VerNeedAux.record).map VersionRecord.index).foldl
        ELFVersion.raise start := by
  rw [← needs_eq, List.map_map, List.foldl_map, List.foldl_flatten, List.foldl_map]
  rfl

/-- With at least one auxiliary record each, no definition stops the loop. -/
theorem defs_foldlM (hcounted : ∀ entry ∈ linkedDefs m verdefs, 1 ≤ entry.2.vdCnt)
    (versions : List (Option Version)) :
    ((verdefs.map (verDefIterator m)).getD []).foldlM (ELFVersion.storeDef strtab) versions =
      storeRecords strtab versions (defRecords m verdefs) := by
  cases verdefs with
  | none => rfl
  | some table =>
      simp only [Option.map_some, Option.getD_some, verDefIterator, defRecords, linkedDefs,
        storeRecords] at *
      generalize walk (VerDef.read m) VerDef.vdNext table.2 table.1 = entries at *
      induction entries generalizing versions with
      | nil => rfl
      | cons entry entries ih =>
          obtain ⟨hentry, hrest⟩ := List.forall_mem_cons.mp hcounted
          have hcnt : ∃ n, entry.2.vdCnt.toNat = n + 1 := by
            have hle : 1 ≤ entry.2.vdCnt.toNat := UInt16.le_iff_toNat_le.mp hentry
            exact ⟨entry.2.vdCnt.toNat - 1, by omega⟩
          obtain ⟨n, hn⟩ := hcnt
          have hstep : ELFVersion.storeDef strtab versions
              (entry.2, verDefAuxIterator m (byteAdd entry.1 entry.2.vdAux) entry.2.vdCnt.toNat) =
                ELFVersion.store strtab versions (defRecord m entry).index
                  (defRecord m entry).nameOff (defRecord m entry).hash := by
            rw [hn]
            rfl
          rw [List.map_cons, List.map_cons, List.foldlM_cons, List.foldlM_cons]
          rw [← hstep]
          congr 1
          funext versions
          exact ih versions hrest

theorem needs_foldlM (versions : List (Option Version)) :
    ((verneeds.map (verNeedIterator m)).getD []).foldlM
        (fun versions (_, auxes) => auxes.foldlM (ELFVersion.storeNeed strtab) versions) versions =
      storeRecords strtab versions ((adjacentAuxes m verneeds).map VerNeedAux.record) := by
  rw [storeRecords, ← needs_eq, List.foldlM_map]
  generalize (verneeds.map (verNeedIterator m)).getD [] = needs
  induction needs generalizing versions with
  | nil => rfl
  | cons need needs ih =>
      rw [List.foldlM_cons, List.map_cons, List.flatten_cons, List.foldlM_append]
      congr 1
      funext versions
      exact ih versions

theorem storeRecords_append (versions : List (Option Version)) (rs rs' : List VersionRecord) :
    storeRecords strtab versions (rs ++ rs') =
      storeRecords strtab versions rs >>= fun versions => storeRecords strtab versions rs' :=
  List.foldlM_append

theorem new_eq (hcounted : ∀ entry ∈ linkedDefs m verdefs, 1 ≤ entry.2.vdCnt) :
    ELFVersion.new m (some versionIds) verneeds verdefs strtab =
      (storeRecords strtab (List.replicate (slotCount m verneeds verdefs) none)
        (visitedRecords m verneeds verdefs)).map fun versions => some { versionIds, versions } := by
  have hslots : slotCount m verneeds verdefs =
      (((adjacentAuxes m verneeds).map VerNeedAux.record).map VersionRecord.index).foldl
        ELFVersion.raise
        (((defRecords m verdefs).map VersionRecord.index).foldl ELFVersion.raise 0) + 1 := by
    rw [slotCount, visitedRecords, List.map_append, List.foldl_append]
  unfold ELFVersion.new
  simp only [defs_foldl_raise, needs_foldl_raise, defs_foldlM hcounted, needs_foldlM]
  rw [← hslots, visitedRecords, storeRecords_append]
  cases storeRecords strtab (List.replicate (slotCount m verneeds verdefs) none)
      (defRecords m verdefs) with
  | error e => rfl
  | ok versions =>
      change (storeRecords strtab versions _ >>= fun versions => _) =
        (storeRecords strtab versions _).map _
      cases storeRecords strtab versions ((adjacentAuxes m verneeds).map VerNeedAux.record) with
      | error e => rfl
      | ok versions => rfl

theorem foldl_raise_le (indices : List Nat) (start : Nat) :
    start ≤ indices.foldl ELFVersion.raise start ∧
      ∀ i ∈ indices, i ≤ indices.foldl ELFVersion.raise start := by
  induction indices generalizing start with
  | nil => exact ⟨Nat.le_refl start, fun i hi => by cases hi⟩
  | cons i indices ih =>
      obtain ⟨hstart, hrest⟩ := ih (ELFVersion.raise start i)
      have hraise : start ≤ ELFVersion.raise start i ∧ i ≤ ELFVersion.raise start i := by
        unfold ELFVersion.raise
        split <;> omega
      rw [List.foldl_cons]
      refine ⟨Nat.le_trans hraise.1 hstart, List.forall_mem_cons.mpr ⟨?_, hrest⟩⟩
      exact Nat.le_trans hraise.2 hstart

/-- The first pass leaves a slot for every record of the second. -/
theorem index_lt_slotCount (r : VersionRecord) (hr : r ∈ visitedRecords m verneeds verdefs) :
    r.index <
      (List.replicate (slotCount m verneeds verdefs) (none : Option Version)).length := by
  rw [List.length_replicate]
  exact Nat.lt_succ_of_le ((foldl_raise_le _ 0).2 r.index (List.mem_map_of_mem hr))

theorem store_eq {versions : List (Option Version)} {r : VersionRecord}
    (hlt : r.index < versions.length) :
    ELFVersion.store strtab versions r.index r.nameOff r.hash =
      (r.version strtab).map fun v => versions.set r.index (some v) := by
  unfold ELFVersion.store VersionRecord.version
  cases getStr strtab r.nameOff.toNat with
  | error e => rfl
  | ok name =>
      simp only [bind, Except.bind, if_pos hlt]
      rfl

/-- The writes of the records: each version under its number. -/
def Writes (strtab : List UInt8) (rs : List VersionRecord) (writes : List (Nat × Version)) : Prop :=
  List.Forall₂ (fun r write => r.version strtab = .ok write.2 ∧ write.1 = r.index) rs writes

/-- The stores are the writes of the named versions. -/
theorem storeRecords_ok_iff {versions versions' : List (Option Version)} {rs : List VersionRecord}
    (hlt : ∀ r ∈ rs, r.index < versions.length) :
    storeRecords strtab versions rs = .ok versions' ↔
      ∃ writes, Writes strtab rs writes ∧ versions' = Slots.fill versions writes := by
  induction rs generalizing versions with
  | nil =>
      simp only [storeRecords, List.foldlM_nil, Writes, List.forall₂_nil_left_iff, exists_eq_left,
        Slots.fill_nil]
      constructor
      · intro h
        cases h
        rfl
      · rintro rfl
        rfl
  | cons r rs ih =>
      obtain ⟨hr, hrest⟩ := List.forall_mem_cons.mp hlt
      rw [storeRecords, List.foldlM_cons, store_eq hr, Exec.except_bind_ok_iff]
      have hrest' : ∀ v, ∀ r' ∈ rs, r'.index < (versions.set r.index (some v)).length := by
        intro v r' hr'
        rw [List.length_set]
        exact hrest r' hr'
      constructor
      · rintro ⟨next, hnext, hstores⟩
        obtain ⟨v, hv, rfl⟩ := Exec.except_map_ok_iff.mp hnext
        obtain ⟨writes, hwrites, rfl⟩ := (ih (hrest' v)).mp hstores
        exact ⟨(r.index, v) :: writes, .cons ⟨hv, rfl⟩ hwrites, rfl⟩
      · rintro ⟨_, hwrites, rfl⟩
        cases hwrites with
        | @cons _ write _ writes hhead htail =>
            obtain ⟨hv, hindex⟩ := hhead
            refine ⟨_, Exec.except_map_ok_iff.mpr ⟨write.2, hv, rfl⟩, ?_⟩
            exact (ih (hrest' write.2)).mpr ⟨writes, htail, by rw [Slots.fill_cons, hindex]⟩

theorem version_ok_iff {r : VersionRecord} {v : Version} :
    r.version strtab = .ok v ↔ getStr strtab r.nameOff.toNat = .ok v.name ∧ r.hash = v.hash := by
  obtain ⟨name, hash⟩ := v
  unfold VersionRecord.version
  cases getStr strtab r.nameOff.toNat with
  | error e => simp [bind, Except.bind]
  | ok name' => simp [bind, Except.bind, pure, Except.pure]

theorem exists_writes {rs : List VersionRecord}
    (h : ∀ r ∈ rs, ∃ v, r.version strtab = .ok v) :
    ∃ writes, Writes strtab rs writes := by
  induction rs with
  | nil => exact ⟨[], .nil⟩
  | cons r rs ih =>
      obtain ⟨⟨v, hv⟩, hrest⟩ := List.forall_mem_cons.mp h
      obtain ⟨writes, hwrites⟩ := ih hrest
      exact ⟨(r.index, v) :: writes, .cons ⟨hv, rfl⟩ hwrites⟩

theorem mem_writes_iff {rs : List VersionRecord} {writes : List (Nat × Version)}
    (h : Writes strtab rs writes) {i : Nat} {v : Version} :
    (i, v) ∈ writes ↔ ∃ r ∈ rs, r.index = i ∧ r.version strtab = .ok v := by
  induction h with
  | nil => simp
  | @cons r write rs writes hhead htail ih =>
      rw [List.mem_cons, ih, List.exists_mem_cons_iff]
      refine or_congr_left ?_
      obtain ⟨hv, hindex⟩ := hhead
      rw [Prod.ext_iff, hv, Except.ok.injEq, hindex]
      simp only [eq_comm]

/-! ## Linked and visited records -/

/-- The number of a record and the version it names. -/
def VersionRecord.slot (strtab : List UInt8) (r : VersionRecord) : Nat × Except Halt Version :=
  (r.index, r.version strtab)

theorem needAuxes_length (step : VerNeedAux → UInt32) :
    (needAuxes m verneeds step).length =
      ((linkedNeeds m verneeds).map fun entry => entry.2.vnCnt.toNat).sum := by
  rw [needAuxes, List.length_flatMap]
  congr 1
  apply List.map_congr_left
  intro entry _
  rw [List.length_map, walk_length]

theorem visitedRecords_length :
    (visitedRecords m verneeds verdefs).length = (linkedRecords m verneeds verdefs).length := by
  simp only [visitedRecords, linkedRecords, List.length_append, List.length_map, adjacentAuxes,
    linkedAuxes, needAuxes_length]

theorem versionIndex_of_lt {ndx : UInt16} (h : ndx < 0x8000) : versionIndex ndx = ndx := by
  have hlt : ndx.toNat < 2 ^ 15 := UInt16.lt_iff_toNat_lt.mp h
  apply UInt16.toNat_inj.mp
  rw [versionIndex, UInt16.toNat_and, show verNdxVersion.toNat = 2 ^ 15 - 1 from rfl,
    Nat.and_two_pow_sub_one_eq_mod, Nat.mod_eq_of_lt hlt]

namespace WellFormedVersions

variable (hwf : WellFormedVersions m verneeds verdefs strtab)

include hwf

theorem indices_nodup : ((linkedRecords m verneeds verdefs).map VersionRecord.index).Nodup := by
  have hdefs : (defRecords m verdefs).map VersionRecord.index =
      ((linkedDefs m verdefs).map fun entry => entry.2.vdNdx).map UInt16.toNat := by
    rw [defRecords, List.map_map, List.map_map]
    apply List.map_congr_left
    intro entry hentry
    exact congrArg UInt16.toNat (versionIndex_of_lt (hwf.defNdx entry hentry))
  have hneeds : ((linkedAuxes m verneeds).map VerNeedAux.record).map VersionRecord.index =
      ((linkedAuxes m verneeds).map VerNeedAux.vnaOther).map UInt16.toNat := by
    rw [List.map_map, List.map_map]
    apply List.map_congr_left
    intro aux haux
    exact congrArg UInt16.toNat (versionIndex_of_lt (hwf.needNdx aux haux))
  rw [linkedRecords, List.map_append, hdefs, hneeds, ← List.map_append]
  exact hwf.distinct.map fun _ _ => UInt16.toNat_inj.mp

theorem slots_nodup :
    ((linkedRecords m verneeds verdefs).map (VersionRecord.slot strtab)).Nodup := by
  apply List.Nodup.of_map Prod.fst
  rw [List.map_map]
  exact hwf.indices_nodup

/-- Where the adjacent records cover the linked ones, both are the same. -/
theorem slots_perm (hadj : AuxesAdjacent m verneeds strtab) :
    ((linkedRecords m verneeds verdefs).map (VersionRecord.slot strtab)).Perm
      ((visitedRecords m verneeds verdefs).map (VersionRecord.slot strtab)) := by
  apply Slots.perm_of_covered hwf.slots_nodup
  · rw [List.length_map, List.length_map, visitedRecords_length]
  · intro k hk
    obtain ⟨r, hr, rfl⟩ := List.mem_map.mp hk
    rcases List.mem_append.mp hr with hdef | hneed
    · exact List.mem_map_of_mem (List.mem_append_left _ hdef)
    · obtain ⟨aux, haux, rfl⟩ := List.mem_map.mp hneed
      obtain ⟨aux', haux', hindex, hhash, hname⟩ := hadj aux haux
      have hslot : aux'.record.slot strtab = aux.record.slot strtab := by
        simp only [VersionRecord.slot, VersionRecord.version, VerNeedAux.record, hindex, hhash,
          hname]
      rw [← hslot]
      exact List.mem_map_of_mem (List.mem_append_right _ (List.mem_map_of_mem haux'))

/-- A number stands for one version. -/
theorem version_unique {r r' : VersionRecord} (hr : r ∈ linkedRecords m verneeds verdefs)
    (hr' : r' ∈ linkedRecords m verneeds verdefs) (hindex : r.index = r'.index) : r = r' :=
  List.inj_on_of_nodup_map hwf.indices_nodup hr hr' hindex

/-- What stands in the slot of a linked need was written by an adjacent record. -/
theorem adjacent_of_built (hbuilt : BuiltFromLinks m versionIds verneeds verdefs strtab) :
    AuxesAdjacent m verneeds strtab := by
  intro aux haux
  have hrecord : aux.record ∈ (linkedAuxes m verneeds).map VerNeedAux.record :=
    List.mem_map_of_mem haux
  have hlinked : aux.record ∈ linkedRecords m verneeds verdefs := List.mem_append_right _ hrecord
  obtain ⟨v, hv⟩ := hwf.named _ hlinked
  obtain ⟨table, hnew, hall⟩ := hbuilt
  obtain ⟨hslot, -⟩ := hall _ hlinked v hv
  rw [new_eq hwf.counted] at hnew
  obtain ⟨versions, hstores, hret⟩ := Exec.except_map_ok_iff.mp hnew
  cases hret
  obtain ⟨writes, hwrites, rfl⟩ := (storeRecords_ok_iff index_lt_slotCount).mp hstores
  rcases Slots.mem_of_getElem?_fill hslot with hempty | hmem
  · rw [List.getElem?_replicate] at hempty
    split at hempty <;> simp at hempty
  · obtain ⟨r, hr, hindex, hversion⟩ := (mem_writes_iff hwrites).mp hmem
    rcases List.mem_append.mp hr with hdef | hneed
    · -- a definition never has the number of a need
      have hnodup := hwf.indices_nodup
      rw [linkedRecords, List.map_append, List.nodup_append] at hnodup
      exact absurd hindex (hnodup.2.2 _ (List.mem_map_of_mem hdef) _ (List.mem_map_of_mem hrecord))
    · obtain ⟨aux', haux', rfl⟩ := List.mem_map.mp hneed
      obtain ⟨hname, hhash⟩ := version_ok_iff.mp hv
      obtain ⟨hname', hhash'⟩ := version_ok_iff.mp hversion
      exact ⟨aux', haux', hindex, hhash'.trans hhash.symm, hname'.trans hname.symm⟩

/-- The stores succeed and leave each linked version in its slot. -/
theorem stored_of_adjacent (hadj : AuxesAdjacent m verneeds strtab) :
    ∃ versions, storeRecords strtab (List.replicate (slotCount m verneeds verdefs) none)
        (visitedRecords m verneeds verdefs) = .ok versions ∧
      ∀ r ∈ linkedRecords m verneeds verdefs, ∀ v, r.version strtab = .ok v →
        versions[r.index]? = some (some v) := by
  have hperm := hwf.slots_perm hadj
  have hback : ∀ r ∈ visitedRecords m verneeds verdefs,
      ∃ r' ∈ linkedRecords m verneeds verdefs, r'.slot strtab = r.slot strtab := by
    intro r hr
    exact List.mem_map.mp (hperm.mem_iff.mpr (List.mem_map_of_mem hr))
  have hnamed : ∀ r ∈ visitedRecords m verneeds verdefs, ∃ v, r.version strtab = .ok v := by
    intro r hr
    obtain ⟨r', hr', hslot⟩ := hback r hr
    obtain ⟨v, hv⟩ := hwf.named r' hr'
    exact ⟨v, (congrArg Prod.snd hslot).symm.trans hv⟩
  obtain ⟨writes, hwrites⟩ := exists_writes hnamed
  refine ⟨_, (storeRecords_ok_iff index_lt_slotCount).mpr ⟨writes, hwrites, rfl⟩, fun r hr v hv => ?_⟩
  obtain ⟨r', hr', hslot⟩ := List.mem_map.mp (hperm.mem_iff.mp (List.mem_map_of_mem hr))
  have hindex : r'.index = r.index := congrArg Prod.fst hslot
  have hversion : r'.version strtab = .ok v := (congrArg Prod.snd hslot).trans hv
  apply Slots.getElem?_fill_of_agree
  · rw [← hindex]
    exact index_lt_slotCount r' hr'
  · exact (mem_writes_iff hwrites).mpr ⟨r', hr', hindex, hversion⟩
  · intro v' hv'
    obtain ⟨r₁, hr₁, hindex₁, hversion₁⟩ := (mem_writes_iff hwrites).mp hv'
    obtain ⟨r₂, hr₂, hslot₂⟩ := hback r₁ hr₁
    have hsame : r₂ = r := by
      apply hwf.version_unique hr₂ hr
      rw [← hindex₁]
      exact congrArg Prod.fst hslot₂
    have hboth : (.ok v : Except Halt Version) = .ok v' := by
      rw [← hv, ← hversion₁, ← hsame]
      exact congrArg Prod.snd hslot₂
    exact (Except.ok.inj hboth).symm

end WellFormedVersions

/-- A symbol's requirement and the comparison with it read the slot of its number. -/
theorem versions_compared {table : ELFVersion} {symIdx : Nat} {ndx : UInt16} {v : Version}
    (hid : table.versionIds[symIdx]? = some ndx)
    (hslot : table.versions[(versionIndex ndx).toNat]? = some (some v)) :
    getRequirement (some table) symIdx =
        .ok (if versionIndex ndx ≤ 1 then none
          else some { name := v.name, hash := v.hash, hidden := isHidden ndx }) ∧
      ∀ req, checkMatch (some table) symIdx (some req) =
        .ok (versionMatches req v (isHidden ndx)) := by
  constructor
  · simp only [getRequirement, ELFVersion.versionId, hid, ELFVersion.version, hslot, bind,
      Except.bind]
    split <;> rfl
  · intro req
    apply checkMatch_of_record
    simp only [versionRecord, Option.bind_eq_bind, Option.bind_some, hid, hslot]
    rfl

/-- The table holds the versions the file names exactly when the records that
stand back to back are, in number, name and hash, the linked ones. -/
theorem version_table_built_iff (hwf : WellFormedVersions m verneeds verdefs strtab)
    (versionIds : List UInt16) :
    BuiltFromLinks m versionIds verneeds verdefs strtab ↔ AuxesAdjacent m verneeds strtab := by
  constructor
  · exact hwf.adjacent_of_built
  · intro hadj
    obtain ⟨versions, hstores, hslots⟩ := hwf.stored_of_adjacent hadj
    refine ⟨{ versionIds, versions }, ?_, fun r hr v hv => ?_⟩
    · rw [new_eq hwf.counted, hstores]
      rfl
    · have hslot := hslots r hr v hv
      refine ⟨hslot, fun symIdx ndx hid hindex => versions_compared hid ?_⟩
      rw [hindex]
      exact hslot

/-! ## Auxiliary records without gaps -/

/-- Two walks agree when they make the same steps; the step behind the last
record is never made. -/
theorem walk_congr {R : Type} {read : BitVec w → R} {step step' : R → UInt32} {num : Nat}
    {ptr : BitVec w}
    (h : ∀ entry ∈ (walk read step num ptr).dropLast, step entry.2 = step' entry.2) :
    walk read step num ptr = walk read step' num ptr := by
  induction num generalizing ptr with
  | zero => rfl
  | succ num ih =>
      cases num with
      | zero => rfl
      | succ num =>
          have hsplit : (walk read step (num + 2) ptr).dropLast = (ptr, read ptr) ::
              (walk read step (num + 1) (byteAdd ptr (step (read ptr)))).dropLast := rfl
          rw [hsplit] at h
          obtain ⟨hhead, hrest⟩ := List.forall_mem_cons.mp h
          change (ptr, read ptr) :: walk read step (num + 1) (byteAdd ptr (step (read ptr))) =
            (ptr, read ptr) :: walk read step' (num + 1) (byteAdd ptr (step' (read ptr)))
          rw [ih hrest, hhead]

/-- The layout every linker in use writes: the auxiliary records of a need
follow one another without a gap. -/
def ContiguousAuxes (m : Bytes w) (verneeds : Option (BitVec w × Nat)) : Prop :=
  ∀ need ∈ linkedNeeds m verneeds, ∀ entry ∈ (walk (VerNeedAux.read m) VerNeedAux.vnaNext
    need.2.vnCnt.toNat (byteAdd need.1 need.2.vnAux)).dropLast, entry.2.vnaNext = verNeedAuxSize

theorem AuxesAdjacent.of_contiguous (h : ContiguousAuxes m verneeds) :
    AuxesAdjacent m verneeds strtab := by
  have hsame : linkedAuxes m verneeds = adjacentAuxes m verneeds := by
    rw [linkedAuxes, adjacentAuxes, needAuxes, needAuxes]
    apply List.flatMap_congr
    intro need hneed
    exact congrArg (List.map Prod.snd) (walk_congr (h need hneed))
  intro aux haux
  rw [hsame] at haux
  exact ⟨aux, haux, rfl, rfl, rfl⟩

end Build

/-- A need at address 4096 with two auxiliary records, the second `gap` bytes
behind the end of the first: `a` with number 2 and `b` with number 3. -/
def twoNeeds (gap : Nat) : Bytes 64 :=
  write (fun _ => 0) 4096 (
    [1, 0, 2, 0, 1, 0, 0, 0, 16, 0, 0, 0, 0, 0, 0, 0] ++
    [97, 0, 0, 0, 0, 0, 2, 0, 1, 0, 0, 0, 16 + UInt8.ofNat gap, 0, 0, 0] ++
    List.replicate gap 0 ++
    [98, 0, 0, 0, 0, 0, 3, 0, 3, 0, 0, 0, 0, 0, 0, 0])

def twoNeedsNames : List UInt8 := [0, 97, 0, 98, 0]

theorem version_of_terminated {strtab : List UInt8} {r : VersionRecord}
    (h : 0 ∈ strtab.drop r.nameOff.toNat) : ∃ v, r.version strtab = .ok v :=
  ⟨⟨(strtab.drop r.nameOff.toNat).takeWhile (· ≠ 0), r.hash⟩,
    version_ok_iff.mpr ⟨if_pos h, rfl⟩⟩

theorem twoNeeds_wellFormed (gap : Nat) (hgap : gap = 0 ∨ gap = 16) :
    WellFormedVersions (twoNeeds gap) (some (4096, 1)) none twoNeedsNames := by
  rcases hgap with rfl | rfl
  all_goals exact
    { counted := by intro entry hentry; cases hentry
      defNdx := by intro entry hentry; cases hentry
      needNdx := by decide
      distinct := by decide
      named := by
        intro r hr
        apply version_of_terminated
        revert r
        decide }

/-- Without a gap both versions are found under their numbers. -/
theorem twoNeeds_built :
    BuiltFromLinks (twoNeeds 0) [0, 3] (some (4096, 1)) none twoNeedsNames := by
  rw [version_table_built_iff (twoNeeds_wellFormed 0 (.inl rfl))]
  apply AuxesAdjacent.of_contiguous
  unfold ContiguousAuxes
  decide

/-- With a gap of 16 bytes the loop reads the gap as the second record, and no
slot is left for `b`. -/
theorem gap_loses_version :
    WellFormedVersions (twoNeeds 16) (some (4096, 1)) none twoNeedsNames ∧
      ELFVersion.new (twoNeeds 16) (some [0, 3]) (some (4096, 1)) none twoNeedsNames =
        .ok (some { versionIds := [0, 3], versions := [some ⟨[], 0⟩, none, some ⟨[97], 97⟩] }) ∧
      ¬ BuiltFromLinks (twoNeeds 16) [0, 3] (some (4096, 1)) none twoNeedsNames := by
  refine ⟨twoNeeds_wellFormed 16 (.inr rfl), by decide, fun hbuilt => ?_⟩
  have hadj := (twoNeeds_wellFormed 16 (.inr rfl)).adjacent_of_built hbuilt
  revert hadj
  unfold AuxesAdjacent
  decide

end ElfLoader
