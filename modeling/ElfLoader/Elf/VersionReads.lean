import ElfLoader.Elf.VersionTable

/-! # Which slots of the version table are read

`get_requirement` passes over the two reserved version numbers before it looks
at the table; `check_match` looks at the table at once. A slot that holds no
version stops the model, so a lookup that returns has read written slots only.
-/

namespace ElfLoader

variable {w : Nat}

/-- Every version number of a symbol is reserved or one the file names. -/
def VersionsNamed (m : ByteMemory.Bytes w) (versionIds : List UInt16)
    (verneeds verdefs : Option (BitVec w × Nat)) : Prop :=
  ∀ ndx ∈ versionIds, versionIndex ndx ≤ 1 ∨
    ∃ r ∈ linkedRecords m verneeds verdefs, r.index = (versionIndex ndx).toNat

/-- The slot of a version number lies in the table and has been written. -/
def ELFVersion.Written (table : ELFVersion) (ndx : UInt16) : Prop :=
  ∃ v, table.versions[(versionIndex ndx).toNat]? = some (some v)

/-- Both functions read written slots of the table only, or none. -/
def ReadsWritten (table : ELFVersion) (symIdx : Nat) (req : Option SymbolVersion) : Prop :=
  (∃ r, getRequirement (some table) symIdx = .ok r) ∧
    ∃ b, checkMatch (some table) symIdx req = .ok b

section Reads

variable {table : ELFVersion} {symIdx : Nat} {ndx : UInt16}

/-- A read of the table returns exactly when the slot is written. -/
theorem version_ok_iff_written :
    (∃ v, table.version (versionIndex ndx) = .ok v) ↔ table.Written ndx := by
  unfold ELFVersion.version ELFVersion.Written
  cases table.versions[(versionIndex ndx).toNat]? with
  | none => simp
  | some slot =>
      cases slot with
      | none => simp
      | some v => simp

theorem getRequirement_returns_iff (hid : table.versionIds[symIdx]? = some ndx) :
    (∃ r, getRequirement (some table) symIdx = .ok r) ↔
      versionIndex ndx ≤ 1 ∨ table.Written ndx := by
  rw [← version_ok_iff_written]
  simp only [getRequirement, ELFVersion.versionId, hid]
  by_cases hreserved : versionIndex ndx ≤ 1
  · simp only [hreserved, true_or, iff_true]
    exact ⟨none, if_pos hreserved⟩
  · simp only [hreserved, false_or]
    cases hv : table.version (versionIndex ndx) with
    | error e => simp [bind, Except.bind, hreserved, hv]
    | ok v => simp [bind, Except.bind, hreserved, pure, Except.pure, hv]

theorem checkMatch_returns_iff (hid : table.versionIds[symIdx]? = some ndx)
    (req : Option SymbolVersion) :
    (∃ b, checkMatch (some table) symIdx req = .ok b) ↔ req = none ∨ table.Written ndx := by
  cases req with
  | none => simp [checkMatch, pure, Except.pure]
  | some req =>
      rw [← version_ok_iff_written]
      simp only [checkMatch, ELFVersion.versionId, hid, reduceCtorEq, false_or]
      cases hv : table.version (versionIndex ndx) with
      | error e => simp [bind, Except.bind, hv]
      | ok v => simp [bind, Except.bind, pure, Except.pure, hv]

end Reads

section Written

variable {m : ByteMemory.Bytes w} {verneeds verdefs : Option (BitVec w × Nat)}
  {strtab : List UInt8} {versionIds : List UInt16} {table : ELFVersion}

theorem index_mem_writes {rs : List VersionRecord} {writes : List (Nat × Version)}
    (h : Writes strtab rs writes) {r : VersionRecord} (hr : r ∈ rs) :
    r.index ∈ writes.map Prod.fst := by
  induction h with
  | nil => cases hr
  | @cons r' write rs writes hhead htail ih =>
      rw [List.map_cons, List.mem_cons]
      rcases List.mem_cons.mp hr with rfl | hr
      · exact .inl hhead.2.symm
      · exact .inr (ih hr)

/-- A definition without an auxiliary record stops `ELFVersion::new`. -/
theorem counted_of_new
    (hnew : ELFVersion.new m (some versionIds) verneeds verdefs strtab = .ok (some table)) :
    ∀ entry ∈ linkedDefs m verdefs, 1 ≤ entry.2.vdCnt := by
  have hdefs : ∃ versions versions', ((verdefs.map (verDefIterator m)).getD []).foldlM
      (ELFVersion.storeDef strtab) versions = .ok versions' := by
    unfold ELFVersion.new at hnew
    obtain ⟨versions', hloop, -⟩ := Exec.except_bind_ok_iff.mp hnew
    exact ⟨_, versions', hloop⟩
  obtain ⟨versions, versions', hloop⟩ := hdefs
  cases verdefs with
  | none =>
      intro entry hentry
      cases hentry
  | some defs =>
      simp only [Option.map_some, Option.getD_some, verDefIterator, linkedDefs] at hloop ⊢
      generalize walk (VerDef.read m) VerDef.vdNext defs.2 defs.1 = entries at hloop
      induction entries generalizing versions with
      | nil =>
          intro entry hentry
          cases hentry
      | cons entry entries ih =>
          rw [List.map_cons, List.foldlM_cons] at hloop
          obtain ⟨next, hstore, hrest⟩ := Exec.except_bind_ok_iff.mp hloop
          refine List.forall_mem_cons.mpr ⟨?_, ih next hrest⟩
          by_contra hzero
          have hcnt : entry.2.vdCnt.toNat = 0 := by
            have hlt : ¬ 1 ≤ entry.2.vdCnt.toNat := fun h => hzero (UInt16.le_iff_toNat_le.mpr h)
            omega
          simp only [ELFVersion.storeDef, hcnt, verDefAuxIterator, walk, List.map_nil] at hstore
          cases hstore

theorem versionIds_of_new
    (hnew : ELFVersion.new m (some versionIds) verneeds verdefs strtab = .ok (some table)) :
    table.versionIds = versionIds := by
  rw [new_eq (counted_of_new hnew)] at hnew
  obtain ⟨versions, -, hret⟩ := Exec.except_map_ok_iff.mp hnew
  cases hret
  rfl

/-- The written slots are those of the records the loops visit. -/
theorem written_iff
    (hnew : ELFVersion.new m (some versionIds) verneeds verdefs strtab = .ok (some table))
    (ndx : UInt16) :
    table.Written ndx ↔
      ∃ r ∈ visitedRecords m verneeds verdefs, r.index = (versionIndex ndx).toNat := by
  rw [new_eq (counted_of_new hnew)] at hnew
  obtain ⟨versions, hstores, hret⟩ := Exec.except_map_ok_iff.mp hnew
  cases hret
  obtain ⟨writes, hwrites, rfl⟩ := (storeRecords_ok_iff index_lt_slotCount).mp hstores
  constructor
  · rintro ⟨v, hv⟩
    rcases Slots.mem_of_getElem?_fill hv with hempty | hmem
    · rw [List.getElem?_replicate] at hempty
      split at hempty <;> simp at hempty
    · obtain ⟨r, hr, hindex, -⟩ := (mem_writes_iff hwrites).mp hmem
      exact ⟨r, hr, hindex⟩
  · rintro ⟨r, hr, hindex⟩
    have hlt : (versionIndex ndx).toNat <
        (List.replicate (slotCount m verneeds verdefs) (none : Option Version)).length := by
      rw [← hindex]
      exact index_lt_slotCount r hr
    exact Slots.exists_getElem?_fill hlt (hindex ▸ index_mem_writes hwrites hr)

/-- The table is read where it was written exactly when the number of the
symbol is that of a visited record, or is reserved and nothing is required. -/
theorem reads_written_iff
    (hnew : ELFVersion.new m (some versionIds) verneeds verdefs strtab = .ok (some table))
    {symIdx : Nat} {ndx : UInt16} (hid : versionIds[symIdx]? = some ndx)
    (req : Option SymbolVersion) :
    ReadsWritten table symIdx req ↔
      (∃ r ∈ visitedRecords m verneeds verdefs, r.index = (versionIndex ndx).toNat) ∨
        versionIndex ndx ≤ 1 ∧ req = none := by
  have hids : table.versionIds[symIdx]? = some ndx := by
    rw [versionIds_of_new hnew]
    exact hid
  unfold ReadsWritten
  rw [getRequirement_returns_iff hids, checkMatch_returns_iff hids, ← written_iff hnew]
  tauto

end Written

/-- The table of a library that needs two versions and defines none. Its own
exports carry number 1, whose slot nothing is written to. -/
def needsOnly (versionIds : List UInt16) : ELFVersion where
  versionIds
  versions := [none, none, some ⟨[97], 97⟩, some ⟨[98], 98⟩]

theorem needsOnly_built (versionIds : List UInt16) :
    ELFVersion.new (twoNeeds 0) (some versionIds) (some (4096, 1)) none twoNeedsNames =
      .ok (some (needsOnly versionIds)) := by
  rw [new_eq (fun entry hentry => by cases hentry)]
  have hstores : storeRecords twoNeedsNames
      (List.replicate (slotCount (twoNeeds 0) (some (4096, 1)) none) none)
      (visitedRecords (twoNeeds 0) (some (4096, 1)) none) = .ok (needsOnly []).versions := by
    decide
  rw [hstores]
  rfl

theorem needed_version_read_where_written :
    ReadsWritten (needsOnly [0, 3]) 1 (some ⟨[98], 98, true⟩) := by
  rw [reads_written_iff (needsOnly_built [0, 3]) rfl]
  decide

/-- A lookup that requires a version reads the unwritten slot of an export; with
no version data at all the slot is not even in the table. -/
theorem required_version_reads_hole :
    VersionsNamed (twoNeeds 0) [0, 1] (some (4096, 1)) none ∧
      ELFVersion.new (twoNeeds 0) (some [0, 1]) (some (4096, 1)) none twoNeedsNames =
        .ok (some (needsOnly [0, 1])) ∧
      checkMatch (some (needsOnly [0, 1])) 1 (some ⟨[97], 97, true⟩) = .error .fault ∧
      ¬ ReadsWritten (needsOnly [0, 1]) 1 (some ⟨[97], 97, true⟩) ∧
      VersionsNamed (twoNeeds 0) [0, 1] none none ∧
      ELFVersion.new (twoNeeds 0) (some [0, 1]) none none twoNeedsNames =
        .ok (some { versionIds := [0, 1], versions := [none] }) ∧
      checkMatch (some { versionIds := [0, 1], versions := [none] }) 1
        (some ⟨[97], 97, true⟩) = .error (.panic "index out of bounds") := by
  have hreserved : ∀ ndx ∈ ([0, 1] : List UInt16), versionIndex ndx ≤ 1 :=
    List.forall_mem_cons.mpr ⟨by decide, List.forall_mem_singleton.mpr (by decide)⟩
  refine ⟨fun ndx hndx => .inl (hreserved ndx hndx), needsOnly_built [0, 1], by decide, ?_,
    fun ndx hndx => .inl (hreserved ndx hndx), by decide, by decide⟩
  rintro ⟨-, b, hb⟩
  have hfault : checkMatch (some (needsOnly [0, 1])) 1 (some ⟨[97], 97, true⟩) =
      .error .fault := by decide
  rw [hfault] at hb
  cases hb

end ElfLoader
