import ElfLoader.Elf.Symbol

/-! # Symbol versions (`src/elf/version.rs`)

`versions` is the vector indexed by version numbers. The source sets its length
before it writes the records, so a slot no record names holds no `Version`:
that is `none`, and reading it is a fault.
-/

namespace ElfLoader

structure Version where
  name : Name
  hash : UInt32
deriving DecidableEq, Repr

structure ELFVersion where
  versionIds : List UInt16
  versions : List (Option Version)
deriving DecidableEq, Repr

structure SymbolVersion where
  name : Name
  hash : UInt32
  hidden : Bool
deriving DecidableEq, Repr

def verNdxVersion : UInt16 := 0x7fff
def verNdxHidden : UInt16 := 0x8000

/-- `VersionIndex::index` and `VersionIndex::is_hidden` of a `DT_VERSYM` entry. -/
def versionIndex (ndx : UInt16) : UInt16 := ndx &&& verNdxVersion

def isHidden (ndx : UInt16) : Bool := ndx &&& verNdxHidden ≠ 0

namespace SymbolVersion

/-- The loop over the bytes from the sixth on. -/
def dlElfHashRest (hash : UInt32) : List UInt8 → UInt32
  | [] => hash
  | byte :: name =>
      let hash := (hash <<< 4) + byte.toUInt32
      let hi := hash &&& 0xf0000000
      dlElfHashRest (hash ^^^ (hi >>> 24)) name

def dlElfHash : Name → Except Halt UInt32
  | [] => .error (.panic "index out of bounds")
  | b0 :: rest =>
      let hash := b0.toUInt32
      if hash = 0 then .ok hash else
      match rest with
      | [] => .ok hash
      | b1 :: rest =>
          let hash := (hash <<< 4) + b1.toUInt32
          match rest with
          | [] => .ok hash
          | b2 :: rest =>
              let hash := (hash <<< 4) + b2.toUInt32
              match rest with
              | [] => .ok hash
              | b3 :: rest =>
                  let hash := (hash <<< 4) + b3.toUInt32
                  match rest with
                  | [] => .ok hash
                  | b4 :: rest =>
                      let hash := (hash <<< 4) + b4.toUInt32
                      .ok (dlElfHashRest hash rest &&& 0x0fffffff)

/-- A requirement made by name is for that version and no other. -/
def new (name : Name) : Except Halt SymbolVersion := do
  let hash ← dlElfHash name
  return { name, hash, hidden := true }

theorem new_returns_iff {name : Name} : (∃ v, new name = .ok v) ↔ name ≠ [] := by
  cases name with
  | nil => simp [new, dlElfHash, bind, Except.bind]
  | cons b rest =>
      simp only [ne_eq, reduceCtorEq, not_false_eq_true, iff_true]
      have hhash : ∃ h, dlElfHash (b :: rest) = .ok h := by
        unfold dlElfHash
        dsimp only
        repeat' split
        all_goals exact ⟨_, rfl⟩
      obtain ⟨h, hh⟩ := hhash
      exact ⟨{ name := b :: rest, hash := h, hidden := true }, by rw [new, hh]; rfl⟩

end SymbolVersion

namespace ELFVersion

/-- The `DT_VERSYM` entry of a symbol, read through a raw pointer. -/
def versionId (gnuVersion : ELFVersion) (symIdx : Nat) : Except Halt UInt16 :=
  match gnuVersion.versionIds[symIdx]? with
  | some ndx => .ok ndx
  | none => .error .fault

/-- `&gnu_version.versions[ndx]`. -/
def version (gnuVersion : ELFVersion) (ndx : UInt16) : Except Halt Version :=
  match gnuVersion.versions[ndx.toNat]? with
  | some (some v) => .ok v
  | some none => .error .fault
  | none => .error (.panic "index out of bounds")

end ELFVersion

/-- `SymbolTable::get_requirement`. -/
def getRequirement (version : Option ELFVersion) (symIdx : Nat) :
    Except Halt (Option SymbolVersion) := do
  match version with
  | none => return none
  | some gnuVersion =>
      let verNdx ← gnuVersion.versionId symIdx
      if versionIndex verNdx ≤ 1 then return none
      let v ← gnuVersion.version (versionIndex verNdx)
      return some { name := v.name, hash := v.hash, hidden := isHidden verNdx }

/-- The comparison at the end of `check_match`: the required version, or a
default where the requirement is not hidden. -/
def versionMatches (req : SymbolVersion) (v : Version) (defHidden : Bool) : Bool :=
  (v.hash = req.hash && v.name = req.name) || (!req.hidden && !defHidden)

/-- `SymbolTable::check_match`. -/
def checkMatch (version : Option ELFVersion) (symIdx : Nat) (req : Option SymbolVersion) :
    Except Halt Bool := do
  match req with
  | none => return true
  | some req =>
      match version with
      | none => .error (.panic "called `Option::unwrap()` on a `None` value")
      | some gnuVersion =>
          let verNdx ← gnuVersion.versionId symIdx
          let v ← gnuVersion.version (versionIndex verNdx)
          return versionMatches req v (isHidden verNdx)

/-- The version record of an entry, where its module has one: the version, and
whether the entry is hidden. -/
def versionRecord (version : Option ELFVersion) (symIdx : Nat) : Option (Version × Bool) := do
  let gnuVersion ← version
  let verNdx ← gnuVersion.versionIds[symIdx]?
  let v ← gnuVersion.versions[(versionIndex verNdx).toNat]?
  return (← v, isHidden verNdx)

theorem checkMatch_of_record {version : Option ELFVersion} {symIdx : Nat} {req : SymbolVersion}
    {v : Version} {hidden : Bool} (h : versionRecord version symIdx = some (v, hidden)) :
    checkMatch version symIdx (some req) = .ok (versionMatches req v hidden) := by
  simp only [versionRecord, Option.bind_eq_bind, Option.bind_eq_some_iff] at h
  obtain ⟨gnuVersion, rfl, verNdx, hndx, slot, hslot, v', rfl, hret⟩ := h
  cases hret
  simp only [checkMatch, ELFVersion.versionId, hndx, ELFVersion.version, hslot, bind, Except.bind]
  rfl

/-- Without a record the check does not return. -/
theorem checkMatch_of_no_record {version : Option ELFVersion} {symIdx : Nat} {req : SymbolVersion}
    (h : versionRecord version symIdx = none) (b : Bool) :
    checkMatch version symIdx (some req) ≠ .ok b := by
  intro hok
  cases version with
  | none => cases hok
  | some gnuVersion =>
      simp only [checkMatch, ELFVersion.versionId, ELFVersion.version] at hok
      simp only [versionRecord, Option.bind_eq_bind, Option.bind_some] at h
      cases hndx : gnuVersion.versionIds[symIdx]? with
      | none =>
          rw [hndx] at hok
          cases hok
      | some verNdx =>
          rw [hndx] at hok h
          cases hslot : gnuVersion.versions[(versionIndex verNdx).toNat]? with
          | none =>
              simp only [bind, Except.bind, hslot] at hok
              cases hok
          | some slot =>
              cases slot with
              | none =>
                  simp only [bind, Except.bind, hslot] at hok
                  cases hok
              | some v =>
                  simp only [Option.bind_some, hslot] at h
                  cases h

end ElfLoader
