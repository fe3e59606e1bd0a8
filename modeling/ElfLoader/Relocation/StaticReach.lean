import ElfLoader.Relocation.Run
import ElfLoader.Relocation.Static

/-! # When relocating an object panics

Four conversions of a distance to 32 bits are unwrapped: that from a GOT slot or
a PLT stub to the field, and within a stub that from its jump to its slot. The
other distances that do not fit become errors.
-/

namespace ElfLoader

open ByteMemory Exec

variable {K : Type}

/-- The address of the entry, whether it was there or is new. -/
def GotEntry.addr : GotEntry → BitVec 64
  | .occupied addr => addr
  | .vacant addr => addr

def PltEntry.addr : PltEntry → BitVec 64
  | .occupied addr => addr
  | .vacant plt _ => plt

/-- The GOT slot that a new stub jumps through. -/
def PltEntry.newSlot : PltEntry → Option (BitVec 64)
  | .occupied _ => none
  | .vacant _ got => some got

/-- The distance fits a signed field of 32 bits. -/
def FitsI32 (v : BitVec 64) : Prop := -2 ^ 31 ≤ v.toInt ∧ v.toInt < 2 ^ 31

instance (v : BitVec 64) : Decidable (FitsI32 v) := inferInstanceAs (Decidable (_ ∧ _))

theorem toI32_of_fits {v : BitVec 64} (h : FitsI32 v) : toI32 v = some (v.setWidth 32) := if_pos h

theorem toI32_of_not_fits {v : BitVec 64} (h : ¬ FitsI32 v) : toI32 v = none := if_neg h

namespace X86_64Relocator

/-- The types that `relocate` knows. -/
def knownTypes : List Nat :=
  [rX86_64_64, rX86_64_PC32, rX86_64_PLT32, rX86_64_GOTPCREL, rX86_64_32, rX86_64_32S]

section Slots

variable {s : StaticState K}

theorem unwrap_of_fits {v : BitVec 64} (h : FitsI32 v) :
    Static.unwrap (toI32 v) s = .ok (v.setWidth 32) s := by
  rw [toI32_of_fits h]
  rfl

theorem unwrap_of_not_fits {v : BitVec 64} (h : ¬ FitsI32 v) :
    Static.unwrap (toI32 v) s =
      .error (.panic "called `Result::unwrap()` on an `Err` value") s := by
  rw [toI32_of_not_fits h]
  rfl

theorem gotSlot_returns (rel : ElfRelType 64) (sym : BitVec 64) (s : StaticState K) :
    ∃ s', gotSlot rel sym s = .ok (s.pltgot.addGotEntry rel.rSymbol).1.addr s' := by
  unfold gotSlot
  have hadd : Static.addGotEntry rel.rSymbol s = .ok (s.pltgot.addGotEntry rel.rSymbol).1
      { s with pltgot := (s.pltgot.addGotEntry rel.rSymbol).2 } := rfl
  rw [Exec.bind_of_ok hadd]
  cases (s.pltgot.addGotEntry rel.rSymbol).1 with
  | occupied addr => exact ⟨_, rfl⟩
  | vacant addr => exact ⟨_, rfl⟩

/-- The state in which the result of `add_plt_entry` is looked at. -/
theorem addPltEntry_returns (rSym : Nat) (s : StaticState K) :
    ∃ s', Static.addPltEntry rSym s = .ok (s.pltgot.addPltEntry rSym).1 s' := by
  unfold Static.addPltEntry
  rw [Exec.bind_of_ok (Exec.get_apply s)]
  obtain ⟨entry, pltgot'⟩ := s.pltgot.addPltEntry rSym
  cases entry with
  | occupied plt => exact ⟨_, rfl⟩
  | vacant plt got => exact ⟨_, rfl⟩

/-- A stub is made unless it is new and cannot reach its slot. -/
theorem pltStub_cases (rel : ElfRelType 64) (sym : BitVec 64) (s : StaticState K) :
    let stub := (s.pltgot.addPltEntry rel.rSymbol).1
    ((∀ got, stub.newSlot = some got → FitsI32 (got - stub.addr - 10)) ∧
        ∃ s', pltStub rel sym s = .ok stub.addr s') ∨
      (∃ got, stub.newSlot = some got ∧ ¬ FitsI32 (got - stub.addr - 10)) ∧
        ∃ msg s', pltStub rel sym s = .error (.panic msg) s' := by
  obtain ⟨s₁, hadd⟩ := addPltEntry_returns rel.rSymbol s
  unfold pltStub
  rw [Exec.bind_of_ok hadd]
  generalize (s.pltgot.addPltEntry rel.rSymbol).1 = stub
  cases stub with
  | occupied plt => exact .inl ⟨nofun, s₁, rfl⟩
  | vacant plt got =>
      have hfill : Static.fill rel got sym s₁ = .ok () (Exec.finalState (Static.fill rel got sym s₁)) :=
        rfl
      dsimp only
      by_cases hfits : FitsI32 (got - plt - 10)
      · refine .inl ⟨fun got' hgot' => by cases hgot'; exact hfits, ?_⟩
        rw [Exec.bind_of_ok hfill, Exec.bind_of_ok (unwrap_of_fits hfits)]
        exact ⟨_, rfl⟩
      · refine .inr ⟨⟨got, rfl, hfits⟩, ?_⟩
        rw [Exec.bind_of_ok hfill, Exec.bind_of_error (unwrap_of_not_fits hfits)]
        exact ⟨_, _, rfl⟩

/-- A distance that is unwrapped, and a write. -/
theorem unwrap_link_iff (rel : ElfRelType 64) (v addr slot : BitVec 64) :
    StopsOnly Halt.IsErr ((do
      let val ← Static.unwrap (toI32 v)
      Static.link rel addr slot (leBytes val) : Static K Unit) s) ↔ FitsI32 v := by
  by_cases hfits : FitsI32 v
  · rw [Exec.bind_of_ok (unwrap_of_fits hfits)]
    exact ⟨fun _ => hfits, fun _ => stopsOnly_ok _ _ _⟩
  · rw [Exec.bind_of_error (unwrap_of_not_fits hfits), stopsOnly_error]
    exact ⟨fun ⟨e, he⟩ => (by cases he), fun h => absurd h hfits⟩

end Slots

section Reach

variable [CustomHasher]
variable (ifunc : BitVec 64 → BitVec 64) (core : ElfCore 64) (scope : List (LoadedCore 64))
  (preFind postFind : SymbolLookup 64)

/-- The lookup of the entry's symbol, or of its name when the type is unknown,
does not panic itself. -/
def LookupAnswers (rel : ElfRelType 64) : Prop :=
  if rel.rType ∈ knownTypes then
    ∀ h, findSymbolAddr ifunc preFind postFind core scope rel.rSymbol = .error h → h.IsErr
  else ∀ h, relocError Arch.x86_64 rel "unknown symbol" core = .error h → h.IsErr

/-- The field can reach the slot or the stub it is to refer to, and a new stub
its slot. -/
def SlotsInReach (pltgot : PltGotSection) (rel : ElfRelType 64) (sym : BitVec 64) : Prop :=
  let p := core.base + rel.rOffset
  if rel.rType = rX86_64_GOTPCREL then
    FitsI32 ((pltgot.addGotEntry rel.rSymbol).1.addr + rel.rAddend - p)
  else if rel.rType = rX86_64_PLT32 ∧ ¬ FitsI32 (sym + rel.rAddend - p) then
    let stub := (pltgot.addPltEntry rel.rSymbol).1
    (∀ got, stub.newSlot = some got → FitsI32 (got - stub.addr - 10)) ∧
      FitsI32 (stub.addr + rel.rAddend - p)
  else True

/-- What an entry needs for `relocate` to return in the state it is reached in. -/
def InReach (s : StaticState K) (rel : ElfRelType 64) : Prop :=
  LookupAnswers ifunc core scope preFind postFind rel ∧
    ∀ sym, symbolAddr ifunc core scope preFind postFind rel.rSymbol = some sym →
      SlotsInReach core s.pltgot rel sym

variable {ifunc core scope preFind postFind}
variable {rel : ElfRelType 64} {s : StaticState K}

/-- Where the lookup of the symbol returned, its name can be read. -/
theorem relocError_of_lookup {found : Option (BitVec 64 × Option Nat)}
    (h : findSymbolAddr ifunc preFind postFind core scope rel.rSymbol = .ok found)
    (err : String) : ∃ e, relocError Arch.x86_64 rel err core = .ok e := by
  unfold findSymbolAddr at h
  obtain ⟨⟨ref, info⟩, hsym, -⟩ := Exec.except_bind_ok_iff.mp h
  unfold relocError
  dsimp only
  split
  · exact ⟨_, rfl⟩
  · rw [hsym]
    exact ⟨_, rfl⟩

theorem fail_of_lookup {α : Type} {found : Option (BitVec 64 × Option Nat)}
    (h : findSymbolAddr ifunc preFind postFind core scope rel.rSymbol = .ok found)
    (err : String) (s : StaticState K) :
    ∃ e, (fail core rel err : Static K α) s = .error (.err e) s := by
  obtain ⟨e, he⟩ := relocError_of_lookup h err
  unfold fail
  rw [he]
  exact ⟨e, rfl⟩

/-- A conversion whose failure is an error, and a write. -/
theorem inRange_patch {found : Option (BitVec 64 × Option Nat)}
    (h : findSymbolAddr ifunc preFind postFind core scope rel.rSymbol = .ok found)
    (val : Option (BitVec 32)) (addr sym : BitVec 64) :
    StopsOnly Halt.IsErr ((do
      let val ← inRange core rel val
      Static.patch rel addr sym (leBytes val) : Static K Unit) s) := by
  cases val with
  | some val => exact stopsOnly_ok _ _ _
  | none =>
      have hfail : ∃ e, inRange core rel (none : Option (BitVec 32)) s = .error (.err e) s :=
        fail_of_lookup h _ s
      obtain ⟨e, he⟩ := hfail
      rw [Exec.bind_of_error he, stopsOnly_error]
      exact ⟨e, rfl⟩

/-- With the symbol at hand, `relocate` returns exactly when the slots are in reach. -/
theorem relocate_some_iff {sym : BitVec 64} (hty : rel.rType ∈ knownTypes)
    (hsym : symbolAddr ifunc core scope preFind postFind rel.rSymbol = some sym) :
    StopsOnly Halt.IsErr (relocate ifunc core scope preFind postFind rel s) ↔
      SlotsInReach core s.pltgot rel sym := by
  obtain ⟨i, hfind⟩ := symbolAddr_eq_some_iff.mp hsym
  rw [relocate_of_some hsym]
  simp only [knownTypes, List.mem_cons, List.not_mem_nil, or_false] at hty
  unfold SlotsInReach
  rcases hty with hty | hty | hty | hty | hty | hty
  all_goals rw [hty]
  · exact iff_of_true (stopsOnly_ok _ _ _) trivial
  · exact iff_of_true (inRange_patch hfind _ _ _) trivial
  · -- a call that does not reach its target goes through a stub
    by_cases hdirect : FitsI32 (sym + rel.rAddend - (core.base + rel.rOffset))
    · rw [toI32_of_fits hdirect]
      refine iff_of_true (stopsOnly_ok _ _ _) ?_
      simp [hdirect, rX86_64_PLT32, rX86_64_GOTPCREL]
    · rw [toI32_of_not_fits hdirect]
      simp only [hdirect, not_false_eq_true, and_true, if_true]
      change StopsOnly _ ((pltStub rel sym >>= _) s) ↔ _ ∧ _
      rcases pltStub_cases rel sym s with ⟨hslot, s', hstub⟩ | ⟨⟨got, hnew, hfar⟩, msg, s', hstub⟩
      · rw [Exec.bind_of_ok hstub, unwrap_link_iff]
        exact ⟨fun h => ⟨hslot, h⟩, fun h => h.2⟩
      · rw [Exec.bind_of_error hstub, stopsOnly_error]
        exact ⟨fun ⟨e, he⟩ => (by cases he), fun h => absurd (h.1 got hnew) hfar⟩
  · obtain ⟨s', hslot⟩ := gotSlot_returns rel sym s
    change StopsOnly _ ((gotSlot rel sym >>= _) s) ↔ _
    rw [Exec.bind_of_ok hslot, unwrap_link_iff]
    rfl
  · exact iff_of_true (inRange_patch hfind _ _ _) trivial
  · exact iff_of_true (inRange_patch hfind _ _ _) trivial

/-- An entry of a known type whose symbol is not found stops at the search. -/
theorem relocate_of_search_error {h : Halt} (hty : rel.rType ∈ knownTypes)
    (hfind : findSymbol ifunc core scope preFind postFind rel s = .error h s) :
    relocate ifunc core scope preFind postFind rel s = .error h s := by
  simp only [knownTypes, List.mem_cons, List.not_mem_nil, or_false] at hty
  unfold relocate
  split_ifs
  all_goals
    first
    | exact Exec.bind_of_error hfind
    | tauto

theorem relocate_of_unknown (hty : rel.rType ∉ knownTypes) :
    relocate ifunc core scope preFind postFind rel s = fail core rel "unknown symbol" s := by
  simp only [knownTypes, List.mem_cons, List.not_mem_nil, or_false, not_or] at hty
  unfold relocate
  simp only [hty, if_false]

theorem fail_answers_iff (err : String) :
    StopsOnly Halt.IsErr (fail core rel err s : EStateM.Result Halt (StaticState K) Unit) ↔
      ∀ h, relocError Arch.x86_64 rel err core = .error h → h.IsErr := by
  unfold fail
  cases herr : relocError Arch.x86_64 rel err core with
  | ok e => exact iff_of_true ((stopsOnly_error _ _ _).mpr ⟨e, rfl⟩) nofun
  | error h =>
      change StopsOnly Halt.IsErr (.error h s) ↔ _
      rw [stopsOnly_error]
      exact ⟨fun hh h' heq => by cases heq; exact hh, fun hh => hh h rfl⟩

/-- `relocate` returns for an entry exactly when the lookup does and the slots
are in reach. -/
theorem relocate_answers_iff :
    StopsOnly Halt.IsErr (relocate ifunc core scope preFind postFind rel s) ↔
      InReach ifunc core scope preFind postFind s rel := by
  unfold InReach LookupAnswers
  by_cases hty : rel.rType ∈ knownTypes
  · rw [if_pos hty]
    cases hfind : findSymbolAddr ifunc preFind postFind core scope rel.rSymbol with
    | error h =>
        have hnone : symbolAddr ifunc core scope preFind postFind rel.rSymbol = none := by
          rw [symbolAddr, hfind]
        have hsearch : findSymbol ifunc core scope preFind postFind rel s = .error h s := by
          rw [findSymbol, hfind]
          rfl
        rw [relocate_of_search_error hty hsearch, stopsOnly_error, hnone]
        refine ⟨fun hh => ⟨fun h' heq => by cases heq; exact hh, nofun⟩, fun hh => hh.1 h rfl⟩
    | ok found =>
        cases found with
        | none =>
            have hnone : symbolAddr ifunc core scope preFind postFind rel.rSymbol = none := by
              rw [symbolAddr, hfind]
            obtain ⟨e, he⟩ := fail_of_lookup (α := BitVec 64) hfind "unknown symbol" s
            have hsearch : findSymbol ifunc core scope preFind postFind rel s =
                .error (.err e) s := by
              rw [findSymbol, hfind]
              exact he
            rw [relocate_of_search_error hty hsearch, stopsOnly_error, hnone]
            exact iff_of_true ⟨e, rfl⟩ ⟨nofun, nofun⟩
        | some found =>
            obtain ⟨sym, i⟩ := found
            have hsym : symbolAddr ifunc core scope preFind postFind rel.rSymbol = some sym :=
              symbolAddr_eq_some_iff.mpr ⟨i, hfind⟩
            rw [relocate_some_iff hty hsym, hsym]
            refine ⟨fun h => ⟨nofun, fun sym' heq => by cases heq; exact h⟩, fun h => h.2 sym rfl⟩
  · rw [if_neg hty, relocate_of_unknown hty, fail_answers_iff]
    simp only [knownTypes, List.mem_cons, not_or] at hty
    have hslots : ∀ sym, SlotsInReach core s.pltgot rel sym := by
      intro sym
      unfold SlotsInReach
      simp only [hty, false_and, if_false]
    exact ⟨fun h => ⟨h, fun sym _ => hslots sym⟩, fun h => h.1⟩

end Reach

end X86_64Relocator

namespace RawObject

variable [CustomHasher]

/-- The relocations of an object end in `Ok` or `Err` exactly when every entry
that the loop comes to has its lookup answered and its slots in reach. -/
theorem relocations_answer_iff (object : RawObject K) (ifunc : BitVec 64 → BitVec 64)
    (scope : List (LoadedCore 64)) (preFind postFind : SymbolLookup 64) (s : StaticState K) :
    StopsOnly Halt.IsErr ((object.relocation.forM fun reloc =>
        reloc.forM (X86_64Relocator.relocate ifunc object.core scope preFind postFind)) s) ↔
      ∀ before rel after s₁, object.relocation.flatten = before ++ rel :: after →
        before.forM (X86_64Relocator.relocate ifunc object.core scope preFind postFind) s =
          .ok () s₁ →
        X86_64Relocator.InReach ifunc object.core scope preFind postFind s₁ rel := by
  rw [forM_flatten, forM_stopsOnly_iff]
  simp only [X86_64Relocator.relocate_answers_iff]

end RawObject

section Sample

attribute [local instance] constantHasher

/-- An object whose only entry refers to the GOT slot of `f` with an addend. -/
def slotReference (addend : BitVec 64) : RawObject Unit where
  core := sampleCore 1 stbGlobal 1 0x40
  relocation := [[⟨0x100, 0x100000009, addend⟩]]
  gotBase := 0x10c00
  pltBase := 0x10d00
  mprotect := pure ()
  initArray := none

/-- With an addend of 2 GiB the field cannot reach the slot, and relocation panics;
the same distance to the symbol itself is an error. -/
theorem far_slot_panics :
    (∃ s', (slotReference 0x80000000).run id [] (fun _ => none) (fun _ => none) emptyMemory =
        .error (.panic "called `Result::unwrap()` on an `Err` value") s') ∧
      ∃ e s', { slotReference 0 with relocation := [[⟨0x100, 0x100000002, 0x80000100⟩]] }.run id []
        (fun _ => none) (fun _ => none) emptyMemory = .error (.err e) s' := by
  refine ⟨⟨_, rfl⟩, ⟨_, _, rfl⟩⟩

end Sample

end ElfLoader
