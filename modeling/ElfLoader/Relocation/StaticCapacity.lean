import ElfLoader.Relocation.StaticSlots
import ElfLoader.Segment.SectionLayout

/-! # The capacity of the GOT and the PLT

`count_needed_entries` reads the relocation sections before the layout and puts
every symbol that an entry may ask for into one of two sets. What the relocator
asks for later, in whatever order and however the symbols resolve, is among them.
-/

namespace ElfLoader

open ByteMemory

variable {K O : Type}

/-! ## The count -/

namespace PltGotSection

/-- The sets foresee the slots that an entry may ask for. -/
def ForeseesEntry (sets : Finset Nat × Finset Nat) (rel : ElfRelType 64) : Prop :=
  (rel.rType = X86_64Relocator.rX86_64_GOTPCREL → rel.rSymbol ∈ sets.1) ∧
    (rel.rType = X86_64Relocator.rX86_64_PLT32 → rel.rSymbol ∈ sets.2)

/-- More symbols, all of them symbols of entries. -/
def Extends (sets sets' : Finset Nat × Finset Nat) : Prop :=
  (sets.1 ⊆ sets'.1 ∧ sets.2 ⊆ sets'.2) ∧
    ∀ r, r ∈ sets'.1 ∨ r ∈ sets'.2 → (r ∈ sets.1 ∨ r ∈ sets.2) ∨ r < 2 ^ 32

section Count

variable {sets sets' sets'' : Finset Nat × Finset Nat} {rel : ElfRelType 64}

theorem Extends.refl (sets : Finset Nat × Finset Nat) : Extends sets sets :=
  ⟨⟨subset_rfl, subset_rfl⟩, fun _ hr => .inl hr⟩

theorem Extends.trans (h : Extends sets sets') (h' : Extends sets' sets'') :
    Extends sets sets'' := by
  refine ⟨⟨h.1.1.trans h'.1.1, h.1.2.trans h'.1.2⟩, fun r hr => ?_⟩
  rcases h'.2 r hr with hr | hr
  · exact h.2 r hr
  · exact .inr hr

theorem Extends.lt_of_empty (h : Extends (∅, ∅) sets) {r : Nat} (hr : r ∈ sets.1 ∨ r ∈ sets.2) :
    r < 2 ^ 32 := by
  rcases h.2 r hr with hnone | hlt
  · simp at hnone
  · exact hlt

theorem ForeseesEntry.extends (h : ForeseesEntry sets rel) (hext : Extends sets sets') :
    ForeseesEntry sets' rel :=
  ⟨fun hty => hext.1.1 (h.1 hty), fun hty => hext.1.2 (h.2 hty)⟩

theorem rSymbol_lt (rel : ElfRelType 64) : rel.rSymbol < 2 ^ 32 := by
  have h := rel.rInfo.isLt
  unfold ElfRelType.rSymbol
  rw [BitVec.toNat_ushiftRight, Nat.shiftRight_eq_div_pow]
  exact Nat.div_lt_of_lt_mul (by simpa [relBit] using h)

theorem countEntry_spec (sets : Finset Nat × Finset Nat) (rel : ElfRelType 64) :
    Extends sets (countEntry X86_64Relocator.staticReloc sets rel) ∧
      ForeseesEntry (countEntry X86_64Relocator.staticReloc sets rel) rel := by
  have hinsert (c : Bool) (set : Finset Nat) :
      set ⊆ (if c then insert rel.rSymbol set else set) ∧
        ∀ r ∈ (if c then insert rel.rSymbol set else set), r ∈ set ∨ r < 2 ^ 32 := by
    cases c with
    | false => exact ⟨subset_rfl, fun r hr => .inl hr⟩
    | true =>
        refine ⟨Finset.subset_insert _ _, fun r hr => ?_⟩
        rcases Finset.mem_insert.mp hr with rfl | hr
        · exact .inr (rSymbol_lt rel)
        · exact .inl hr
  have hgot := hinsert (X86_64Relocator.needsGot rel.rType) sets.1
  have hplt := hinsert (X86_64Relocator.needsPlt rel.rType) sets.2
  refine ⟨⟨⟨hgot.1, hplt.1⟩, ?_⟩, ?_, ?_⟩
  · intro r hr
    rcases hr with hr | hr
    · exact (hgot.2 r hr).imp_left .inl
    · exact (hplt.2 r hr).imp_left .inr
  · intro hty
    simp [countEntry, X86_64Relocator.staticReloc, X86_64Relocator.needsGot, hty]
  · intro hty
    simp [countEntry, X86_64Relocator.staticReloc, X86_64Relocator.needsPlt, hty]

theorem countEntries_spec (sets : Finset Nat × Finset Nat) (rels : List (ElfRelType 64)) :
    Extends sets (rels.foldl (countEntry X86_64Relocator.staticReloc) sets) ∧
      ∀ rel ∈ rels,
        ForeseesEntry (rels.foldl (countEntry X86_64Relocator.staticReloc) sets) rel := by
  induction rels generalizing sets with
  | nil => exact ⟨.refl sets, nofun⟩
  | cons rel rels ih =>
      obtain ⟨hext, hrel⟩ := countEntry_spec sets rel
      obtain ⟨hext', hrels⟩ := ih (countEntry X86_64Relocator.staticReloc sets rel)
      exact ⟨hext.trans hext', List.forall_mem_cons.mpr ⟨hrel.extends hext', hrels⟩⟩

end Count

end PltGotSection

/-- A relocation section. -/
def ElfShdr.IsReloc (shdr : ElfShdr 64) : Prop := shdr.shType = shtRel ∨ shdr.shType = shtRela

/-- The entries that a relocation section of the file holds. -/
def ElfShdr.relocEntries (shdr : ElfShdr 64) (file : List UInt8) : List (ElfRelType 64) :=
  relEntries 24 ((file.drop shdr.shOffset.toNat).take shdr.shSize.toNat)

/-- The relocation sections have entries of the size of `ElfRelType` and can be read. -/
structure RelocSections (R : ElfReader 64 O) (shdrs : List (ElfShdr 64)) : Prop where
  entsize : ∀ shdr ∈ shdrs, shdr.IsReloc → shdr.shEntsize = 24
  readable : ∀ shdr ∈ shdrs, shdr.IsReloc → ∀ o, ∃ bytes o',
    R.read shdr.shSize.toNat shdr.shOffset o = .ok bytes o'

theorem RelocSections.tail {R : ElfReader 64 O} {shdr : ElfShdr 64} {shdrs : List (ElfShdr 64)}
    (h : RelocSections R (shdr :: shdrs)) : RelocSections R shdrs where
  entsize := fun shdr' hmem => h.entsize shdr' (List.mem_cons_of_mem _ hmem)
  readable := fun shdr' hmem => h.readable shdr' (List.mem_cons_of_mem _ hmem)

namespace PltGotSection

section Count

variable {R : ElfReader 64 O} {file : List UInt8} {sets sets' : Finset Nat × Finset Nat} {o o' : O}

theorem countShdr_spec (hR : ReadsFile R file) {shdr : ElfShdr 64}
    {shdrs : List (ElfShdr 64)} (hsec : RelocSections R (shdr :: shdrs))
    (h : countShdr X86_64Relocator.staticReloc R sets shdr o = .ok sets' o') :
    Extends sets sets' ∧
      (shdr.IsReloc → ∀ rel ∈ shdr.relocEntries file, ForeseesEntry sets' rel) := by
  unfold countShdr at h
  split_ifs at h with hkind hempty
  · cases h
    refine ⟨.refl sets, fun hreloc => ?_⟩
    rcases hreloc with hreloc | hreloc
    · exact absurd hreloc hkind.1
    · exact absurd hreloc hkind.2
  · cases h
    refine ⟨.refl sets, fun hreloc rel hrel => ?_⟩
    have hsize : shdr.shSize = 0 := by
      rcases hempty with hsize | hent
      · exact hsize
      · rw [hsec.entsize shdr List.mem_cons_self hreloc] at hent
        exact absurd hent (by decide)
    rw [ElfShdr.relocEntries, hsize] at hrel
    simp [relEntries] at hrel
  · have hreloc : shdr.IsReloc := by
      by_contra hnot
      rw [ElfShdr.IsReloc, not_or] at hnot
      exact hkind hnot
    obtain ⟨bytes, o₁, hread⟩ := hsec.readable shdr List.mem_cons_self hreloc o
    rw [hread, hsec.entsize shdr List.mem_cons_self hreloc] at h
    cases h
    have hspec := countEntries_spec sets (relEntries 24 bytes)
    rw [(hR.read hread).1] at hspec ⊢
    exact ⟨hspec.1, fun _ => hspec.2⟩

theorem countShdrs_spec (hR : ReadsFile R file) {shdrs : List (ElfShdr 64)}
    (hsec : RelocSections R shdrs)
    (h : shdrs.foldlM (countShdr X86_64Relocator.staticReloc R) sets o = .ok sets' o') :
    Extends sets sets' ∧
      ∀ shdr ∈ shdrs, shdr.IsReloc → ∀ rel ∈ shdr.relocEntries file, ForeseesEntry sets' rel := by
  induction shdrs generalizing sets o with
  | nil =>
      cases h
      exact ⟨.refl _, nofun⟩
  | cons shdr shdrs ih =>
      rw [List.foldlM_cons] at h
      obtain ⟨sets₁, o₁, hshdr, hrest⟩ := Exec.bind_ok_iff.mp h
      obtain ⟨hext, hrels⟩ := countShdr_spec hR hsec hshdr
      obtain ⟨hext', hlater⟩ := ih hsec.tail hrest
      refine ⟨hext.trans hext', List.forall_mem_cons.mpr ⟨fun hreloc rel hrel => ?_, hlater⟩⟩
      exact (hrels hreloc rel hrel).extends hext'

/-- `count_needed_entries` counts the symbols of sets that foresee every entry. -/
theorem countNeededEntries_spec (hR : ReadsFile R file) {shdrs : List (ElfShdr 64)}
    (hsec : RelocSections R shdrs) {gotCnt pltCnt : Nat}
    (h : countNeededEntries X86_64Relocator.staticReloc R shdrs o = .ok (gotCnt, pltCnt) o') :
    ∃ sets, gotCnt = capacity sets .got ∧ pltCnt = capacity sets .plt ∧
      (∀ r, r ∈ sets.1 ∨ r ∈ sets.2 → r < 2 ^ 32) ∧
      ∀ shdr ∈ shdrs, shdr.IsReloc → ∀ rel ∈ shdr.relocEntries file, ForeseesEntry sets rel := by
  unfold countNeededEntries at h
  obtain ⟨sets, o₁, hfold, hret⟩ := Exec.bind_ok_iff.mp h
  simp only [Exec.pure_apply, EStateM.Result.ok.injEq, Prod.mk.injEq] at hret
  obtain ⟨⟨rfl, rfl⟩, rfl⟩ := hret
  obtain ⟨hext, hrels⟩ := countShdrs_spec hR hsec hfold
  exact ⟨sets, rfl, rfl, fun r hr => hext.lt_of_empty hr, hrels⟩

end Count

end PltGotSection

namespace PltGotSection

/-- The entry is one of a relocation section, up to `r_offset`, which
`ObjectBuilder::new` rebases. -/
def EntryOf (file : List UInt8) (shdrs : List (ElfShdr 64)) (rel : ElfRelType 64) : Prop :=
  ∃ shdr ∈ shdrs, shdr.IsReloc ∧ ∃ entry ∈ shdr.relocEntries file, entry.rInfo = rel.rInfo

theorem EntryOf.foreseen {file : List UInt8} {shdrs : List (ElfShdr 64)} {rel : ElfRelType 64}
    {sets : Finset Nat × Finset Nat} (h : EntryOf file shdrs rel)
    (hrels : ∀ shdr ∈ shdrs, shdr.IsReloc → ∀ rel ∈ shdr.relocEntries file,
      ForeseesEntry sets rel) : ForeseesEntry sets rel := by
  obtain ⟨shdr, hshdr, hreloc, entry, hentry, hinfo⟩ := h
  have hforesees := hrels shdr hshdr hreloc entry hentry
  unfold ForeseesEntry ElfRelType.rType ElfRelType.rSymbol at hforesees
  rwa [hinfo] at hforesees

/-- The size of the section reserved for a table. -/
def reservedSize (gotCnt pltCnt : Nat) : SlotKind → Nat
  | .got => (createGotShdr gotCnt : ElfShdr 64).shSize.toNat
  | .plt => (createPltShdr pltCnt : ElfShdr 64).shSize.toNat

theorem reservedSize_eq {sets : Finset Nat × Finset Nat}
    (hfit : ∀ r, r ∈ sets.1 ∨ r ∈ sets.2 → r < 2 ^ 32) (table : SlotKind) :
    reservedSize (capacity sets .got) (capacity sets .plt) table =
      capacity sets table * table.entrySize := by
  have hlt := capacity_fits hfit table
  cases table with
  | got => exact Nat.mod_eq_of_lt hlt
  | plt => exact Nat.mod_eq_of_lt hlt

end PltGotSection

/-- An address in a section of an image, counted from the base. -/
theorem ElfShdr.mem_range_of_within {shdr : ElfShdr 64} {base a : BitVec 64} {n : Nat}
    (hin : shdr.range ⊆ Set.Ico 0 n) (hn : n ≤ 2 ^ 64)
    (h : Within (base + shdr.shAddr) shdr.shSize.toNat a) : (a - base).toNat ∈ shdr.range := by
  have hpos : 0 < shdr.shSize.toNat := Nat.lt_of_le_of_lt (Nat.zero_le _) h
  have hlast : shdr.shAddr.toNat + shdr.shSize.toNat - 1 ∈ shdr.range := by
    rw [ElfShdr.range, Set.mem_Ico]
    omega
  have hend := (hin hlast).2
  have haddr : shdr.shAddr = BitVec.ofNat 64 shdr.shAddr.toNat := by simp
  rw [haddr, within_add_iff (by omega)] at h
  exact h

/-! ## Runs -/

/-- The lookups as they answer while one entry is relocated. -/
structure Answers where
  ifunc : BitVec 64 → BitVec 64
  preFind : SymbolLookup 64
  postFind : SymbolLookup 64

namespace RawObject

variable [CustomHasher]

/-- `relocate_impl` on one entry. -/
def relocateEntry (object : RawObject K) (scope : List (LoadedCore 64))
    (step : Answers × ElfRelType 64) : Static K Unit :=
  X86_64Relocator.relocate step.1.ifunc object.core scope step.1.preFind step.1.postFind step.2

/-- The state before the first entry. -/
def start (object : RawObject K) (os : OsState 64 K) : StaticState K :=
  { os, pltgot := .new object.gotBase object.pltBase, trace := [] }

/-- What `count_needed_entries` returns for the entries of the object. -/
def neededEntries (object : RawObject K) : Nat × Nat :=
  let sets := object.relocation.flatten.foldl
    (PltGotSection.countEntry X86_64Relocator.staticReloc) (∅, ∅)
  (sets.1.card + sets.2.card, sets.2.card)

theorem neededEntries_spec (object : RawObject K) :
    ∃ sets, object.neededEntries =
        (PltGotSection.capacity sets .got, PltGotSection.capacity sets .plt) ∧
      (∀ r, r ∈ sets.1 ∨ r ∈ sets.2 → r < 2 ^ 32) ∧
      ∀ rel ∈ object.relocation.flatten, PltGotSection.ForeseesEntry sets rel := by
  obtain ⟨hext, hrels⟩ := PltGotSection.countEntries_spec (∅, ∅) object.relocation.flatten
  exact ⟨_, rfl, fun r hr => hext.lt_of_empty hr, hrels⟩

/-- The slots that one entry is handed out. -/
def slotsFor (object : RawObject K) (scope : List (LoadedCore 64))
    (step : Answers × ElfRelType 64) (s : StaticState K) : List Slot :=
  (X86_64Relocator.serveEntry step.1.ifunc object.core scope step.1.preFind step.1.postFind step.2
    s.pltgot).1

/-- The slots handed out by the loop over the entries, up to its first failure. -/
def handedOut (object : RawObject K) (scope : List (LoadedCore 64)) :
    List (Answers × ElfRelType 64) → StaticState K → List Slot
  | [], _ => []
  | step :: steps, s =>
      object.slotsFor scope step s ++
        match object.relocateEntry scope step s with
        | .ok _ s' => object.handedOut scope steps s'
        | .error _ _ => []

/-- With lookups that answer the same each time, the loop is that of `relocate_impl`. -/
theorem relocateImpl_eq_loop (object : RawObject K) (ifunc : BitVec 64 → BitVec 64)
    (scope : List (LoadedCore 64)) (preFind postFind : SymbolLookup 64) (os : OsState 64 K) :
    object.run ifunc scope preFind postFind os =
      ((object.relocation.flatten.map fun rel => (⟨ifunc, preFind, postFind⟩, rel)).forM
          (object.relocateEntry scope) >>= fun _ => do
        object.protect
        object.callInit
        return LoadedCore.fromCore object.core) (object.start os) := by
  have hloop : (object.relocation.forM fun reloc =>
        reloc.forM (X86_64Relocator.relocate ifunc object.core scope preFind postFind) :
          Static K Unit) =
      (object.relocation.flatten.map fun rel => (⟨ifunc, preFind, postFind⟩, rel)).forM
        (object.relocateEntry scope) := by
    funext s
    rw [Exec.forM_flatten, Exec.forM_map_apply]
    rfl
  unfold run relocateImpl
  rw [hloop]
  rfl

variable {object : RawObject K} {scope : List (LoadedCore 64)} {base : SlotKind → BitVec 64}
  {sets : Finset Nat × Finset Nat}

open PltGotSection

theorem step_located (object : RawObject K) (scope : List (LoadedCore 64))
    {step : Answers × ElfRelType 64} {s : StaticState K} {order : List SlotKey}
    (hforesees : ForeseesEntry sets step.2) (h : s.pltgot.Follows base order)
    (hkeys : ∀ key ∈ order, Foreseen sets key) :
    ∃ order', order <+: order' ∧
      (Exec.finalState (object.relocateEntry scope step s)).pltgot.Follows base order' ∧
      (∀ key ∈ order', Foreseen sets key) ∧
      ∀ slot ∈ object.slotsFor scope step s, Located base order' slot := by
  rw [relocateEntry, X86_64Relocator.relocate_pltgot]
  unfold slotsFor X86_64Relocator.serveEntry
  cases hreq : X86_64Relocator.request step.1.ifunc object.core scope step.1.preFind
      step.1.postFind step.2 with
  | none => exact ⟨order, List.prefix_rfl, h, hkeys, nofun⟩
  | some kind =>
      obtain ⟨hfollows, hslots⟩ := h.serve ⟨kind, step.2.rSymbol⟩
      have hkey : Foreseen sets ⟨kind, step.2.rSymbol⟩ := by
        rcases X86_64Relocator.request_type hreq with ⟨rfl, hty⟩ | ⟨rfl, hty⟩
        · exact hforesees.1 hty
        · exact hforesees.2 hty
      exact ⟨_, FirstCome.isPrefix_serve order _, hfollows, foreseen_serve hkeys hkey,
        fun slot hslot => (hslots slot hslot).2⟩

/-- The loop hands out slots at the places that the order of the first requests
gives them. -/
theorem handedOut_located {steps : List (Answers × ElfRelType 64)} {s : StaticState K}
    {order : List SlotKey} (hforesees : ∀ step ∈ steps, ForeseesEntry sets step.2)
    (h : s.pltgot.Follows base order) (hkeys : ∀ key ∈ order, Foreseen sets key) :
    ∃ order', order <+: order' ∧
      (Exec.finalState (steps.forM (object.relocateEntry scope) s)).pltgot.Follows base order' ∧
      (∀ key ∈ order', Foreseen sets key) ∧
      ∀ slot ∈ object.handedOut scope steps s, Located base order' slot := by
  induction steps generalizing s order with
  | nil => exact ⟨order, List.prefix_rfl, h, hkeys, nofun⟩
  | cons step steps ih =>
      obtain ⟨hstep, hsteps⟩ := List.forall_mem_cons.mp hforesees
      obtain ⟨order₁, hpre, hfollows, hkeys₁, hslots⟩ :=
        step_located object scope hstep h hkeys
      rw [Exec.forM_cons_apply, handedOut]
      cases hrun : object.relocateEntry scope step s with
      | error e s₁ =>
          rw [hrun] at hfollows
          rw [Exec.bind_of_error hrun, List.append_nil]
          exact ⟨order₁, hpre, hfollows, hkeys₁, hslots⟩
      | ok u s₁ =>
          rw [hrun] at hfollows
          rw [Exec.bind_of_ok hrun]
          obtain ⟨order₂, hpre₂, hfollows₂, hkeys₂, hslots₂⟩ := ih hsteps hfollows hkeys₁
          refine ⟨order₂, hpre.trans hpre₂, hfollows₂, hkeys₂, fun slot hslot => ?_⟩
          rcases List.mem_append.mp hslot with hslot | hslot
          · exact (hslots slot hslot).of_isPrefix hpre₂
          · exact hslots₂ slot hslot

/-- The address of the section reserved for a table. -/
def reservedBase (object : RawObject K) : SlotKind → BitVec 64
  | .got => object.gotBase
  | .plt => object.pltBase

/-- The section reserved for a table. -/
def Reserved (object : RawObject K) (gotCnt pltCnt : Nat) (table : SlotKind) (a : BitVec 64) :
    Prop :=
  Within (object.reservedBase table) (reservedSize gotCnt pltCnt table) a

/-- The tables stay in their sections, and no two pairs share a slot. Slots of
different tables are apart because the sections are. -/
structure SlotsSafe (object : RawObject K) (gotCnt pltCnt : Nat) (pltgot : PltGotSection)
    (slots : List Slot) : Prop where
  gotIdx : pltgot.gotIdx ≤ gotCnt
  pltIdx : pltgot.pltIdx ≤ pltCnt
  inside : ∀ slot ∈ slots, ∀ a, slot.Covers a → object.Reserved gotCnt pltCnt slot.table a
  same : ∀ slot ∈ slots, ∀ slot' ∈ slots, slot.key = slot'.key → slot.table = slot'.table →
    slot.addr = slot'.addr
  apart : ∀ slot ∈ slots, ∀ slot' ∈ slots, slot.key ≠ slot'.key →
    (slot.table = slot'.table ∨
      ∀ a, object.Reserved gotCnt pltCnt .got a → ¬ object.Reserved gotCnt pltCnt .plt a) →
    ∀ a, slot.Covers a → ¬ slot'.Covers a

/-- Slots that follow the order of the first requests are safe. -/
theorem SlotsSafe.of_located {pltgot : PltGotSection} {slots : List Slot} {order : List SlotKey}
    (hfit : ∀ r, r ∈ sets.1 ∨ r ∈ sets.2 → r < 2 ^ 32)
    (hfollows : pltgot.Follows object.reservedBase order)
    (hkeys : ∀ key ∈ order, Foreseen sets key)
    (hslots : ∀ slot ∈ slots, Located object.reservedBase order slot) :
    SlotsSafe object (capacity sets .got) (capacity sets .plt) pltgot slots := by
  have hplace {slot : Slot} (hslot : slot ∈ slots) :
      place order slot.key slot.table < capacity sets slot.table :=
    place_lt_capacity hfollows.nodup hkeys (hslots slot hslot).mem (hslots slot hslot).table
  have hinside : ∀ slot ∈ slots, ∀ a, slot.Covers a →
      object.Reserved (capacity sets .got) (capacity sets .plt) slot.table a := by
    intro slot hslot a ha
    rw [Slot.Covers, (hslots slot hslot).addr] at ha
    rw [Reserved, reservedSize_eq hfit]
    exact within_table_of_entry (hplace hslot) (capacity_fits hfit _) ha
  refine ⟨?_, ?_, hinside, ?_, ?_⟩
  · rw [hfollows.gotIdx]
    exact order_length_le hfollows.nodup hkeys
  · rw [hfollows.pltIdx]
    exact pltOrder_length_le hfollows.nodup hkeys
  · intro slot hslot slot' hslot' hkey htable
    rw [(hslots slot hslot).addr, (hslots slot' hslot').addr, hkey, htable]
  · intro slot hslot slot' hslot' hkey hapart a ha ha'
    by_cases htable : slot.table = slot'.table
    · have hne := place_ne (hslots slot hslot).mem hkey (hslots slot hslot).table
        (htable ▸ (hslots slot' hslot').table)
      rw [Slot.Covers, (hslots slot' hslot').addr, ← htable] at ha'
      rw [Slot.Covers, (hslots slot hslot).addr] at ha
      exact entries_apart (hplace hslot) (htable ▸ hplace hslot') (capacity_fits hfit _) hne ha ha'
    · have hsections := hapart.resolve_left htable
      have hin := hinside slot hslot a ha
      have hin' := hinside slot' hslot' a ha'
      cases hgot : slot.table with
      | got =>
          cases hgot' : slot'.table with
          | got => exact htable (hgot.trans hgot'.symm)
          | plt =>
              rw [hgot] at hin
              rw [hgot'] at hin'
              exact hsections a hin hin'
      | plt =>
          cases hgot' : slot'.table with
          | got =>
              rw [hgot] at hin
              rw [hgot'] at hin'
              exact hsections a hin' hin
          | plt => exact htable (hgot.trans hgot'.symm)

/-- The layout keeps the two sections apart. -/
theorem reserved_apart {S : StaticReloc} {R : ElfReader 64 O} {shdrs out : List (ElfShdr 64)}
    {gotCnt pltCnt : Nat} {o o' o₁ : O} {ss : SectionSegments 64} {base : BitVec 64}
    (hreg : ∀ shdr ∈ shdrs, shdr.Regular)
    (hcount : countNeededEntries S R shdrs o = .ok (gotCnt, pltCnt) o₁)
    (hfit : NoOverflow shdrs gotCnt pltCnt)
    (hrun : SectionSegments.new S R shdrs o = .ok (ss, out) o')
    (hgot : object.gotBase = base + ss.gotBase) (hplt : object.pltBase = base + ss.pltBase)
    (a : BitVec 64) (ha : object.Reserved gotCnt pltCnt .got a) :
    ¬ object.Reserved gotCnt pltCnt .plt a := by
  have hlayout := SectionSegments.new_objectLayout hreg hcount hfit hrun
  obtain ⟨hgotShdr, hpltShdr⟩ := SectionSegments.new_reserved hreg hcount hfit hrun
  obtain ⟨got, hgotAt, hgotEq⟩ := Option.map_eq_some_iff.mp hgotShdr
  obtain ⟨plt, hpltAt, hpltEq⟩ := Option.map_eq_some_iff.mp hpltShdr
  obtain ⟨hgotLt, rfl⟩ := List.getElem?_eq_some_iff.mp hgotAt
  obtain ⟨hpltLt, rfl⟩ := List.getElem?_eq_some_iff.mp hpltAt
  rw [Prod.mk.injEq] at hgotEq hpltEq
  have hdisjoint := List.pairwise_iff_getElem.mp hlayout.disjoint _ _ hgotLt hpltLt
    (Nat.lt_succ_self _)
  intro ha'
  have htotal := Nat.le_of_lt ss.totalSize.isLt
  have hgotSize : reservedSize gotCnt pltCnt .got = gotCnt * (64 / 8) := Nat.mod_eq_of_lt hfit.got
  have hpltSize : reservedSize gotCnt pltCnt .plt = pltCnt * pltEntrySize :=
    Nat.mod_eq_of_lt hfit.plt
  rw [Reserved, reservedBase, hgot, hgotSize, ← hgotEq.1, ← hgotEq.2] at ha
  rw [Reserved, reservedBase, hplt, hpltSize, ← hpltEq.1, ← hpltEq.2] at ha'
  have hmem := ElfShdr.mem_range_of_within (hlayout.inside _ (List.getElem_mem hgotLt)) htotal ha
  have hmem' := ElfShdr.mem_range_of_within (hlayout.inside _ (List.getElem_mem hpltLt)) htotal ha'
  exact Set.disjoint_left.mp hdisjoint hmem hmem'

/-- At every point of `relocate_impl`, whatever the lookups answered, the GOT and
the PLT have not overflown and no two pairs share a slot. -/
theorem slots_safe {R : ElfReader 64 O} {file : List UInt8} {shdrs : List (ElfShdr 64)}
    {gotCnt pltCnt : Nat} {o o' : O} (hR : ReadsFile R file) (hsec : RelocSections R shdrs)
    (hcount : countNeededEntries X86_64Relocator.staticReloc R shdrs o = .ok (gotCnt, pltCnt) o')
    (object : RawObject K) (hobj : ∀ rel ∈ object.relocation.flatten, EntryOf file shdrs rel)
    (scope : List (LoadedCore 64)) (os : OsState 64 K) (steps : List (Answers × ElfRelType 64))
    (hpoint : steps.map Prod.snd <+: object.relocation.flatten) :
    SlotsSafe object gotCnt pltCnt
      (Exec.finalState (steps.forM (object.relocateEntry scope) (object.start os))).pltgot
      (object.handedOut scope steps (object.start os)) := by
  obtain ⟨sets, rfl, rfl, hfit, hrels⟩ := countNeededEntries_spec hR hsec hcount
  have hforesees : ∀ step ∈ steps, ForeseesEntry sets step.2 := by
    intro step hstep
    have hentry := hobj step.2 (hpoint.subset (List.mem_map_of_mem hstep))
    exact hentry.foreseen hrels
  have hstart : (object.start os).pltgot.Follows object.reservedBase [] :=
    Follows.new object.gotBase object.pltBase
  obtain ⟨order, -, hfollows, hkeys, hslots⟩ := handedOut_located hforesees hstart nofun
  exact SlotsSafe.of_located hfit hfollows hkeys hslots

end RawObject

/-! ## The object with one call -/

section Sample

attribute [local instance] constantHasher

/-- The object of `callFile` at `0x10000`; its only symbol is `f`. -/
def callObject : RawObject Unit where
  core := { sampleCore 1 stbGlobal 0 0 with
    segments := { memory := 0x10000, offset := 0, len := 0x3000 } }
  relocation := [[⟨0x2009, 0x100000004, -4⟩]]
  gotBase := 0x11010
  pltBase := 0x12010
  mprotect := pure ()
  initArray := none

/-- The lookups place `f` out of the reach of a call. -/
def farAnswers : Answers := ⟨id, knowsF 0x700000000000, fun _ => none⟩

theorem callShdrs_relocSections : RelocSections (bytesReader callFile none) callShdrs where
  entsize := by
    unfold ElfShdr.IsReloc
    decide
  readable := by
    have hin : ∀ shdr ∈ callShdrs, shdr.IsReloc →
        shdr.shOffset.toNat + shdr.shSize.toNat ≤ callFile.length := by
      unfold ElfShdr.IsReloc
      decide
    intro shdr hshdr hreloc o
    exact ⟨_, _, if_pos (hin shdr hshdr hreloc)⟩

theorem callObject_entries :
    ∀ rel ∈ callObject.relocation.flatten, PltGotSection.EntryOf callFile callShdrs rel := by
  intro rel hrel
  obtain rfl : rel = ⟨0x2009, 0x100000004, -4⟩ := by simpa [callObject] using hrel
  refine ⟨_, List.mem_cons_of_mem _ (List.mem_cons_of_mem _ List.mem_cons_self), .inr rfl,
    ⟨1, 0x100000004, -4⟩, ?_, rfl⟩
  decide

theorem call_count :
    PltGotSection.countNeededEntries X86_64Relocator.staticReloc (bytesReader callFile none)
      callShdrs () = .ok (2, 1) () := rfl

theorem callObject_slots_safe :
    (callObject.handedOut [] [(farAnswers, ⟨0x2009, 0x100000004, -4⟩)]
        (callObject.start ⟨fun _ => 0, ()⟩)).length = 2 ∧
      callObject.SlotsSafe 2 1
        (Exec.finalState ([(farAnswers, ⟨0x2009, 0x100000004, -4⟩)].forM
          (callObject.relocateEntry []) (callObject.start ⟨fun _ => 0, ()⟩))).pltgot
        (callObject.handedOut [] [(farAnswers, ⟨0x2009, 0x100000004, -4⟩)]
          (callObject.start ⟨fun _ => 0, ()⟩)) := by
  refine ⟨rfl, ?_⟩
  exact RawObject.slots_safe (bytesReader_readsFile callFile none) callShdrs_relocSections
    call_count callObject callObject_entries [] _ _ List.prefix_rfl

end Sample

end ElfLoader
