import ElfLoader.Relocation.StaticCapacity

/-! # What the fields of a relocated object mean

The psABI gives each relocation type a value in terms of the symbol `S`, the
addend `A` and the place `P`. A field that goes through the GOT or the PLT means
the symbol only through a slot or a stub, which an earlier entry may have made
and which later entries must leave alone.
-/

namespace ElfLoader

open ByteMemory

variable {K : Type}

/-! ## Narrow fields -/

theorem signExtend_of_toI32 {v : BitVec 64} {x : BitVec 32} (h : toI32 v = some x) :
    x.signExtend 64 = v := by
  unfold toI32 at h
  split_ifs at h with hrange
  cases h
  apply BitVec.eq_of_toInt_eq
  rw [BitVec.toInt_signExtend_of_le (by decide)]
  have hv := v.isLt
  rw [BitVec.toInt_eq_toNat_cond] at hrange ⊢
  rw [BitVec.toInt_eq_toNat_cond, BitVec.toNat_setWidth]
  split_ifs at hrange ⊢
  all_goals omega

theorem setWidth_of_toU32 {v : BitVec 64} {x : BitVec 32} (h : toU32 v = some x) :
    x.setWidth 64 = v := by
  unfold toU32 at h
  split_ifs at h with hrange
  cases h
  apply BitVec.eq_of_toNat_eq
  rw [BitVec.toNat_setWidth, BitVec.toNat_setWidth, Nat.mod_eq_of_lt hrange,
    Nat.mod_eq_of_lt v.isLt]

/-! ## The psABI -/

/-- The number of bytes that an entry patches. -/
def ElfRelType.fieldSize (rel : ElfRelType 64) : Nat :=
  if rel.rType = X86_64Relocator.rX86_64_64 then 8 else 4

/-- The value of the 32-bit field of an entry, sign-extended. -/
def signedField (m : Bytes 64) (place : BitVec 64) : BitVec 64 :=
  (readBits 32 m place).signExtend 64

theorem signedField_write (m : Bytes 64) (place : BitVec 64) (val : BitVec 32) :
    signedField (write m place (leBytes val)) place = val.signExtend 64 := by
  rw [signedField, readBits_write m place val (by decide) (by decide)]

/-- The field of an entry has the value that the psABI gives it, `place` being `P`
and `sym` being `S`. Which addresses are slots for `sym` in the GOT and stubs for it
in the PLT is left to the caller. -/
inductive FieldMeans (gotSlot pltStub : BitVec 64 → Prop) (m : Bytes 64) (rel : ElfRelType 64)
    (place sym : BitVec 64) : Prop where
  | word (hty : rel.rType = X86_64Relocator.rX86_64_64)
      (h : readWord m place = sym + rel.rAddend)
  | pc32 (hty : rel.rType = X86_64Relocator.rX86_64_PC32)
      (h : signedField m place = sym + rel.rAddend - place)
  | abs32 (hty : rel.rType = X86_64Relocator.rX86_64_32)
      (h : (readBits 32 m place).setWidth 64 = sym + rel.rAddend)
  | abs32S (hty : rel.rType = X86_64Relocator.rX86_64_32S)
      (h : signedField m place = sym + rel.rAddend)
  | gotpcrel (hty : rel.rType = X86_64Relocator.rX86_64_GOTPCREL)
      (h : gotSlot (place + signedField m place - rel.rAddend))
  | plt32 (hty : rel.rType = X86_64Relocator.rX86_64_PLT32)
      (h : place + signedField m place - rel.rAddend = sym ∨
        pltStub (place + signedField m place - rel.rAddend))

section Means

variable {gotSlot pltStub : BitVec 64 → Prop} {m m' : Bytes 64} {rel : ElfRelType 64}
  {place sym : BitVec 64}

/-- Only the bytes of the field matter. -/
theorem FieldMeans.congr (h : FieldMeans gotSlot pltStub m rel place sym)
    (hm : ∀ a, Within place rel.fieldSize a → m' a = m a) :
    FieldMeans gotSlot pltStub m' rel place sym := by
  have hnarrow (hty : rel.rType ≠ X86_64Relocator.rX86_64_64) :
      readBits 32 m' place = readBits 32 m place := by
    rw [ElfRelType.fieldSize, if_neg hty] at hm
    exact readBits_congr (by decide) hm
  have hsigned (hty : rel.rType ≠ X86_64Relocator.rX86_64_64) :
      signedField m' place = signedField m place := by
    rw [signedField, signedField, hnarrow hty]
  cases h with
  | word hty h =>
      refine .word hty ?_
      rw [ElfRelType.fieldSize, if_pos hty] at hm
      rw [← h]
      exact readWord_congr hm
  | pc32 hty h => exact .pc32 hty (by rwa [hsigned (by rw [hty]; decide)])
  | abs32 hty h => exact .abs32 hty (by rwa [hnarrow (by rw [hty]; decide)])
  | abs32S hty h => exact .abs32S hty (by rwa [hsigned (by rw [hty]; decide)])
  | gotpcrel hty h => exact .gotpcrel hty (by rwa [hsigned (by rw [hty]; decide)])
  | plt32 hty h => exact .plt32 hty (by rwa [hsigned (by rw [hty]; decide)])

theorem FieldMeans.mono {gotSlot' pltStub' : BitVec 64 → Prop}
    (h : FieldMeans gotSlot pltStub m rel place sym)
    (hgot : ∀ a, gotSlot a → gotSlot' a) (hplt : ∀ a, pltStub a → pltStub' a) :
    FieldMeans gotSlot' pltStub' m rel place sym := by
  cases h with
  | word hty h => exact .word hty h
  | pc32 hty h => exact .pc32 hty h
  | abs32 hty h => exact .abs32 hty h
  | abs32S hty h => exact .abs32S hty h
  | gotpcrel hty h => exact .gotpcrel hty (hgot _ h)
  | plt32 hty h => exact .plt32 hty (h.imp_right (hplt _))

end Means

/-! ## Slots and stubs -/

/-- The code of a stub up to the displacement of its jump. -/
def stubCode : List UInt8 := [0xf3, 0x0f, 0x1e, 0xfa, 0xff, 0x25]

/-- The address that the jump of a stub reads, counted from the end of the jump. -/
def stubTarget (m : Bytes 64) (stub : BitVec 64) : BitVec 64 := stub + 10 + signedField m (stub + 6)

/-- The displacement of a stub is inside it. -/
theorem within_displacement_iff {stub a : BitVec 64} :
    Within (stub + 6) 4 a ↔ 6 ≤ (a - stub).toNat ∧ (a - stub).toNat < 10 := by
  have hsix : (6 : BitVec 64) = BitVec.ofNat 64 6 := rfl
  rw [hsix, within_add_iff (by decide)]

namespace PltGotSection

/-- The entry of a pair in a table. -/
def slotAt (base : SlotKind → BitVec 64) (order : List SlotKey) (key : SlotKey)
    (table : SlotKind) : BitVec 64 :=
  entryAddr base table (place order key table)

/-- The slot of a pair holds the symbol, and its stub jumps through the slot. -/
structure SlotHolds (base : SlotKind → BitVec 64) (order : List SlotKey) (key : SlotKey)
    (sym : BitVec 64) (m : Bytes 64) : Prop where
  slot : readWord m (slotAt base order key .got) = sym
  code : key.kind = .plt → read m (slotAt base order key .plt) 6 = stubCode
  jump : key.kind = .plt →
    stubTarget m (slotAt base order key .plt) = slotAt base order key .got

/-- The addresses of the entries that a pair has. -/
def Owned (base : SlotKind → BitVec 64) (order : List SlotKey) (key : SlotKey) (a : BitVec 64) :
    Prop :=
  ∃ table, (table = .plt → key.kind = .plt) ∧
    Within (slotAt base order key table) table.entrySize a

/-- The addresses of a table of the foreseen size. -/
def InTable (base : SlotKind → BitVec 64) (sets : Finset Nat × Finset Nat) (table : SlotKind)
    (a : BitVec 64) : Prop :=
  Within (base table) (capacity sets table * table.entrySize) a

section Slots

variable {base : SlotKind → BitVec 64} {sets : Finset Nat × Finset Nat}
  {order order' : List SlotKey} {key key' : SlotKey} {sym a : BitVec 64} {m m' : Bytes 64}

theorem SlotHolds.congr (h : SlotHolds base order key sym m)
    (hm : ∀ a, Owned base order key a → m' a = m a) : SlotHolds base order key sym m' where
  slot := by
    rw [← h.slot]
    exact readWord_congr fun a ha => hm a ⟨.got, nofun, ha⟩
  code := by
    intro hkind
    rw [← h.code hkind]
    refine read_congr (by decide) fun a ha => hm a ⟨.plt, fun _ => hkind, ?_⟩
    exact Nat.lt_of_lt_of_le ha (by decide)
  jump := by
    intro hkind
    rw [← h.jump hkind, stubTarget, stubTarget, signedField, signedField]
    congr 2
    refine readBits_congr (by decide) fun a ha => hm a ⟨.plt, fun _ => hkind, ?_⟩
    have hlt := (within_displacement_iff.mp ha).2
    exact Nat.lt_trans hlt (by decide)

theorem slotAt_of_isPrefix (hpre : order <+: order') (hkey : key ∈ order) {table : SlotKind}
    (htable : table = .plt → key.kind = .plt) :
    slotAt base order' key table = slotAt base order key table := by
  rw [slotAt, slotAt, place_of_isPrefix hpre hkey htable]

theorem SlotHolds.of_isPrefix (h : SlotHolds base order key sym m) (hpre : order <+: order')
    (hkey : key ∈ order) : SlotHolds base order' key sym m := by
  have hgot : slotAt base order' key .got = slotAt base order key .got :=
    slotAt_of_isPrefix hpre hkey nofun
  have hplt (hkind : key.kind = .plt) : slotAt base order' key .plt = slotAt base order key .plt :=
    slotAt_of_isPrefix hpre hkey fun _ => hkind
  refine ⟨?_, ?_, ?_⟩
  · rw [hgot]
    exact h.slot
  · intro hkind
    rw [hplt hkind]
    exact h.code hkind
  · intro hkind
    rw [hplt hkind, hgot]
    exact h.jump hkind

/-- The entries of a pair lie in their tables. -/
theorem Owned.inTable (hfit : ∀ r, r ∈ sets.1 ∨ r ∈ sets.2 → r < 2 ^ 32) (hnodup : order.Nodup)
    (hforeseen : ∀ key ∈ order, Foreseen sets key) (hkey : key ∈ order)
    (h : Owned base order key a) : ∃ table, InTable base sets table a := by
  obtain ⟨table, htable, hin⟩ := h
  have hplace := place_lt_capacity hnodup hforeseen hkey htable
  exact ⟨table, within_table_of_entry hplace (capacity_fits hfit table) hin⟩

/-- Two pairs share no address. -/
theorem Owned.apart (hfit : ∀ r, r ∈ sets.1 ∨ r ∈ sets.2 → r < 2 ^ 32) (hnodup : order.Nodup)
    (hforeseen : ∀ key ∈ order, Foreseen sets key)
    (hapart : ∀ a, InTable base sets .got a → ¬ InTable base sets .plt a)
    (hkey : key ∈ order) (hkey' : key' ∈ order) (hne : key ≠ key')
    (h : Owned base order key a) : ¬ Owned base order key' a := by
  rintro ⟨table', htable', hin'⟩
  obtain ⟨table, htable, hin⟩ := h
  have hplace := place_lt_capacity hnodup hforeseen hkey htable
  have hplace' := place_lt_capacity hnodup hforeseen hkey' htable'
  have htab := within_table_of_entry hplace (capacity_fits hfit table) hin
  have htab' := within_table_of_entry hplace' (capacity_fits hfit table') hin'
  cases table with
  | got =>
      cases table' with
      | got =>
          have hplaces : place order key .got ≠ place order key' .got :=
            place_ne hkey hne nofun nofun
          exact entries_apart hplace hplace' (capacity_fits hfit .got) hplaces hin hin'
      | plt => exact hapart a htab htab'
  | plt =>
      cases table' with
      | got => exact hapart a htab' htab
      | plt =>
          have hplaces : place order key .plt ≠ place order key' .plt :=
            place_ne hkey hne htable htable'
          exact entries_apart hplace hplace' (capacity_fits hfit .plt) hplaces hin hin'

/-- What a call for `key` leaves: the pair has its entries, and they are filled
when they are new. -/
structure Provides (base : SlotKind → BitVec 64) (order : List SlotKey) (key : SlotKey)
    (sym : BitVec 64) (s s' : StaticState K) : Prop where
  follows : s'.pltgot.Follows base (FirstCome.serve order key)
  others : ∀ a, ¬ Owned base (FirstCome.serve order key) key a → s'.os.mem a = s.os.mem a
  old : key ∈ order → s'.os.mem = s.os.mem
  new : key ∉ order → SlotHolds base (FirstCome.serve order key) key sym s'.os.mem

/-- A stub as it is written: the template, then the slot, then the displacement. -/
theorem slotHolds_stub
    (hapart : ∀ a, Within (slotAt base order key .plt) 16 a →
      ¬ Within (slotAt base order key .got) 8 a)
    {off : BitVec 32}
    (hoff : toI32 (slotAt base order key .got - slotAt base order key .plt - 10) = some off) :
    SlotHolds base order key sym
      (write (writeWord (write m (slotAt base order key .plt) pltEntry)
        (slotAt base order key .got) sym) (slotAt base order key .plt + 6) (leBytes off)) := by
  have hdisp {a : BitVec 64}
      (h : Within (slotAt base order key .plt + 6) (leBytes off).length a) :
      6 ≤ (a - slotAt base order key .plt).toNat ∧ (a - slotAt base order key .plt).toNat < 10 :=
    within_displacement_iff.mp (by rwa [leBytes_length] at h)
  refine ⟨?_, fun _ => ?_, fun _ => ?_⟩
  · have hslot := readWord_writeWord (write m (slotAt base order key .plt) pltEntry)
      (slotAt base order key .got) sym (by decide)
    refine Eq.trans (readWord_congr fun a ha => ?_) hslot
    refine write_of_not_within fun h => hapart a ?_ ha
    have hlt := (hdisp h).2
    rw [Within]
    omega
  · have hcode : stubCode = pltEntry.take 6 := rfl
    rw [hcode, ← read_write_take m (slotAt base order key .plt) pltEntry 6 (by decide) (by decide)]
    refine read_congr (by decide) fun a ha => ?_
    have hlt : (a - slotAt base order key .plt).toNat < 6 := ha
    rw [write_of_not_within fun h => Nat.not_lt.mpr (hdisp h).1 hlt]
    refine writeWord_of_not_within (hapart a ?_)
    rw [Within]
    omega
  · rw [stubTarget, signedField_write, signExtend_of_toI32 hoff]
    grind

end Slots

end PltGotSection

namespace X86_64Relocator

open PltGotSection

theorem unwrap_eq_some {α : Type} {o : Option α} {a : α} {s s' : StaticState K}
    (h : Static.unwrap o s = .ok a s') : o = some a := by
  cases o with
  | none => cases h
  | some b =>
      cases h
      rfl

section Provide

variable {base : SlotKind → BitVec 64} {order : List SlotKey} {rel : ElfRelType 64}
  {s s' : StaticState K} {sym v : BitVec 64}

theorem gotSlot_provides (hfollows : s.pltgot.Follows base order)
    (h : gotSlot rel sym s = .ok v s') :
    v = slotAt base (FirstCome.serve order ⟨.got, rel.rSymbol⟩) ⟨.got, rel.rSymbol⟩ .got ∧
      Provides base order ⟨.got, rel.rSymbol⟩ sym s s' := by
  unfold gotSlot at h
  obtain ⟨entry, s₁, hentry, hrest⟩ := Exec.bind_ok_iff.mp h
  unfold Static.addGotEntry at hentry
  by_cases hmem : ⟨.got, rel.rSymbol⟩ ∈ order
  · rw [hfollows.addGotEntry_of_mem hmem] at hentry
    cases hentry
    cases hrest
    rw [FirstCome.serve_of_mem hmem]
    refine ⟨rfl, ?_, fun _ _ => rfl, fun _ => rfl, fun hnot => absurd hmem hnot⟩
    rwa [FirstCome.serve_of_mem hmem]
  · obtain ⟨pltgot', hcall, hfollows'⟩ := hfollows.addGotEntry_of_not_mem hmem
    rw [hcall] at hentry
    cases hentry
    cases hrest
    have hserve : FirstCome.serve order ⟨.got, rel.rSymbol⟩ = order ++ [⟨.got, rel.rSymbol⟩] :=
      FirstCome.serve_of_not_mem hmem
    refine ⟨by rw [hserve]; rfl, by rwa [hserve], ?_, fun hin => absurd hin hmem, fun _ => ?_⟩
    · intro a ha
      rw [hserve] at ha
      exact writeWord_of_not_within fun hin => ha ⟨.got, nofun, hin⟩
    · rw [hserve]
      exact ⟨readWord_writeWord _ _ _ (by decide), nofun, nofun⟩

theorem pltStub_provides {sets : Finset Nat × Finset Nat}
    (hfit : ∀ r, r ∈ sets.1 ∨ r ∈ sets.2 → r < 2 ^ 32)
    (hapart : ∀ a, InTable base sets .got a → ¬ InTable base sets .plt a)
    (hfollows : s.pltgot.Follows base order)
    (hforeseen : ∀ key ∈ FirstCome.serve order ⟨.plt, rel.rSymbol⟩, Foreseen sets key)
    (h : pltStub rel sym s = .ok v s') :
    v = slotAt base (FirstCome.serve order ⟨.plt, rel.rSymbol⟩) ⟨.plt, rel.rSymbol⟩ .plt ∧
      Provides base order ⟨.plt, rel.rSymbol⟩ sym s s' := by
  unfold pltStub at h
  obtain ⟨entry, s₁, hentry, hrest⟩ := Exec.bind_ok_iff.mp h
  unfold Static.addPltEntry at hentry
  rw [Exec.bind_of_ok (Exec.get_apply s)] at hentry
  by_cases hmem : ⟨.plt, rel.rSymbol⟩ ∈ order
  · rw [hfollows.addPltEntry_of_mem hmem] at hentry
    cases hentry
    cases hrest
    rw [FirstCome.serve_of_mem hmem]
    refine ⟨rfl, ?_, fun _ _ => rfl, fun _ => rfl, fun hnot => absurd hmem hnot⟩
    rwa [FirstCome.serve_of_mem hmem]
  · obtain ⟨pltgot', hcall, hfollows'⟩ := hfollows.addPltEntry_of_not_mem hmem
    rw [hcall] at hentry
    cases hentry
    obtain ⟨_, s₂, hfill, hstub⟩ := Exec.bind_ok_iff.mp hrest
    obtain ⟨off, s₃, hunwrap, hret⟩ := Exec.bind_ok_iff.mp hstub
    have hoff := unwrap_eq_some hunwrap
    have hs₃ := unwrap_ok hunwrap
    cases hfill
    cases hs₃
    cases hret
    have hserve : FirstCome.serve order ⟨.plt, rel.rSymbol⟩ = order ++ [⟨.plt, rel.rSymbol⟩] :=
      FirstCome.serve_of_not_mem hmem
    rw [← hserve] at hfollows' hoff ⊢
    have hkey : ⟨.plt, rel.rSymbol⟩ ∈ FirstCome.serve order ⟨.plt, rel.rSymbol⟩ :=
      FirstCome.mem_serve_iff.mpr (.inr rfl)
    have hinTable {table : SlotKind} {a : BitVec 64}
        (hin : Within (slotAt base (FirstCome.serve order ⟨.plt, rel.rSymbol⟩) ⟨.plt, rel.rSymbol⟩
          table) table.entrySize a) : InTable base sets table a :=
      within_table_of_entry (place_lt_capacity hfollows'.nodup hforeseen hkey fun _ => rfl)
        (capacity_fits hfit table) hin
    refine ⟨rfl, hfollows', ?_, fun hin => absurd hin hmem, fun _ => ?_⟩
    · intro a ha
      have hnot (table : SlotKind) :
          ¬ Within (slotAt base (FirstCome.serve order ⟨.plt, rel.rSymbol⟩) ⟨.plt, rel.rSymbol⟩
            table) table.entrySize a :=
        fun hin => ha ⟨table, fun _ => rfl, hin⟩
      refine (write_of_not_within fun hin => hnot .plt ?_).trans
        ((writeWord_of_not_within (hnot .got)).trans (write_of_not_within (hnot .plt)))
      rw [leBytes_length] at hin
      exact Nat.lt_trans (within_displacement_iff.mp hin).2 (by decide)
    · exact slotHolds_stub (fun a hplt hgot => hapart a (hinTable hgot) (hinTable hplt)) hoff

end Provide

end X86_64Relocator

/-! ## The loop -/

namespace X86_64Relocator

open PltGotSection

/-- The GOT slot of the symbol. -/
def IsGotSlot (base : SlotKind → BitVec 64) (order : List SlotKey) (rSym : Nat) (a : BitVec 64) :
    Prop :=
  ⟨.got, rSym⟩ ∈ order ∧ a = slotAt base order ⟨.got, rSym⟩ .got

/-- The PLT stub of the symbol. -/
def IsPltStub (base : SlotKind → BitVec 64) (order : List SlotKey) (rSym : Nat) (a : BitVec 64) :
    Prop :=
  ⟨.plt, rSym⟩ ∈ order ∧ a = slotAt base order ⟨.plt, rSym⟩ .plt

/-- What the loop keeps: every slot holds its symbol, and every field that the loop
has passed means what it should. -/
structure ValueInv (addrOf : Nat → Option (BitVec 64)) (base : SlotKind → BitVec 64)
    (sets : Finset Nat × Finset Nat) (origin : BitVec 64) (passed : List (ElfRelType 64))
    (order : List SlotKey) (s : StaticState K) : Prop where
  follows : s.pltgot.Follows base order
  foreseen : ∀ key ∈ order, Foreseen sets key
  slots : ∀ key ∈ order, ∃ sym, addrOf key.rSym = some sym ∧
    SlotHolds base order key sym s.os.mem
  fields : ∀ rel ∈ passed, ∃ sym, addrOf rel.rSymbol = some sym ∧
    FieldMeans (IsGotSlot base order rel.rSymbol) (IsPltStub base order rel.rSymbol) s.os.mem rel
      (origin + rel.rOffset) sym

/-- The bytes were written, and the tables are as before. -/
def Wrote (place : BitVec 64) (bytes : List UInt8) (s s' : StaticState K) : Prop :=
  s'.pltgot = s.pltgot ∧ s'.os.mem = write s.os.mem place bytes

/-- The tables and the fields of the entries share no address. -/
structure Apart (base : SlotKind → BitVec 64) (sets : Finset Nat × Finset Nat)
    (origin : BitVec 64) (rels : List (ElfRelType 64)) : Prop where
  fit : ∀ r, r ∈ sets.1 ∨ r ∈ sets.2 → r < 2 ^ 32
  tables : ∀ a, InTable base sets .got a → ¬ InTable base sets .plt a
  outside : ∀ rel ∈ rels, ∀ a, Within (origin + rel.rOffset) rel.fieldSize a →
    ∀ table, ¬ InTable base sets table a
  fields : rels.Pairwise fun rel rel' => ∀ a, Within (origin + rel.rOffset) rel.fieldSize a →
    ¬ Within (origin + rel'.rOffset) rel'.fieldSize a

section Steps

variable {addrOf : Nat → Option (BitVec 64)} {base : SlotKind → BitVec 64}
  {sets : Finset Nat × Finset Nat} {origin : BitVec 64} {passed later : List (ElfRelType 64)}
  {order : List SlotKey} {s s' : StaticState K}

/-- Providing a slot or a stub keeps the invariant. -/
theorem ValueInv.provide (hinv : ValueInv addrOf base sets origin passed order s)
    (hapart : Apart base sets origin (passed ++ later)) {key : SlotKey} {sym : BitVec 64}
    (hsym : addrOf key.rSym = some sym) (hkey : Foreseen sets key)
    (hprovides : Provides base order key sym s s') :
    ValueInv addrOf base sets origin passed (FirstCome.serve order key) s' := by
  have hpre := FirstCome.isPrefix_serve order key
  have hself : key ∈ FirstCome.serve order key := FirstCome.mem_serve_iff.mpr (.inr rfl)
  have hforeseen := foreseen_serve hinv.foreseen hkey
  refine ⟨hprovides.follows, hforeseen, ?_, ?_⟩
  · intro k hk
    by_cases hold : k ∈ order
    · obtain ⟨symk, hsymk, hholds⟩ := hinv.slots k hold
      refine ⟨symk, hsymk, (hholds.of_isPrefix hpre hold).congr fun a ha => ?_⟩
      by_cases hmem : key ∈ order
      · rw [hprovides.old hmem]
      · have hne : k ≠ key := fun heq => hmem (heq ▸ hold)
        exact hprovides.others a (ha.apart hapart.fit hprovides.follows.nodup hforeseen
          hapart.tables hk hself hne)
    · obtain rfl := (FirstCome.mem_serve_iff.mp hk).resolve_left hold
      exact ⟨sym, hsym, hprovides.new hold⟩
  · intro rel hrel
    obtain ⟨symr, hsymr, hmeans⟩ := hinv.fields rel hrel
    refine ⟨symr, hsymr, (hmeans.mono ?_ ?_).congr fun a ha => hprovides.others a fun howned => ?_⟩
    · rintro a ⟨hmem, rfl⟩
      refine ⟨hpre.subset hmem, Eq.symm ?_⟩
      exact slotAt_of_isPrefix hpre hmem nofun
    · rintro a ⟨hmem, rfl⟩
      refine ⟨hpre.subset hmem, Eq.symm ?_⟩
      exact slotAt_of_isPrefix hpre hmem fun _ => rfl
    · obtain ⟨table, hin⟩ := howned.inTable hapart.fit hprovides.follows.nodup hforeseen hself
      exact hapart.outside rel (List.mem_append_left _ hrel) a ha table hin

/-- Writing the field of the next entry keeps the invariant. -/
theorem ValueInv.write_field (hinv : ValueInv addrOf base sets origin passed order s)
    {rel : ElfRelType 64} (hapart : Apart base sets origin (passed ++ rel :: later))
    {bytes : List UInt8} (hlen : bytes.length = rel.fieldSize)
    (hwrote : Wrote (origin + rel.rOffset) bytes s s') {sym : BitVec 64}
    (hsym : addrOf rel.rSymbol = some sym)
    (hmeans : FieldMeans (IsGotSlot base order rel.rSymbol) (IsPltStub base order rel.rSymbol)
      s'.os.mem rel (origin + rel.rOffset) sym) :
    ValueInv addrOf base sets origin (passed ++ [rel]) order s' := by
  have hrel : rel ∈ passed ++ rel :: later := List.mem_append_right _ List.mem_cons_self
  have hothers {a : BitVec 64} (ha : ¬ Within (origin + rel.rOffset) rel.fieldSize a) :
      s'.os.mem a = s.os.mem a := by
    rw [hwrote.2]
    exact write_of_not_within (by rwa [hlen])
  refine ⟨hwrote.1 ▸ hinv.follows, hinv.foreseen, ?_, ?_⟩
  · intro key hkey
    obtain ⟨symk, hsymk, hholds⟩ := hinv.slots key hkey
    refine ⟨symk, hsymk, hholds.congr fun a ha => hothers fun hin => ?_⟩
    obtain ⟨table, htable⟩ := ha.inTable hapart.fit hinv.follows.nodup hinv.foreseen hkey
    exact hapart.outside rel hrel a hin table htable
  · intro rel' hrel'
    rcases List.mem_append.mp hrel' with hrel' | hrel'
    · obtain ⟨symr, hsymr, hold⟩ := hinv.fields rel' hrel'
      refine ⟨symr, hsymr, hold.congr fun a ha => hothers ?_⟩
      exact (List.pairwise_append.mp hapart.fields).2.2 rel' hrel' rel List.mem_cons_self a ha
    · obtain rfl := List.mem_singleton.mp hrel'
      exact ⟨sym, hsym, hmeans⟩

/-- The branches that refer to the entry of a pair which `get` provides. -/
theorem ValueInv.link {rel : ElfRelType 64}
    (hinv : ValueInv addrOf base sets origin passed order s)
    (hapart : Apart base sets origin (passed ++ rel :: later)) {kind : SlotKind}
    {sym : BitVec 64} (hsym : addrOf rel.rSymbol = some sym)
    (hkey : Foreseen sets ⟨kind, rel.rSymbol⟩) (hty : rel.rType ≠ rX86_64_64)
    {get : Static K (BitVec 64)}
    (hget : ∀ {v s₁}, get s = .ok v s₁ →
      v = slotAt base (FirstCome.serve order ⟨kind, rel.rSymbol⟩) ⟨kind, rel.rSymbol⟩ kind ∧
        Provides base order ⟨kind, rel.rSymbol⟩ sym s s₁)
    (hmeans : ∀ {m order'}, ⟨kind, rel.rSymbol⟩ ∈ order' →
      origin + rel.rOffset + signedField m (origin + rel.rOffset) - rel.rAddend =
        slotAt base order' ⟨kind, rel.rSymbol⟩ kind →
      FieldMeans (IsGotSlot base order' rel.rSymbol) (IsPltStub base order' rel.rSymbol) m rel
        (origin + rel.rOffset) sym)
    (h : (do
      let slot ← get
      let val ← Static.unwrap (toI32 (slot + rel.rAddend - (origin + rel.rOffset)))
      Static.link rel (origin + rel.rOffset) slot (leBytes val) : Static K Unit) s = .ok () s') :
    ∃ order', ValueInv addrOf base sets origin (passed ++ [rel]) order' s' := by
  obtain ⟨slot, s₁, hslot, hrest⟩ := Exec.bind_ok_iff.mp h
  obtain ⟨val, s₂, hunwrap, hlink⟩ := Exec.bind_ok_iff.mp hrest
  obtain ⟨rfl, hprovides⟩ := hget hslot
  have hval := signExtend_of_toI32 (unwrap_eq_some hunwrap)
  obtain rfl := unwrap_ok hunwrap
  have hwrote : Wrote (origin + rel.rOffset) (leBytes val) s₂ s' := by
    cases hlink
    exact ⟨rfl, rfl⟩
  have hlen : (leBytes val).length = rel.fieldSize := by
    rw [leBytes_length, ElfRelType.fieldSize, if_neg hty]
  refine ⟨_, (hinv.provide hapart hsym hkey hprovides).write_field hapart hlen hwrote hsym ?_⟩
  refine hmeans (FirstCome.mem_serve_iff.mpr (.inr rfl)) ?_
  rw [hwrote.2, signedField_write, hval]
  grind

end Steps

section Relocate

variable [CustomHasher]
variable {ifunc : BitVec 64 → BitVec 64} {core : ElfCore 64} {scope : List (LoadedCore 64)}
  {preFind postFind : SymbolLookup 64}
variable {base : SlotKind → BitVec 64} {sets : Finset Nat × Finset Nat}
  {passed later : List (ElfRelType 64)} {order : List SlotKey} {rel : ElfRelType 64}
  {s s' : StaticState K}

theorem wrote_of_range {place sym : BitVec 64} {o : Option (BitVec 32)}
    (h : (do
      let val ← inRange core rel o
      Static.patch rel place sym (leBytes val) : Static K Unit) s = .ok () s') :
    ∃ val, o = some val ∧ Wrote place (leBytes val) s s' := by
  obtain ⟨val, s₁, hval, hpatch⟩ := Exec.bind_ok_iff.mp h
  cases o with
  | none => exact absurd hval fail_ne_ok
  | some val' =>
      cases hval
      cases hpatch
      exact ⟨val, rfl, rfl, rfl⟩

/-- An entry that is relocated keeps the invariant, and its field means what it
should. -/
theorem ValueInv.step
    (hinv : ValueInv (symbolAddr ifunc core scope preFind postFind) base sets core.base passed
      order s)
    (hapart : Apart base sets core.base (passed ++ rel :: later))
    (hforesees : ForeseesEntry sets rel)
    (h : relocate ifunc core scope preFind postFind rel s = .ok () s') :
    ∃ order', ValueInv (symbolAddr ifunc core scope preFind postFind) base sets core.base
      (passed ++ [rel]) order' s' := by
  cases hsym : symbolAddr ifunc core scope preFind postFind rel.rSymbol with
  | none =>
      obtain ⟨e, he⟩ := relocate_of_none (s := s) hsym
      rw [he] at h
      cases h
  | some sym =>
      rw [relocate_of_some hsym] at h
      have hlen (hty : rel.rType ≠ rX86_64_64) (val : BitVec 32) :
          (leBytes val).length = rel.fieldSize := by
        rw [leBytes_length, ElfRelType.fieldSize, if_neg hty]
      split_ifs at h with h64 hpc hplt hgot h32 h32S
      · have hwrote : Wrote (core.base + rel.rOffset) (leBytes (sym + rel.rAddend)) s s' := by
          cases h
          exact ⟨rfl, rfl⟩
        refine ⟨order, hinv.write_field hapart ?_ hwrote hsym (.word h64 ?_)⟩
        · rw [leBytes_length, ElfRelType.fieldSize, if_pos h64]
        · rw [hwrote.2]
          exact readWord_writeWord _ _ _ (by decide)
      · obtain ⟨val, hval, hwrote⟩ := wrote_of_range h
        refine ⟨order, hinv.write_field hapart (hlen h64 val) hwrote hsym (.pc32 hpc ?_)⟩
        rw [hwrote.2, signedField_write, signExtend_of_toI32 hval]
      · have hkey : Foreseen sets ⟨.plt, rel.rSymbol⟩ := hforesees.2 hplt
        cases hval : toI32 (sym + rel.rAddend - (core.base + rel.rOffset)) with
        | some val =>
            rw [hval] at h
            have hwrote : Wrote (core.base + rel.rOffset) (leBytes val) s s' := by
              cases h
              exact ⟨rfl, rfl⟩
            refine ⟨order, hinv.write_field hapart (hlen h64 val) hwrote hsym
              (.plt32 hplt (.inl ?_))⟩
            rw [hwrote.2, signedField_write, signExtend_of_toI32 hval]
            grind
        | none =>
            rw [hval] at h
            exact hinv.link hapart hsym hkey h64
              (pltStub_provides hapart.fit hapart.tables hinv.follows
                (foreseen_serve hinv.foreseen hkey))
              (fun hmem heq => .plt32 hplt (.inr ⟨hmem, heq⟩)) h
      · have hkey : Foreseen sets ⟨.got, rel.rSymbol⟩ := hforesees.1 hgot
        exact hinv.link hapart hsym hkey h64 (gotSlot_provides hinv.follows)
          (fun hmem heq => .gotpcrel hgot ⟨hmem, heq⟩) h
      · obtain ⟨val, hval, hwrote⟩ := wrote_of_range h
        refine ⟨order, hinv.write_field hapart (hlen h64 val) hwrote hsym (.abs32 h32 ?_)⟩
        rw [hwrote.2, readBits_write _ _ _ (by decide) (by decide), setWidth_of_toU32 hval]
      · obtain ⟨val, hval, hwrote⟩ := wrote_of_range h
        refine ⟨order, hinv.write_field hapart (hlen h64 val) hwrote hsym (.abs32S h32S ?_)⟩
        rw [hwrote.2, signedField_write, signExtend_of_toI32 hval]
      · exact absurd h fail_ne_ok

theorem ValueInv.run {rels : List (ElfRelType 64)}
    (hinv : ValueInv (symbolAddr ifunc core scope preFind postFind) base sets core.base passed
      order s)
    (hapart : Apart base sets core.base (passed ++ rels))
    (hforesees : ∀ rel ∈ rels, ForeseesEntry sets rel)
    (h : rels.forM (relocate ifunc core scope preFind postFind) s = .ok () s') :
    ∃ order', ValueInv (symbolAddr ifunc core scope preFind postFind) base sets core.base
      (passed ++ rels) order' s' := by
  induction rels generalizing passed order s with
  | nil =>
      cases h
      exact ⟨order, by rwa [List.append_nil]⟩
  | cons rel rels ih =>
      obtain ⟨s₁, hstep, hrest⟩ := Exec.forM_cons_ok_iff.mp h
      obtain ⟨hrel, hrels⟩ := List.forall_mem_cons.mp hforesees
      obtain ⟨order₁, hinv₁⟩ := hinv.step hapart hrel hstep
      rw [List.append_cons] at hapart ⊢
      exact ih hinv₁ hapart hrels hrest

end Relocate

end X86_64Relocator

/-! ## The object -/

namespace RawObject

open PltGotSection

variable [CustomHasher]

/-- The address of an entry of the GOT that holds `sym`. -/
def GotSlot (object : RawObject K) (gotCnt : Nat) (m : Bytes 64) (sym a : BitVec 64) : Prop :=
  (∃ i < gotCnt, a = entryAddr object.reservedBase .got i) ∧ readWord m a = sym

/-- The address of an entry of the PLT whose jump reads an entry of the GOT that
holds `sym`. -/
def PltStub (object : RawObject K) (gotCnt pltCnt : Nat) (m : Bytes 64) (sym a : BitVec 64) :
    Prop :=
  (∃ i < pltCnt, a = entryAddr object.reservedBase .plt i) ∧ read m a 6 = stubCode ∧
    object.GotSlot gotCnt m sym (stubTarget m a)

/-- The field that an entry patches. -/
def Field (object : RawObject K) (rel : ElfRelType 64) (a : BitVec 64) : Prop :=
  Within (object.core.base + rel.rOffset) rel.fieldSize a

section Meaning

variable {object : RawObject K} {sets : Finset Nat × Finset Nat} {order : List SlotKey}
  {addrOf : Nat → Option (BitVec 64)} {passed : List (ElfRelType 64)} {s : StaticState K}

theorem inTable_iff_reserved (hfit : ∀ r, r ∈ sets.1 ∨ r ∈ sets.2 → r < 2 ^ 32)
    {table : SlotKind} {a : BitVec 64} :
    InTable object.reservedBase sets table a ↔
      object.Reserved (capacity sets .got) (capacity sets .plt) table a := by
  rw [InTable, Reserved, reservedSize_eq hfit]

theorem gotSlot_of_holds {key : SlotKey} {sym : BitVec 64} (hnodup : order.Nodup)
    (hforeseen : ∀ key ∈ order, Foreseen sets key) (hkey : key ∈ order)
    (hholds : SlotHolds object.reservedBase order key sym s.os.mem) :
    object.GotSlot (capacity sets .got) s.os.mem sym (slotAt object.reservedBase order key .got) :=
  ⟨⟨_, place_lt_capacity hnodup hforeseen hkey nofun, rfl⟩, hholds.slot⟩

theorem pltStub_of_holds {rSym : Nat} {sym : BitVec 64} (hnodup : order.Nodup)
    (hforeseen : ∀ key ∈ order, Foreseen sets key) (hkey : ⟨.plt, rSym⟩ ∈ order)
    (hholds : SlotHolds object.reservedBase order ⟨.plt, rSym⟩ sym s.os.mem) :
    object.PltStub (capacity sets .got) (capacity sets .plt) s.os.mem sym
      (slotAt object.reservedBase order ⟨.plt, rSym⟩ .plt) := by
  refine ⟨⟨_, place_lt_capacity hnodup hforeseen hkey fun _ => rfl, rfl⟩, hholds.code rfl, ?_⟩
  rw [hholds.jump rfl]
  exact gotSlot_of_holds hnodup hforeseen hkey hholds

/-- The invariant, in terms of the sections and the memory. -/
theorem fieldMeans_of_inv {origin : BitVec 64}
    (hinv : X86_64Relocator.ValueInv addrOf object.reservedBase sets origin passed order s)
    {rel : ElfRelType 64} (hrel : rel ∈ passed) :
    ∃ sym, addrOf rel.rSymbol = some sym ∧
      FieldMeans (object.GotSlot (capacity sets .got) s.os.mem sym)
        (object.PltStub (capacity sets .got) (capacity sets .plt) s.os.mem sym) s.os.mem rel
        (origin + rel.rOffset) sym := by
  obtain ⟨sym, hsym, hmeans⟩ := hinv.fields rel hrel
  have hholds {kind : SlotKind} (hkey : ⟨kind, rel.rSymbol⟩ ∈ order) :
      SlotHolds object.reservedBase order ⟨kind, rel.rSymbol⟩ sym s.os.mem := by
    obtain ⟨sym', hsym', hholds⟩ := hinv.slots _ hkey
    rw [hsym] at hsym'
    cases hsym'
    exact hholds
  refine ⟨sym, hsym, hmeans.mono ?_ ?_⟩
  · rintro a ⟨hkey, rfl⟩
    exact gotSlot_of_holds hinv.follows.nodup hinv.foreseen hkey (hholds hkey)
  · rintro a ⟨hkey, rfl⟩
    exact pltStub_of_holds hinv.follows.nodup hinv.foreseen hkey (hholds hkey)

end Meaning

/-- When an object is relocated, every field has the value that the psABI gives it.
The sections of the GOT and the PLT have the sizes that its entries need. -/
theorem relocated_fields_mean (object : RawObject K) {gotCnt pltCnt : Nat}
    (hneeded : object.neededEntries = (gotCnt, pltCnt))
    (hreserved : ∀ a, object.Reserved gotCnt pltCnt .got a → ¬ object.Reserved gotCnt pltCnt .plt a)
    (hfields : object.relocation.flatten.Pairwise fun rel rel' =>
      ∀ a, object.Field rel a → ¬ object.Field rel' a)
    (houtside : ∀ rel ∈ object.relocation.flatten, ∀ a, object.Field rel a →
      ∀ table, ¬ object.Reserved gotCnt pltCnt table a)
    (hmprotect : ∀ {os os'}, object.mprotect os = .ok () os' → os'.mem = os.mem)
    (ifunc : BitVec 64 → BitVec 64) (scope : List (LoadedCore 64))
    (preFind postFind : SymbolLookup 64) (os : OsState 64 K) {loaded : LoadedCore 64}
    {s' : StaticState K} (h : object.run ifunc scope preFind postFind os = .ok loaded s') :
    ∀ rel ∈ object.relocation.flatten, ∃ sym i,
      findSymbolAddr ifunc preFind postFind object.core scope rel.rSymbol = .ok (some (sym, i)) ∧
        FieldMeans (object.GotSlot gotCnt s'.os.mem sym)
          (object.PltStub gotCnt pltCnt s'.os.mem sym) s'.os.mem rel
          (object.core.base + rel.rOffset) sym := by
  obtain ⟨sets, hcounts, hfit, hforesees⟩ := object.neededEntries_spec
  rw [hneeded, Prod.mk.injEq] at hcounts
  obtain ⟨rfl, rfl⟩ := hcounts
  have hapart : X86_64Relocator.Apart object.reservedBase sets object.core.base
      ([] ++ object.relocation.flatten) := by
    refine ⟨hfit, fun a => ?_, fun rel hrel a ha table => ?_, hfields⟩
    · rw [inTable_iff_reserved hfit, inTable_iff_reserved hfit]
      exact hreserved a
    · rw [inTable_iff_reserved hfit]
      exact houtside rel hrel a ha table
  have hstart : X86_64Relocator.ValueInv
      (X86_64Relocator.symbolAddr ifunc object.core scope preFind postFind) object.reservedBase sets
      object.core.base [] [] (object.start os) :=
    ⟨Follows.new object.gotBase object.pltBase, nofun, nofun, nofun⟩
  rw [relocateImpl_eq_loop] at h
  obtain ⟨_, s₁, hloop, hrest⟩ := Exec.bind_ok_iff.mp h
  rw [Exec.forM_map_apply] at hloop
  obtain ⟨order, hinv⟩ := hstart.run hapart hforesees hloop
  have hmem : s'.os.mem = s₁.os.mem := by
    obtain ⟨_, s₂, hprotect, hret⟩ := Exec.bind_ok_iff.mp hrest
    have hs₂ : s₂.os.mem = s₁.os.mem := by
      unfold protect at hprotect
      split at hprotect
      · rename_i hcall
        cases hprotect
        exact hmprotect hcall
      · cases hprotect
    rw [← hs₂]
    cases hret
    rfl
  intro rel hrel
  obtain ⟨sym, hsym, hmeans⟩ := fieldMeans_of_inv hinv hrel
  obtain ⟨i, hfind⟩ := X86_64Relocator.symbolAddr_eq_some_iff.mp hsym
  rw [hmem]
  exact ⟨sym, i, hfind, hmeans⟩

end RawObject

/-! ## The call of the object with one call -/

section Sample

attribute [local instance] constantHasher

theorem callObject_reserved_apart (a : BitVec 64) (ha : callObject.Reserved 2 1 .got a) :
    ¬ callObject.Reserved 2 1 .plt a := by
  have hgot : callObject.gotBase = 0x10000 + callSegments.gotBase := by decide
  have hplt : callObject.pltBase = 0x10000 + callSegments.pltBase := by decide
  exact RawObject.reserved_apart callShdrs_regular call_count callShdrs_noOverflow (call_new none)
    hgot hplt a ha

theorem callObject_field_outside : ∀ rel ∈ callObject.relocation.flatten, ∀ a,
    callObject.Field rel a → ∀ table, ¬ callObject.Reserved 2 1 table a := by
  intro rel hrel a ha table
  obtain rfl : rel = ⟨0x2009, 0x100000004, -4⟩ := by simpa [callObject] using hrel
  have hfield : (a - 0x12009).toNat < 4 := ha
  cases table with
  | got =>
      intro hin
      have hgot : (a - 0x11010).toNat < 16 := hin
      bv_omega
  | plt =>
      intro hin
      have hplt : (a - 0x12010).toNat < 16 := hin
      bv_omega

/-- The call is out of reach of its symbol and goes through the stub. -/
theorem callObject_field_means : ∃ loaded s',
    callObject.run id [] (knowsF 0x700000000000) (fun _ => none) ⟨fun _ => 0, ()⟩ =
        .ok loaded s' ∧
      ∀ rel ∈ callObject.relocation.flatten, ∃ sym i,
        findSymbolAddr id (knowsF 0x700000000000) (fun _ => none) callObject.core [] rel.rSymbol =
            .ok (some (sym, i)) ∧
          FieldMeans (callObject.GotSlot 2 s'.os.mem sym) (callObject.PltStub 2 1 s'.os.mem sym)
            s'.os.mem rel (callObject.core.base + rel.rOffset) sym := by
  refine ⟨_, _, rfl, ?_⟩
  exact RawObject.relocated_fields_mean callObject (by decide) callObject_reserved_apart
    (List.pairwise_singleton _ _) callObject_field_outside (fun h => by cases h; rfl) id []
    (knowsF 0x700000000000) (fun _ => none) ⟨fun _ => 0, ()⟩ rfl

end Sample

end ElfLoader
