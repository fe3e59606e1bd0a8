import ElfLoader.Elf.Lookup

/-! # The hash table of relocatable objects (`src/elf/hash/custom.rs`)

`from_shdr` inserts every symbol but the file symbols, local and undefined ones
included, and nothing keeps two entries of one name apart. A lookup takes
whichever of them the table yields and only then asks whether it is usable.
-/

namespace ElfLoader

variable {w : Nat}

namespace CustomHash

/-- The loop of `CustomHash::from_shdr`: the entries it inserts, from `idx` on. -/
def entriesFrom (strtab : List UInt8) : List (ElfSymbol w) → Nat → Except Halt (List TableEntry)
  | [], _ => .ok []
  | symbol :: symbols, idx =>
      if symbol.stType = sttFile then entriesFrom strtab symbols (idx + 1)
      else do
        let name ← getStr strtab symbol.stName.toNat
        let entries ← entriesFrom strtab symbols (idx + 1)
        return ⟨name, idx⟩ :: entries

/-- `CustomHash::from_shdr`. -/
def fromShdr (symtab : List (ElfSymbol w)) (strtab : List UInt8) :
    Except Halt (List TableEntry) :=
  entriesFrom strtab symtab 0

variable [CustomHasher]

/-- A table that looks at its entries in the order `probe`. -/
def probing (entries probe : List TableEntry) (hsame : ∀ e, e ∈ probe ↔ e ∈ entries) :
    CustomHash where
  entries
  find h p := probe.find? fun e => CustomHasher.hash e.name = h && p e
  find_mem := by
    intro h p e hfind
    have hp := List.find?_some hfind
    rw [Bool.and_eq_true] at hp
    exact ⟨(hsame e).mp (List.mem_of_find?_eq_some hfind), hp.2⟩
  find_none := by
    intro h p hfind e he hhash
    have hp := List.find?_eq_none.mp hfind e ((hsame e).mpr he)
    simpa [hhash] using hp

end CustomHash

section Table

variable {symtab : List (ElfSymbol w)} {strtab : List UInt8} {entries : List TableEntry}

/-- The entry at `i` bears the name. -/
structure Bears (symtab : List (ElfSymbol w)) (strtab : List UInt8) (name : Name) (i : Nat)
    (sym : ElfSymbol w) : Prop where
  entry : symtab[i]? = some sym
  name : getStr strtab sym.stName.toNat = .ok name

/-- What stands in the table: the symbols that are not file symbols, by name. -/
theorem mem_entriesFrom_iff {symbols : List (ElfSymbol w)} {idx : Nat}
    (h : CustomHash.entriesFrom strtab symbols idx = .ok entries) {e : TableEntry} :
    e ∈ entries ↔ ∃ i sym, Bears symbols strtab e.name i sym ∧ sym.stType ≠ sttFile ∧
      e.idx = idx + i := by
  induction symbols generalizing idx entries with
  | nil =>
      cases h
      simp only [List.not_mem_nil, false_iff]
      rintro ⟨i, sym, ⟨hentry, -⟩, -⟩
      simp at hentry
  | cons symbol symbols ih =>
      -- an entry of the rest is one of the whole, one further on
      have hshift : ∀ {tail : List TableEntry},
          CustomHash.entriesFrom strtab symbols (idx + 1) = .ok tail →
          (e ∈ tail ↔ ∃ i sym, Bears (symbol :: symbols) strtab e.name (i + 1) sym ∧
            sym.stType ≠ sttFile ∧ e.idx = idx + (i + 1)) := by
        intro tail htail
        rw [ih htail]
        constructor
        · rintro ⟨i, sym, ⟨hentry, hname⟩, hty, hidx⟩
          exact ⟨i, sym, ⟨by simpa using hentry, hname⟩, hty, by omega⟩
        · rintro ⟨i, sym, ⟨hentry, hname⟩, hty, hidx⟩
          exact ⟨i, sym, ⟨by simpa using hentry, hname⟩, hty, by omega⟩
      unfold CustomHash.entriesFrom at h
      by_cases hfile : symbol.stType = sttFile
      · rw [if_pos hfile] at h
        rw [hshift h]
        constructor
        · rintro ⟨i, sym, hrest⟩
          exact ⟨i + 1, sym, hrest⟩
        · rintro ⟨i, sym, hbears, hty, hidx⟩
          cases i with
          | zero =>
              have hsym : symbol = sym := by simpa using hbears.entry
              exact absurd (hsym ▸ hfile) hty
          | succ i => exact ⟨i, sym, hbears, hty, hidx⟩
      · rw [if_neg hfile] at h
        obtain ⟨name, hname, h⟩ := Exec.except_bind_ok_iff.mp h
        obtain ⟨tail, htail, hret⟩ := Exec.except_bind_ok_iff.mp h
        cases hret
        rw [List.mem_cons, hshift htail]
        constructor
        · rintro (rfl | ⟨i, sym, hrest⟩)
          · exact ⟨0, symbol, ⟨rfl, hname⟩, hfile, rfl⟩
          · exact ⟨i + 1, sym, hrest⟩
        · rintro ⟨i, sym, hbears, hty, hidx⟩
          cases i with
          | zero =>
              have hsym : symbol = sym := by simpa using hbears.entry
              have hsame : name = e.name := by
                have hboth := hbears.name
                rw [← hsym, hname] at hboth
                exact Except.ok.inj hboth
              refine .inl ?_
              obtain ⟨ename, eidx⟩ := e
              simp only at hsame hidx
              rw [hsame, hidx, Nat.add_zero]
          | succ i => exact .inr ⟨i, sym, hbears, hty, hidx⟩

theorem mem_fromShdr_iff (h : CustomHash.fromShdr symtab strtab = .ok entries)
    {e : TableEntry} :
    e ∈ entries ↔ ∃ sym, Bears symtab strtab e.name e.idx sym ∧ sym.stType ≠ sttFile := by
  rw [mem_entriesFrom_iff h]
  constructor
  · rintro ⟨i, sym, hbears, hty, hidx⟩
    rw [Nat.zero_add] at hidx
    exact ⟨sym, hidx ▸ hbears, hty⟩
  · rintro ⟨sym, hbears, hty⟩
    exact ⟨e.idx, sym, hbears, hty, (Nat.zero_add _).symm⟩

theorem stType_ne_file_of_usable {sym : ElfSymbol w} (h : sym.isUsable = true) :
    sym.stType ≠ sttFile := by
  intro hfile
  have hty : sym.isOkType = false := by
    rw [ElfSymbol.isOkType, hfile]
    decide
  rw [ElfSymbol.isUsable, hty, Bool.and_false] at h
  cases h

end Table

namespace SymbolTable

variable [CustomHasher]

/-- `SymbolTable::from_shdrs`, with the table that `from_shdr` filled. -/
def fromShdrs (c : CustomHash) (symtab : List (ElfSymbol w)) (strtab : List UInt8) :
    SymbolTable w where
  hashtab := .custom c
  symtab
  strtab
  version := none
  custom_unversioned := fun _ _ => rfl

end SymbolTable

/-! ## What an object's lookup finds -/

section Lookup

variable [CustomHasher]
variable {symtab : List (ElfSymbol w)} {strtab : List UInt8} {entries : List TableEntry}
variable {info : SymbolInfo} {c : CustomHash}

/-- A lookup finds something exactly when the object exports the name. -/
def FindsExported (symtab : List (ElfSymbol w)) (strtab : List UInt8) (info : SymbolInfo)
    (c : CustomHash) : Prop :=
  ∃ found pre, (SymbolTable.fromShdrs c symtab strtab).lookupFilter info (info.precompute w) =
      .ok (found, pre) ∧
    (found.isSome = true ↔
      ∃ i sym, Bears symtab strtab info.name i sym ∧ sym.isUsable = true)

/-- The entries of the name are all usable, or none is. File symbols do not count. -/
def OneKind (symtab : List (ElfSymbol w)) (strtab : List UInt8) (name : Name) : Prop :=
  (∀ i sym, Bears symtab strtab name i sym → sym.stType ≠ sttFile → sym.isUsable = true) ∨
    ∀ i sym, Bears symtab strtab name i sym → sym.isUsable = false

/-- The entry that the table yields decides the lookup. -/
theorem lookupFilter_of_find {e : TableEntry} {sym : ElfSymbol w}
    (hfind : c.find (CustomHasher.hash info.name) (fun entry => entry.name = info.name) = some e)
    (hbears : Bears symtab strtab info.name e.idx sym) :
    ∃ pre, (SymbolTable.fromShdrs c symtab strtab).lookupFilter info (info.precompute w) =
      .ok (if sym.isUsable then some ⟨e.idx, sym⟩ else none, pre) := by
  obtain ⟨pre, -, hlookup⟩ :=
    (SymbolTable.fromShdrs c symtab strtab).lookupFilter_sound (precompute_sound info)
  refine ⟨pre, ?_⟩
  have hidx : (SymbolTable.fromShdrs c symtab strtab).symbolIdx e.idx =
      .ok (⟨e.idx, sym⟩, { name := info.name, version := none }) := by
    simp only [SymbolTable.symbolIdx, SymbolTable.symbolAt, SymbolTable.fromShdrs, hbears.entry]
    change (getStr strtab sym.stName.toNat >>= _) = _
    rw [hbears.name]
    rfl
  have hfresh : (SymbolTable.fromShdrs c symtab strtab).lookupFresh info =
      .ok (some ⟨e.idx, sym⟩) := by
    change SymbolTable.customLookup _ c info _ = _
    unfold SymbolTable.customLookup
    rw [hfind]
    change (SymbolTable.symbolIdx _ e.idx >>= _) = _
    rw [hidx]
    rfl
  rw [hlookup, SymbolTable.provided, hfresh]
  cases husable : sym.isUsable with
  | true => simp [Except.map, Option.filter, husable]
  | false => simp [Except.map, Option.filter, husable]

theorem lookupFilter_of_no_find (symtab : List (ElfSymbol w)) (strtab : List UInt8)
    (hfind : c.find (CustomHasher.hash info.name) (fun entry => entry.name = info.name) = none) :
    ∃ pre, (SymbolTable.fromShdrs c symtab strtab).lookupFilter info (info.precompute w) =
      .ok (none, pre) := by
  obtain ⟨pre, -, hlookup⟩ :=
    (SymbolTable.fromShdrs c symtab strtab).lookupFilter_sound (precompute_sound info)
  refine ⟨pre, ?_⟩
  have hfresh : (SymbolTable.fromShdrs c symtab strtab).lookupFresh info = .ok none := by
    change SymbolTable.customLookup _ c info _ = _
    unfold SymbolTable.customLookup
    rw [hfind]
  rw [hlookup, SymbolTable.provided, hfresh]
  rfl

/-- Whichever of several entries of one name the table yields, an object's lookup
finds its exports exactly when no entry of the name differs from the others in
being usable. -/
theorem object_lookup_finds_iff (hbuild : CustomHash.fromShdr symtab strtab = .ok entries)
    (info : SymbolInfo) :
    (∀ c : CustomHash, c.entries = entries → FindsExported symtab strtab info c) ↔
      OneKind symtab strtab info.name := by
  constructor
  · intro hfinds
    by_contra hmixed
    unfold OneKind at hmixed
    push Not at hmixed
    obtain ⟨⟨i, sym, hbears, hty, hunusable⟩, ⟨j, sym', hbears', husable⟩⟩ := hmixed
    -- a table that looks at the unusable entry first
    have hmem : ⟨info.name, i⟩ ∈ entries := (mem_fromShdr_iff hbuild).mpr ⟨sym, hbears, hty⟩
    have hsame : ∀ e, e ∈ (⟨info.name, i⟩ : TableEntry) :: entries ↔ e ∈ entries := by
      intro e
      rw [List.mem_cons, or_iff_right_iff_imp]
      rintro rfl
      exact hmem
    let c := CustomHash.probing entries (⟨info.name, i⟩ :: entries) hsame
    have hfind : c.find (CustomHasher.hash info.name) (fun entry => entry.name = info.name) =
        some ⟨info.name, i⟩ := by
      simp [c, CustomHash.probing]
    obtain ⟨found, pre, hlookup, hiff⟩ := hfinds c rfl
    obtain ⟨pre', hnone⟩ := lookupFilter_of_find hfind hbears
    rw [hnone, if_neg hunusable] at hlookup
    cases hlookup
    have hsome := hiff.mpr ⟨j, sym', hbears', by simpa using husable⟩
    cases hsome
  · rintro hkind c rfl
    cases hfind : c.find (CustomHasher.hash info.name) (fun entry => entry.name = info.name) with
    | none =>
        obtain ⟨pre, hnone⟩ := lookupFilter_of_no_find symtab strtab hfind
        refine ⟨none, pre, hnone, ?_⟩
        simp only [Option.isSome_none, Bool.false_eq_true, false_iff]
        rintro ⟨i, sym, hbears, husable⟩
        have hmem : ⟨info.name, i⟩ ∈ c.entries :=
          (mem_fromShdr_iff hbuild).mpr ⟨sym, hbears, stType_ne_file_of_usable husable⟩
        have hno := c.find_none hfind _ hmem rfl
        simp at hno
    | some e =>
        obtain ⟨hmem, hname⟩ := c.find_mem hfind
        have hname : e.name = info.name := by simpa using hname
        obtain ⟨sym, hbears, hty⟩ := (mem_fromShdr_iff hbuild).mp hmem
        rw [hname] at hbears
        obtain ⟨pre, hlookup⟩ := lookupFilter_of_find hfind hbears
        refine ⟨_, pre, hlookup, ?_⟩
        rcases hkind with hall | hnone
        · have husable := hall e.idx sym hbears hty
          rw [if_pos husable]
          exact ⟨fun _ => ⟨e.idx, sym, hbears, husable⟩, fun _ => rfl⟩
        · rw [hnone e.idx sym hbears]
          refine ⟨fun h => absurd h (by simp), ?_⟩
          rintro ⟨i, sym', hbears', husable⟩
          rw [hnone i sym' hbears'] at husable
          cases husable

end Lookup

section Sample

attribute [local instance] constantHasher

/-- A local `f` followed by a global one of the given section. -/
def twoNamed (shndx : UInt16) : List (ElfSymbol 64) :=
  [⟨0, 0, 0, 0, 0, 0⟩, ⟨1, 0, 0, 0x02, 0, 1⟩, ⟨1, 0x10, 8, 0x12, 0, shndx⟩]

/-- The table yields the entry that was inserted first. -/
def twoNamedHash : CustomHash :=
  CustomHash.probing [⟨[], 0⟩, ⟨[102], 1⟩, ⟨[102], 2⟩] [⟨[], 0⟩, ⟨[102], 1⟩, ⟨[102], 2⟩]
    fun _ => Iff.rfl

/-- The local `f` hides the exported one. -/
theorem local_duplicate_hides_export :
    CustomHash.fromShdr (twoNamed 1) [0, 102, 0] = .ok twoNamedHash.entries ∧
      (SymbolTable.fromShdrs twoNamedHash (twoNamed 1) [0, 102, 0]).lookupFilter
          { name := [102], version := none }
          (SymbolInfo.precompute 64 { name := [102], version := none }) =
        .ok (none, { SymbolInfo.precompute 64 { name := [102], version := none } with
          custom := some 0 }) ∧
      Bears (twoNamed 1) [0, 102, 0] [102] 2 ⟨1, 0x10, 8, 0x12, 0, 1⟩ ∧
      ElfSymbol.isUsable (⟨1, 0x10, 8, 0x12, 0, 1⟩ : ElfSymbol 64) = true := by
  refine ⟨rfl, rfl, ⟨rfl, rfl⟩, by decide⟩

theorem undefined_duplicates_not_found :
    FindsExported (twoNamed 0) [0, 102, 0] { name := [102], version := none } twoNamedHash := by
  have hbuild : CustomHash.fromShdr (twoNamed 0) [0, 102, 0] = .ok twoNamedHash.entries := rfl
  refine (object_lookup_finds_iff hbuild { name := [102], version := none }).mpr (.inr ?_) _ rfl
  rintro i sym ⟨hentry, hname⟩
  match i with
  | 0 =>
      cases hentry
      cases hname
  | 1 =>
      cases hentry
      decide
  | 2 =>
      cases hentry
      decide
  | i + 3 => cases hentry

end Sample

end ElfLoader
