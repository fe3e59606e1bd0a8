import ElfLoader.Elf.GnuHash
import ElfLoader.Library.Walk

/-! # The two standard hash tables agree (`src/elf/hash/sysv.rs`, `src/elf/symbol.rs`)

`DT_HASH` has every symbol on linked chains, `DT_GNU_HASH` only the exports, in
groups. Where names are unique, what `lookup_filter` drops is exactly what the
second table leaves out.
-/

namespace ElfLoader

open Search

namespace ElfHash

/-- The entries on the chain from an index up to the zero that ends it. -/
inductive Linked (hashtab : ElfHash) : Nat → List Nat → Prop where
  | stop : Linked hashtab 0 []
  | step {idx : Nat} {next : UInt32} {rest : List Nat} (hidx : idx ≠ 0)
      (hnext : hashtab.chains[idx]? = some next) (hrest : Linked hashtab next.toNat rest) :
      Linked hashtab idx (idx :: rest)

section Linked

variable {hashtab : ElfHash} {idx : Nat} {cs : List Nat}

/-- The entry behind `i` on its chain. -/
def chainNext (hashtab : ElfHash) (i : Nat) : Option Nat :=
  if i = 0 then none else hashtab.chains[i]?.map UInt32.toNat

theorem Linked.ends (h : hashtab.Linked idx cs) : Walk.Ends hashtab.chainNext idx cs := by
  induction h with
  | stop => exact .stop rfl
  | step hidx hnext _ ih =>
      refine .step ?_ ih
      rw [chainNext, if_neg hidx, hnext]
      rfl

theorem Linked.lt_length (h : hashtab.Linked idx cs) :
    ∀ i ∈ cs, i < hashtab.chains.length := by
  induction h with
  | stop => simp
  | step _ hnext _ ih =>
      exact List.forall_mem_cons.mpr ⟨(List.getElem?_eq_some_iff.mp hnext).1, ih⟩

theorem Linked.one_le (h : hashtab.Linked idx cs) : ∀ i ∈ cs, 1 ≤ i := by
  induction h with
  | stop => simp
  | step hidx _ _ ih => exact List.forall_mem_cons.mpr ⟨Nat.one_le_iff_ne_zero.mpr hidx, ih⟩

theorem Linked.length_le (h : hashtab.Linked idx cs) : cs.length ≤ hashtab.chains.length := by
  have hsubset : cs ⊆ List.range hashtab.chains.length := fun i hi =>
    List.mem_range.mpr (h.lt_length i hi)
  have hle := (List.subperm_of_subset h.ends.nodup hsubset).length_le
  rwa [List.length_range] at hle

theorem Linked.chain_eq (h : hashtab.Linked idx cs) {fuel : Nat} (hfuel : cs.length < fuel) :
    hashtab.chain fuel idx = .ok cs := by
  induction h generalizing fuel with
  | stop =>
      obtain ⟨n, rfl⟩ := Nat.exists_eq_succ_of_ne_zero (Nat.ne_of_gt hfuel)
      rfl
  | step hidx hnext _ ih =>
      obtain ⟨n, rfl⟩ := Nat.exists_eq_succ_of_ne_zero (Nat.ne_of_gt (Nat.zero_lt_of_lt hfuel))
      rw [chain, if_neg hidx, hnext]
      dsimp only
      rw [ih (Nat.lt_of_succ_lt_succ hfuel)]
      rfl

end Linked

variable {w : Nat} [CustomHasher]

/-- A table as link editors write it: every entry but the reserved one is on the
chain of its bucket, and every chain ends. -/
structure WellFormed (hashtab : ElfHash) (table : SymbolTable w) : Prop where
  nbucket : 1 ≤ hashtab.nbucket.toNat
  chainsLength : hashtab.chains.length = table.symtab.length
  names : ∀ i, 1 ≤ i → i < table.symtab.length → ∃ name, table.nameAt i = .ok name
  buckets : ∀ b < hashtab.nbucket.toNat, ∃ start cs, hashtab.buckets[b]? = some start ∧
    hashtab.Linked start.toNat cs ∧
    ∀ i name, 1 ≤ i → table.nameAt i = .ok name →
      (hash name).toNat % hashtab.nbucket.toNat = b → i ∈ cs

end ElfHash

section Agree

variable {w : Nat} [CustomHasher]

/-- The hash table `ElfDynamic` names, parsed. -/
inductive ElfDynamicHashTab (w : Nat) where
  | gnu (hashtab : ElfGnuHash w)
  | elf (hashtab : ElfHash)

def HashTable.fromDynamic : ElfDynamicHashTab w → HashTable w
  | .gnu hashtab => .gnu hashtab
  | .elf hashtab => .elf hashtab

/-- The other tables for symbols that the dynamic section names. -/
structure DynamicSymbols (w : Nat) where
  symtab : List (ElfSymbol w)
  strtab : List UInt8
  version : Option ELFVersion

namespace SymbolTable

/-- `SymbolTable::from_dynamic`. -/
def fromDynamic (dynamic : DynamicSymbols w) (hashtab : ElfDynamicHashTab w) : SymbolTable w where
  hashtab := .fromDynamic hashtab
  symtab := dynamic.symtab
  strtab := dynamic.strtab
  version := dynamic.version
  custom_unversioned := by
    intro c hc
    cases hashtab with
    | gnu hashtab => cases hc
    | elf hashtab => cases hc

section Unversioned

variable {table : SymbolTable w}

/-- Without a version requirement the name alone decides. -/
theorem acceptEntry_unversioned (name : Name) {idx : Nat} {sym : ElfSymbol w} {symName : Name}
    (hsym : table.symtab[idx]? = some sym) (hname : table.nameAt idx = .ok symName) :
    table.acceptEntry { name, version := none } idx =
      .ok (if symName = name then some ⟨idx, sym⟩ else none) := by
  by_cases hsame : symName = name
  · have hnamed : table.nameAt idx = .ok ({ name, version := none } : SymbolInfo).name :=
      hsame ▸ hname
    obtain ⟨sym', hsym', haccept⟩ := acceptEntry_of_named hnamed
    rw [symbolAt_ok_iff, hsym] at hsym'
    cases hsym'
    rw [haccept, if_pos hsame]
    rfl
  · rw [acceptEntry_of_other hname hsame, if_neg hsame]

/-- The symbols of index one and more have names of their own. -/
def UniqueNames (table : SymbolTable w) : Prop :=
  ∀ i j, 1 ≤ i → i < table.symtab.length → 1 ≤ j → j < table.symtab.length →
    table.nameAt i = table.nameAt j → i = j

/-- Searching any list of symbols with unique names finds the symbol of the
name if it is in the list. -/
theorem findFirst_acceptEntry_of_mem {name : Name} {cs : List Nat} {idx : Nat} {sym : ElfSymbol w}
    (hunique : table.UniqueNames)
    (hnames : ∀ i, 1 ≤ i → i < table.symtab.length → ∃ name, table.nameAt i = .ok name)
    (hcs : ∀ i ∈ cs, 1 ≤ i ∧ i < table.symtab.length) (hidx : 1 ≤ idx)
    (hsym : table.symtab[idx]? = some sym) (hname : table.nameAt idx = .ok name) :
    findFirst (table.acceptEntry { name, version := none }) cs =
      .ok (if idx ∈ cs then some ⟨idx, sym⟩ else none) := by
  have hlt : idx < table.symtab.length := (List.getElem?_eq_some_iff.mp hsym).1
  induction cs with
  | nil => rfl
  | cons i cs ih =>
      obtain ⟨hi, hrest⟩ := List.forall_mem_cons.mp hcs
      obtain ⟨symName, hsymName⟩ := hnames i hi.1 hi.2
      have haccept := acceptEntry_unversioned name (List.getElem?_eq_getElem hi.2) hsymName
      by_cases hsame : i = idx
      · subst hsame
        have hfound : table.acceptEntry { name, version := none } i = .ok (some ⟨i, sym⟩) := by
          rw [acceptEntry_unversioned name hsym hname, if_pos rfl]
        rw [findFirst_cons_of_some hfound, if_pos List.mem_cons_self]
      · have hother : symName ≠ name := by
          rintro rfl
          exact hsame (hunique i idx hi.1 hi.2 hidx hlt (hsymName.trans hname.symm))
        rw [if_neg hother] at haccept
        rw [findFirst_cons_of_none haccept, ih hrest]
        simp [Ne.symm hsame]

theorem findFirst_acceptEntry_of_absent {name : Name} {cs : List Nat}
    (hnames : ∀ i, 1 ≤ i → i < table.symtab.length → ∃ name, table.nameAt i = .ok name)
    (hcs : ∀ i ∈ cs, 1 ≤ i ∧ i < table.symtab.length)
    (habsent : ∀ i, 1 ≤ i → i < table.symtab.length → table.nameAt i ≠ .ok name) :
    findFirst (table.acceptEntry { name, version := none }) cs = .ok none := by
  refine findFirst_eq_none_iff.mpr fun i hi => ?_
  obtain ⟨hone, hlt⟩ := hcs i hi
  obtain ⟨symName, hsymName⟩ := hnames i hone hlt
  refine acceptEntry_of_other hsymName fun hsame => habsent i hone hlt ?_
  rw [hsymName, hsame]

end Unversioned

/-! ## The walk of each table -/

section Walks

variable {table : SymbolTable w}

/-- The SysV lookup searches a list that holds every symbol of the name. -/
theorem elfLookup_eq_findFirst {hashtab : ElfHash} (info : SymbolInfo)
    (hwf : hashtab.WellFormed table) :
    ∃ cs, table.elfLookup hashtab info (ElfHash.hash info.name) =
        findFirst (table.acceptEntry info) cs ∧
      (∀ i ∈ cs, 1 ≤ i ∧ i < table.symtab.length) ∧
      ∀ i, 1 ≤ i → table.nameAt i = .ok info.name → i ∈ cs := by
  have hnbucket : hashtab.nbucket ≠ 0 := by
    intro h
    have hpos := hwf.nbucket
    rw [h] at hpos
    exact absurd hpos (by decide)
  obtain ⟨start, cs, hstart, hlinked, hcomplete⟩ :=
    hwf.buckets _ (Nat.mod_lt (ElfHash.hash info.name).toNat hwf.nbucket)
  have hchain := hlinked.chain_eq (Nat.lt_succ_of_le hlinked.length_le)
  refine ⟨cs, ?_, fun i hi => ⟨hlinked.one_le i hi, ?_⟩, fun i hone hname => ?_⟩
  · rw [← table.elfWalk_eq_findFirst hashtab info hchain, elfLookup, ElfHash.chainStart,
      if_neg hnbucket, hstart]
    rfl
  · rw [← hwf.chainsLength]
    exact hlinked.lt_length i hi
  · exact hcomplete i info.name hone hname rfl

/-- Symbol zero is never covered: a bucket that held it would read as empty. -/
theorem one_le_of_hashed {hashtab : ElfGnuHash w} (hwf : hashtab.WellFormed table) {idx : Nat}
    (hidx : hashtab.Hashed table idx) : 1 ≤ idx := by
  have hbucket : hashtab.bucketOf table idx < hashtab.nbucket.toNat := Nat.mod_lt _ hwf.nbucket
  obtain ⟨start, -, ⟨-, hempty⟩ | ⟨hnonzero, -, -, hleast⟩⟩ := hwf.buckets _ hbucket
  · exact absurd rfl (hempty idx hidx)
  · have hpos : start.toNat ≠ 0 := fun h => hnonzero (UInt32.toNat_inj.mp h)
    have hle := hleast idx hidx rfl
    omega

end Walks

/-! ## Agreement -/

/-- One symbol table looked up through `DT_HASH` and through `DT_GNU_HASH` gives
the same answer for every name. -/
theorem hash_tables_agree [WordSize w] {dynamic : DynamicSymbols w} {elfHash : ElfHash}
    {gnuHash : ElfGnuHash w}
    (helf : elfHash.WellFormed (fromDynamic dynamic (.elf elfHash)))
    (hgnu : gnuHash.WellFormed (fromDynamic dynamic (.gnu gnuHash)))
    (hexports : ∀ i sym, 1 ≤ i → dynamic.symtab[i]? = some sym →
      (gnuHash.Hashed (fromDynamic dynamic (.gnu gnuHash)) i ↔ sym.Exported))
    (hunique : (fromDynamic dynamic (.elf elfHash)).UniqueNames)
    (name : Name) {pre pre' : PreCompute w} (hpre : pre.Sound { name, version := none })
    (hpre' : pre'.Sound { name, version := none }) :
    ∃ found,
      ((fromDynamic dynamic (.elf elfHash)).lookupFilter { name, version := none } pre).map Prod.fst
        = .ok found ∧
      ((fromDynamic dynamic (.gnu gnuHash)).lookupFilter { name, version := none } pre').map Prod.fst
        = .ok found := by
  obtain ⟨_, -, hfilterElf⟩ := (fromDynamic dynamic (.elf elfHash)).lookupFilter_sound hpre
  obtain ⟨_, -, hfilterGnu⟩ := (fromDynamic dynamic (.gnu gnuHash)).lookupFilter_sound hpre'
  rw [hfilterElf, hfilterGnu, provided, provided]
  -- both lookups search symbols of one table, whose entries read the same
  obtain ⟨cs, hsearch, hcs, hcomplete⟩ :=
    elfLookup_eq_findFirst { name, version := none } helf
  have hfreshElf : (fromDynamic dynamic (.elf elfHash)).lookupFresh { name, version := none } =
      findFirst ((fromDynamic dynamic (.elf elfHash)).acceptEntry { name, version := none }) cs :=
    hsearch
  have hfreshGnu : (fromDynamic dynamic (.gnu gnuHash)).lookupFresh { name, version := none } =
      findFirst ((fromDynamic dynamic (.elf elfHash)).acceptEntry { name, version := none })
        ((fromDynamic dynamic (.gnu gnuHash)).hashedIndices gnuHash) :=
    gnuLookup_eq_findFirst hgnu (precompute_sound _)
  have hhashed : ∀ i ∈ (fromDynamic dynamic (.gnu gnuHash)).hashedIndices gnuHash,
      1 ≤ i ∧ i < (fromDynamic dynamic (.elf elfHash)).symtab.length := by
    intro i hi
    have hi' := mem_hashedIndices.mp hi
    exact ⟨one_le_of_hashed hgnu hi', hi'.2⟩
  rw [hfreshElf, hfreshGnu]
  by_cases hpresent : ∃ idx, 1 ≤ idx ∧ idx < (fromDynamic dynamic (.elf elfHash)).symtab.length ∧
      (fromDynamic dynamic (.elf elfHash)).nameAt idx = .ok name
  · obtain ⟨idx, hone, hlt, hname⟩ := hpresent
    have hsym := List.getElem?_eq_getElem hlt
    rw [findFirst_acceptEntry_of_mem hunique helf.names hcs hone hsym hname,
      findFirst_acceptEntry_of_mem hunique helf.names hhashed hone hsym hname,
      if_pos (hcomplete idx hone hname)]
    refine ⟨_, rfl, ?_⟩
    by_cases hexported : gnuHash.Hashed (fromDynamic dynamic (.gnu gnuHash)) idx
    · rw [if_pos (mem_hashedIndices.mpr hexported)]
      rfl
    · rw [if_neg (fun hmem => hexported (mem_hashedIndices.mp hmem))]
      have hnot := ElfSymbol.isUsable_of_not_exported
        (fun h => hexported ((hexports idx _ hone hsym).mpr h))
      simp [Except.map, Option.filter, hnot]
  · have habsent : ∀ i, 1 ≤ i → i < (fromDynamic dynamic (.elf elfHash)).symtab.length →
        (fromDynamic dynamic (.elf elfHash)).nameAt i ≠ .ok name :=
      fun i hone hlt hname => hpresent ⟨i, hone, hlt, hname⟩
    rw [findFirst_acceptEntry_of_absent helf.names hcs habsent,
      findFirst_acceptEntry_of_absent helf.names hhashed habsent]
    exact ⟨_, rfl, rfl⟩

end SymbolTable

end Agree

/-! ## One export, through both tables -/

section OneExport

attribute [local instance] constantHasher

/-- The SysV hash table of the library that exports `f` alone. -/
def oneExportElfHash : ElfHash where
  nbucket := 1
  nchain := 2
  buckets := [1]
  chains := [0, 0]

def oneExportDynamic : DynamicSymbols 64 where
  symtab := (oneExport none).symtab
  strtab := (oneExport none).strtab
  version := none

theorem oneExportElfHash_wellFormed :
    oneExportElfHash.WellFormed (.fromDynamic oneExportDynamic (.elf oneExportElfHash)) where
  nbucket := by decide
  chainsLength := rfl
  names := by
    intro i hone hlt
    have hi : i = 1 := Nat.le_antisymm (Nat.le_of_lt_succ hlt) hone
    exact ⟨[102], by rw [hi]; rfl⟩
  buckets := by
    intro b hb
    have hzero : b = 0 := Nat.lt_one_iff.mp hb
    subst hzero
    refine ⟨1, [1], rfl, .step (by decide) rfl .stop, ?_⟩
    intro i name hone hname _
    obtain ⟨sym, hsym, -⟩ := Exec.except_bind_ok_iff.mp hname
    have hlt := (List.getElem?_eq_some_iff.mp (SymbolTable.symbolAt_ok_iff.mp hsym)).1
    have hi : i = 1 := Nat.le_antisymm (Nat.le_of_lt_succ hlt) hone
    exact List.mem_singleton.mpr hi

theorem hash_tables_agree_on_export :
    ∃ found,
      ((SymbolTable.fromDynamic oneExportDynamic (.elf oneExportElfHash)).lookupFilter
        { name := [102], version := none }
        (SymbolInfo.precompute 64 { name := [102], version := none })).map Prod.fst = .ok found ∧
      ((SymbolTable.fromDynamic oneExportDynamic (.gnu oneExportHash)).lookupFilter
        { name := [102], version := none }
        (SymbolInfo.precompute 64 { name := [102], version := none })).map Prod.fst = .ok found := by
  refine SymbolTable.hash_tables_agree oneExportElfHash_wellFormed (oneExport_wellFormed none)
    ?_ ?_ [102] (precompute_sound _) (precompute_sound _)
  · intro i sym hone hsym
    have hlt := (List.getElem?_eq_some_iff.mp hsym).1
    have hi : i = 1 := Nat.le_antisymm (Nat.le_of_lt_succ hlt) hone
    subst hi
    cases hsym
    exact iff_of_true ((oneExport_hashed_iff none 1).mpr rfl) ⟨rfl, .inl rfl⟩
  · intro i j hi hilt hj hjlt _
    exact (Nat.le_antisymm (Nat.le_of_lt_succ hilt) hi).trans
      (Nat.le_antisymm (Nat.le_of_lt_succ hjlt) hj).symm

end OneExport

end ElfLoader
