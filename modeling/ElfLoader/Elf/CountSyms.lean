import ElfLoader.Elf.Custom
import ElfLoader.Elf.HashAgree

/-! # Counting symbols (`count_syms` of `src/elf/symbol.rs` and `src/elf/hash`)

No table says how many symbols there are in the same way. The SysV header has a
field; the GNU table knows the end of its last chain; the custom table knows how
many entries it holds.
-/

namespace ElfLoader

variable {w : Nat}

namespace ElfGnuHash

variable (hashtab : ElfGnuHash w)

/-- One iteration of the loop over the buckets. -/
def maxStep (nsym i : Nat) : Except Halt Nat :=
  match hashtab.buckets[i]? with
  | some bucket => .ok (max nsym bucket.toNat)
  | none => .error .fault

/-- The walk to the end marker of a chain. -/
def chainEnd : List UInt32 → Nat → Except Halt Nat
  | [], _ => .error .fault
  | val :: rest, nsym => if val &&& 1 = 0 then chainEnd rest (nsym + 1) else .ok nsym

/-- `ElfGnuHash::count_syms`. A bucket below `symbias` leads in front of the chains. -/
def countSyms : Except Halt Nat := do
  let nsym ← (List.range hashtab.nbucket.toNat).foldlM hashtab.maxStep 0
  if 0 < nsym then
    if nsym < hashtab.symbias.toNat then .error .fault
    else
      let nsym ← chainEnd (hashtab.chains.drop (nsym - hashtab.symbias.toNat)) nsym
      return nsym + 1
  else return nsym + 1

end ElfGnuHash

/-- `ElfHash::count_syms`. -/
def ElfHash.countSyms (hashtab : ElfHash) : Nat := hashtab.nchain.toNat

section Hasher

variable [CustomHasher]

/-- `CustomHash::count_syms`. -/
def CustomHash.countSyms (hashtab : CustomHash) : Nat := hashtab.entries.length

/-- `HashTable::count_syms`. -/
def HashTable.countSyms : HashTable w → Except Halt Nat
  | .gnu hashtab => hashtab.countSyms
  | .elf hashtab => .ok hashtab.countSyms
  | .custom hashtab => .ok hashtab.countSyms

namespace SymbolTable

/-- `SymbolTable::count_syms`. -/
def countSyms (table : SymbolTable w) : Except Halt Nat := table.hashtab.countSyms

/-- The hash table is one that belongs to the symbols. -/
def HashWellFormed (table : SymbolTable w) : Prop :=
  match table.hashtab with
  | .gnu hashtab => hashtab.WellFormed table
  | .elf hashtab => hashtab.WellFormed table ∧ hashtab.chains.length = hashtab.nchain.toNat
  | .custom hashtab => CustomHash.fromShdr table.symtab table.strtab = .ok hashtab.entries

/-- The count is the size of the table: the indices below it are those in range. -/
def CountsSymbols (table : SymbolTable w) : Prop :=
  table.countSyms = .ok table.symtab.length ∧
    ∀ idx, (∃ sym, table.symbolAt idx = .ok sym) ↔
      ∃ n, table.countSyms = .ok n ∧ idx < n

/-- The hash table has seen the last symbol: one is hashed or there is only the
null symbol; no symbol is a file symbol. -/
def LastSeen (table : SymbolTable w) : Prop :=
  match table.hashtab with
  | .gnu hashtab => hashtab.symbias.toNat < table.symtab.length ∨ table.symtab.length = 1
  | .elf _ => True
  | .custom _ => ∀ sym ∈ table.symtab, sym.stType ≠ sttFile

theorem exists_symbolAt_iff (table : SymbolTable w) (idx : Nat) :
    (∃ sym, table.symbolAt idx = .ok sym) ↔ idx < table.symtab.length := by
  simp only [symbolAt_ok_iff]
  rw [← Option.isSome_iff_exists, isSome_getElem?]

theorem countsSymbols_iff (table : SymbolTable w) :
    table.CountsSymbols ↔ table.countSyms = .ok table.symtab.length := by
  refine ⟨And.left, fun hcount => ⟨hcount, fun idx => ?_⟩⟩
  rw [exists_symbolAt_iff, hcount]
  constructor
  · intro hlt
    exact ⟨_, rfl, hlt⟩
  · rintro ⟨n, hn, hlt⟩
    cases hn
    exact hlt

end SymbolTable

/-! ## The GNU table -/

namespace ElfGnuHash

variable {hashtab : ElfGnuHash w} {table : SymbolTable w}

omit [CustomHasher] in
/-- What the loop finds: a bound on all buckets that is the start value or one of
them. -/
theorem foldlM_maxStep {is : List Nat} (acc : Nat)
    (h : ∀ i ∈ is, ∃ bucket, hashtab.buckets[i]? = some bucket) :
    ∃ m, is.foldlM hashtab.maxStep acc = .ok m ∧ acc ≤ m ∧
      (∀ i ∈ is, ∀ bucket, hashtab.buckets[i]? = some bucket → bucket.toNat ≤ m) ∧
      (m = acc ∨ ∃ i ∈ is, ∃ bucket, hashtab.buckets[i]? = some bucket ∧ m = bucket.toNat) := by
  induction is generalizing acc with
  | nil => exact ⟨acc, rfl, Nat.le_refl acc, nofun, .inl rfl⟩
  | cons i is ih =>
      obtain ⟨⟨bucket, hbucket⟩, hrest⟩ := List.forall_mem_cons.mp h
      obtain ⟨m, hm, hacc, hall, hsome⟩ := ih (max acc bucket.toNat) hrest
      have hstep : hashtab.maxStep acc i = .ok (max acc bucket.toNat) := by
        rw [maxStep, hbucket]
      refine ⟨m, ?_, by omega, ?_, ?_⟩
      · rw [List.foldlM_cons, hstep]
        exact hm
      · intro j hj b hb
        rcases List.mem_cons.mp hj with rfl | hj
        · rw [hbucket] at hb
          cases hb
          omega
        · exact hall j hj b hb
      · rcases hsome with hsame | ⟨j, hj, hmax⟩
        · rcases Nat.le_total acc bucket.toNat with hle | hle
          · exact .inr ⟨i, List.mem_cons_self, bucket, hbucket, by omega⟩
          · exact .inl (by omega)
        · exact .inr ⟨j, List.mem_cons_of_mem i hj, hmax⟩

/-- A table that hashes nothing has only empty buckets. -/
theorem countSyms_of_unhashed (hwf : hashtab.WellFormed table)
    (hnone : table.symtab.length ≤ hashtab.symbias.toNat) : hashtab.countSyms = .ok 1 := by
  have hunhashed : ∀ i, ¬ hashtab.Hashed table i := fun i hi => by
    have hlo := hi.1
    have hhi := hi.2
    omega
  have hempty : ∀ i ∈ List.range hashtab.nbucket.toNat, hashtab.buckets[i]? = some 0 := by
    intro i hi
    obtain ⟨start, hstart, ⟨hzero, -⟩ | ⟨-, hhashed, -⟩⟩ := hwf.buckets i (List.mem_range.mp hi)
    · rw [hstart, hzero]
    · exact absurd hhashed (hunhashed _)
  obtain ⟨m, hm, -, -, hsome⟩ := foldlM_maxStep 0 fun i hi => ⟨0, hempty i hi⟩
  have hzero : m = 0 := by
    rcases hsome with hzero | ⟨i, hi, bucket, hbucket, hmax⟩
    · exact hzero
    · rw [hempty i hi] at hbucket
      cases hbucket
      exact hmax
  rw [countSyms, hm, hzero]
  rfl

/-- The walk from a symbol of the last group ends at the last symbol. -/
theorem chainEnd_last (hwf : hashtab.WellFormed table) (idx : Nat) {d : Nat}
    (hlast : idx + d + 1 = table.symtab.length) (hhashed : hashtab.Hashed table idx)
    (hgroup : hashtab.bucketOf table idx = hashtab.bucketOf table (idx + d)) :
    chainEnd (hashtab.chains.drop (idx - hashtab.symbias.toNat)) idx = .ok (idx + d) := by
  induction d generalizing idx with
  | zero =>
      obtain ⟨word, hdrop, -, hend⟩ := hwf.drop_chains hhashed
      have hword : word &&& 1 ≠ 0 := hend.mpr fun hnext => by
        have hlt := hnext.2
        omega
      rw [hdrop, chainEnd, if_neg hword]
      rfl
  | succ d ih =>
      obtain ⟨word, hdrop, -, hend⟩ := hwf.drop_chains hhashed
      have hge := hhashed.1
      have hnext : hashtab.Hashed table (idx + 1) := ⟨by omega, by omega⟩
      have hfinal : hashtab.Hashed table (idx + (d + 1)) := ⟨by omega, by omega⟩
      -- between two symbols of a group there are only symbols of it
      have hsame := hwf.grouped idx (idx + 1) (idx + (d + 1)) hhashed hfinal (by omega) (by omega)
        hgroup
      have hword : word &&& 1 = 0 := by
        by_contra hne
        exact hend.mp hne hnext hsame
      have hstep := ih (idx + 1) (by omega) hnext (by
        rw [hsame, hgroup]
        congr 1
        omega)
      rw [hdrop, chainEnd, if_pos hword, hstep]
      congr 1
      omega

/-- The highest bucket is the one of the last symbol. -/
theorem countSyms_of_hashed (hwf : hashtab.WellFormed table)
    (hsome : hashtab.symbias.toNat < table.symtab.length) :
    hashtab.countSyms = .ok table.symtab.length := by
  obtain ⟨last, hlast⟩ : ∃ last, last + 1 = table.symtab.length :=
    ⟨table.symtab.length - 1, by omega⟩
  have hhashed : hashtab.Hashed table last := ⟨by omega, by omega⟩
  have hbucket : hashtab.bucketOf table last < hashtab.nbucket.toNat := Nat.mod_lt _ hwf.nbucket
  obtain ⟨start, hstart, hgroup⟩ := hwf.buckets _ hbucket
  obtain ⟨-, hnone⟩ | ⟨hne, hstartHashed, hsame, hleast⟩ := hgroup
  · exact absurd rfl (hnone last hhashed)
  have hle := hleast last hhashed rfl
  have hreads : ∀ i ∈ List.range hashtab.nbucket.toNat,
      ∃ bucket, hashtab.buckets[i]? = some bucket := fun i hi => by
    obtain ⟨bucket, hread, -⟩ := hwf.buckets i (List.mem_range.mp hi)
    exact ⟨bucket, hread⟩
  obtain ⟨m, hm, -, hall, hattained⟩ := foldlM_maxStep 0 hreads
  have hpos : 0 < start.toNat := by
    rw [Nat.pos_iff_ne_zero]
    exact fun hzero => hne (UInt32.toNat_inj.mp hzero)
  -- a bucket that starts behind this one would split the last group
  have hmax : m = start.toNat := by
    have hge := hall _ (List.mem_range.mpr hbucket) start hstart
    rcases hattained with hzero | ⟨i, hi, bucket, hread, hmi⟩
    · omega
    · obtain ⟨b, hb, ⟨hzero, -⟩ | ⟨-, hbHashed, hbGroup, -⟩⟩ := hwf.buckets i (List.mem_range.mp hi)
      · rw [hread] at hb
        cases hb
        rw [hzero, UInt32.toNat_zero] at hmi
        omega
      · rw [hread] at hb
        cases hb
        have hlt := hbHashed.2
        have hin := hwf.grouped start.toNat bucket.toNat last hstartHashed hhashed (by omega)
          (by omega) hsame
        rw [← hbGroup, hin, hsame, hstart] at hread
        cases hread
        exact hmi
  have hbias := hstartHashed.1
  have hend := chainEnd_last hwf start.toNat (d := last - start.toNat) (by omega)
    hstartHashed (by rw [hsame]; congr 1; omega)
  rw [countSyms, hm, hmax]
  change (if 0 < start.toNat then if start.toNat < hashtab.symbias.toNat then .error .fault
    else chainEnd (hashtab.chains.drop (start.toNat - hashtab.symbias.toNat)) start.toNat >>=
      fun nsym => pure (nsym + 1) else pure (start.toNat + 1)) = _
  rw [if_pos hpos, if_neg (by omega), hend, ← hlast]
  change Except.ok (start.toNat + (last - start.toNat) + 1) = _
  congr 1
  omega

end ElfGnuHash

/-! ## The custom table -/

omit [CustomHasher] in
/-- Every symbol that is not a file symbol has one entry. -/
theorem CustomHash.entriesFrom_length {strtab : List UInt8} {symbols : List (ElfSymbol w)}
    {idx : Nat} {entries : List TableEntry}
    (h : CustomHash.entriesFrom strtab symbols idx = .ok entries) :
    entries.length = (symbols.filter fun sym => sym.stType ≠ sttFile).length := by
  induction symbols generalizing idx entries with
  | nil =>
      cases h
      rfl
  | cons symbol symbols ih =>
      unfold CustomHash.entriesFrom at h
      by_cases hfile : symbol.stType = sttFile
      · rw [if_pos hfile] at h
        rw [List.filter_cons_of_neg (by simpa using hfile)]
        exact ih h
      · rw [if_neg hfile] at h
        obtain ⟨name, -, h⟩ := Exec.except_bind_ok_iff.mp h
        obtain ⟨tail, htail, hret⟩ := Exec.except_bind_ok_iff.mp h
        cases hret
        rw [List.filter_cons_of_pos (by simpa using hfile), List.length_cons, List.length_cons,
          ih htail]

/-! ## The three tables -/

namespace SymbolTable

/-- The count is the size of the symbol table exactly where the hash table has
seen the last symbol. -/
theorem countsSymbols_iff_lastSeen {table : SymbolTable w} (hwf : table.HashWellFormed) :
    table.CountsSymbols ↔ table.LastSeen := by
  rw [countsSymbols_iff]
  unfold HashWellFormed at hwf
  unfold countSyms LastSeen HashTable.countSyms
  cases hkind : table.hashtab with
  | gnu hashtab =>
      rw [hkind] at hwf
      change hashtab.countSyms = _ ↔
        (hashtab.symbias.toNat < table.symtab.length ∨ table.symtab.length = 1)
      rcases Nat.lt_or_ge hashtab.symbias.toNat table.symtab.length with hsome | hnone
      · exact iff_of_true (ElfGnuHash.countSyms_of_hashed hwf hsome) (.inl hsome)
      · rw [ElfGnuHash.countSyms_of_unhashed hwf hnone, or_iff_right (Nat.not_lt_of_le hnone),
          Except.ok.injEq]
        exact eq_comm
  | elf hashtab =>
      rw [hkind] at hwf
      refine iff_of_true ?_ trivial
      change Except.ok hashtab.countSyms = _
      rw [ElfHash.countSyms, ← hwf.2, hwf.1.chainsLength]
  | custom hashtab =>
      rw [hkind] at hwf
      change Except.ok hashtab.countSyms = _ ↔ ∀ sym ∈ table.symtab, sym.stType ≠ sttFile
      rw [CustomHash.countSyms, CustomHash.entriesFrom_length hwf, Except.ok.injEq,
        List.length_filter_eq_length_iff]
      simp only [ne_eq, decide_not, Bool.not_eq_true', decide_eq_false_iff_not]

end SymbolTable

end Hasher

section NoExports

attribute [local instance] constantHasher

/-- The hash table of an executable that imports one symbol and exports none. -/
def noExportsHash : ElfGnuHash 64 where
  nbucket := 1
  symbias := 2
  nbloom := 1
  nshift := 0
  blooms := [0]
  buckets := [0]
  chains := []

def noExports : SymbolTable 64 where
  hashtab := .gnu noExportsHash
  symtab := [⟨0, 0, 0, 0, 0, 0⟩, ⟨1, 0, 0, 0x12, 0, 0⟩]
  strtab := [0, 102, 0]
  version := none
  custom_unversioned := nofun

theorem noExports_not_hashed (idx : Nat) : ¬ noExportsHash.Hashed noExports idx := by
  rintro ⟨hlo, hhi⟩
  have hbias : noExportsHash.symbias.toNat = 2 := rfl
  have hlength : noExports.symtab.length = 2 := rfl
  omega

theorem noExports_wellFormed : noExportsHash.WellFormed noExports where
  nbloom := ⟨0, rfl⟩
  nbucket := by decide
  nshift := by decide
  bloomsLength := rfl
  names := fun i hi => absurd hi (noExports_not_hashed i)
  grouped := fun i _ _ hi => absurd hi (noExports_not_hashed i)
  buckets := by
    intro b hb
    have hzero : b = 0 := by
      have hone : noExportsHash.nbucket.toNat = 1 := rfl
      omega
    exact ⟨0, by rw [hzero]; rfl, .inl ⟨rfl, fun i hi => absurd hi (noExports_not_hashed i)⟩⟩
  chains := fun i hi => absurd hi (noExports_not_hashed i)
  blooms := fun i hi => absurd hi (noExports_not_hashed i)

theorem noExports_countsSymbols_iff : noExports.CountsSymbols ↔ noExports.LastSeen :=
  SymbolTable.countsSymbols_iff_lastSeen noExports_wellFormed

/-- Two symbols, counted as one. -/
theorem noExports_miscounted : noExports.HashWellFormed ∧ ¬ noExports.CountsSymbols := by
  refine ⟨noExports_wellFormed, fun hcounts => ?_⟩
  have hone : noExports.countSyms = .ok 1 := rfl
  rw [SymbolTable.CountsSymbols, hone] at hcounts
  cases hcounts.1

end NoExports

end ElfLoader
