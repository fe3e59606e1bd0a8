import ElfLoader.Elf.VersionLookup
import ElfLoader.Library.Bits
import ElfLoader.Os.Mmap

/-! # The GNU hash table as an index (`src/elf/hash/gnu.rs`)

The table covers the symbols from `symbias` on, grouped by bucket. The bloom
words, the buckets and the chains only shorten the search: in a well-formed
table a lookup finds what asking every covered symbol in order would find.
-/

namespace ElfLoader

open Search

namespace ElfGnuHash

/-- The mask of a power of two picks the same bloom word as the remainder. -/
theorem mask_eq_mod {w : Nat} {hashtab : ElfGnuHash w}
    (hpow : ∃ k, hashtab.nbloom.toNat = 2 ^ k) (n : Nat) :
    n &&& (hashtab.nbloom - 1).toNat = n % hashtab.nbloom.toNat := by
  obtain ⟨k, hk⟩ := hpow
  have hone : (1 : UInt32) ≤ hashtab.nbloom := by
    rw [UInt32.le_iff_toNat_le, hk]
    exact Nat.one_le_two_pow
  rw [UInt32.toNat_sub_of_le _ _ hone, hk]
  exact Nat.and_two_pow_sub_one_eq_mod n k

end ElfGnuHash

section Table

variable {w : Nat} [CustomHasher]

namespace SymbolTable

/-- The GNU hash of the name of an entry. -/
def gnuHashAt (table : SymbolTable w) (idx : Nat) : UInt32 :=
  match table.nameAt idx with
  | .ok name => ElfGnuHash.hash name
  | .error _ => 0

/-- The entry bears the wanted name and `check_match` accepts it. -/
def Accepts (table : SymbolTable w) (info : SymbolInfo) (idx : Nat) : Prop :=
  table.nameAt idx = .ok info.name ∧ checkMatch table.version idx info.version = .ok true

end SymbolTable

namespace ElfGnuHash

/-- The symbols the table covers. -/
def Hashed (hashtab : ElfGnuHash w) (table : SymbolTable w) (idx : Nat) : Prop :=
  hashtab.symbias.toNat ≤ idx ∧ idx < table.symtab.length

def bucketOf (hashtab : ElfGnuHash w) (table : SymbolTable w) (idx : Nat) : Nat :=
  (table.gnuHashAt idx).toNat % hashtab.nbucket.toNat

/-- No covered symbol of the same bucket follows. -/
def LastOfGroup (hashtab : ElfGnuHash w) (table : SymbolTable w) (idx : Nat) : Prop :=
  hashtab.Hashed table (idx + 1) → hashtab.bucketOf table (idx + 1) ≠ hashtab.bucketOf table idx

/-- A table as link editors write it. A bucket word of zero marks an empty group,
so the first symbol of a group is never symbol zero. -/
structure WellFormed (hashtab : ElfGnuHash w) (table : SymbolTable w) : Prop where
  nbloom : ∃ k, hashtab.nbloom.toNat = 2 ^ k
  nbucket : 1 ≤ hashtab.nbucket.toNat
  nshift : hashtab.nshift.toNat < 32
  bloomsLength : hashtab.blooms.length = hashtab.nbloom.toNat
  names : ∀ i, hashtab.Hashed table i → ∃ name, table.nameAt i = .ok name
  grouped : ∀ i j k, hashtab.Hashed table i → hashtab.Hashed table k → i ≤ j → j ≤ k →
    hashtab.bucketOf table i = hashtab.bucketOf table k →
    hashtab.bucketOf table j = hashtab.bucketOf table i
  buckets : ∀ b < hashtab.nbucket.toNat, ∃ start, hashtab.buckets[b]? = some start ∧
    ((start = 0 ∧ ∀ i, hashtab.Hashed table i → hashtab.bucketOf table i ≠ b) ∨
      (start ≠ 0 ∧ hashtab.Hashed table start.toNat ∧ hashtab.bucketOf table start.toNat = b ∧
        ∀ i, hashtab.Hashed table i → hashtab.bucketOf table i = b → start.toNat ≤ i))
  chains : ∀ i, hashtab.Hashed table i →
    ∃ word, hashtab.chains[i - hashtab.symbias.toNat]? = some word ∧
      word ||| 1 = table.gnuHashAt i ||| 1 ∧ (word &&& 1 ≠ 0 ↔ hashtab.LastOfGroup table i)
  blooms : ∀ i, hashtab.Hashed table i →
    ∃ filter, hashtab.blooms[(table.gnuHashAt i).toNat / w % hashtab.nbloom.toNat]? = some filter ∧
      filter.getLsbD ((table.gnuHashAt i).toNat % w) = true ∧
      filter.getLsbD ((table.gnuHashAt i >>> hashtab.nshift).toNat % w) = true

/-! ## The tests before the chain -/

variable {hashtab : ElfGnuHash w} {table : SymbolTable w} {info : SymbolInfo}

theorem gnuHashAt_of_name {idx : Nat} {name : Name} (h : table.nameAt idx = .ok name) :
    table.gnuHashAt idx = hash name := by
  simp only [SymbolTable.gnuHashAt, h]

/-- Neither bloom test rejects the hash of a covered symbol. -/
theorem bloom_passes [WordSize w] (hwf : hashtab.WellFormed table) {idx : Nat}
    (hidx : hashtab.Hashed table idx) (hhash : table.gnuHashAt idx = hash info.name) :
    ∃ filter, hashtab.blooms[(info.precompute w).fofs &&& (hashtab.nbloom - 1).toNat]? =
        some filter ∧
      filter &&& (info.precompute w).fmask ≠ 0 ∧
      (filter >>> (((info.precompute w).gnuhash >>> hashtab.nshift).toNat % w)) &&& 1#w ≠ 0 := by
  have hw : 0 < w := Nat.lt_trans (by omega) (WordSize.page_lt w)
  obtain ⟨filter, hfilter, hfirst, hsecond⟩ := hwf.blooms idx hidx
  rw [hhash] at hfilter hfirst hsecond
  refine ⟨filter, ?_, ?_, ?_⟩
  · rw [mask_eq_mod hwf.nbloom]
    exact hfilter
  · rw [SymbolInfo.precompute, ne_eq, Bits.and_one_shift_eq_zero_iff filter (Nat.mod_lt _ hw),
      hfirst]
    simp
  · rw [SymbolInfo.precompute, ne_eq, Bits.shift_and_one_eq_zero_iff filter hw, hsecond]
    simp

/-- What the tests leave: no covered symbol has the hash, or the walk starts at
the first symbol of the bucket. -/
theorem chainStart_cases [WordSize w] (info : SymbolInfo) (hwf : hashtab.WellFormed table) :
    (hashtab.chainStart (info.precompute w) = .ok none ∧
        ∀ i, hashtab.Hashed table i → table.gnuHashAt i ≠ hash info.name) ∨
      ∃ start, hashtab.chainStart (info.precompute w) = .ok (some start) ∧
        hashtab.Hashed table start ∧
        hashtab.bucketOf table start = (hash info.name).toNat % hashtab.nbucket.toNat ∧
        ∀ i, hashtab.Hashed table i →
          hashtab.bucketOf table i = (hash info.name).toNat % hashtab.nbucket.toNat → start ≤ i := by
  -- the bloom word exists for every hash
  have hlt : (info.precompute w).fofs &&& (hashtab.nbloom - 1).toNat < hashtab.blooms.length := by
    rw [mask_eq_mod hwf.nbloom, hwf.bloomsLength]
    obtain ⟨k, hk⟩ := hwf.nbloom
    exact Nat.mod_lt _ (hk ▸ Nat.two_pow_pos k)
  have hword := List.getElem?_eq_getElem hlt
  have hnbucket : hashtab.nbucket ≠ 0 := by
    intro h
    have hpos := hwf.nbucket
    rw [h] at hpos
    exact absurd hpos (by decide)
  have hbucket :
      (info.precompute w).gnuhash.toNat % hashtab.nbucket.toNat < hashtab.nbucket.toNat :=
    Nat.mod_lt _ hwf.nbucket
  obtain ⟨start, hstart, hgroup⟩ := hwf.buckets _ hbucket
  unfold chainStart
  simp only [hword, hnbucket, if_false, hstart]
  by_cases hfirst : hashtab.blooms[(info.precompute w).fofs &&& (hashtab.nbloom - 1).toNat] &&&
      (info.precompute w).fmask = 0
  · rw [if_pos hfirst]
    refine .inl ⟨rfl, fun i hi hhash => ?_⟩
    obtain ⟨filter, hfilter, hpass, -⟩ := bloom_passes hwf hi hhash
    rw [hword] at hfilter
    cases hfilter
    exact hpass hfirst
  · rw [if_neg hfirst]
    by_cases hsecond : (hashtab.blooms[(info.precompute w).fofs &&& (hashtab.nbloom - 1).toNat] >>>
        (((info.precompute w).gnuhash >>> hashtab.nshift).toNat % w)) &&& 1#w = 0
    · rw [if_pos hsecond]
      refine .inl ⟨rfl, fun i hi hhash => ?_⟩
      obtain ⟨filter, hfilter, -, hpass⟩ := bloom_passes hwf hi hhash
      rw [hword] at hfilter
      cases hfilter
      exact hpass hsecond
    · rw [if_neg hsecond]
      rcases hgroup with ⟨hzero, hempty⟩ | ⟨hnonzero, hhashed, hsame, hleast⟩
      · rw [if_pos hzero]
        refine .inl ⟨rfl, fun i hi hhash => hempty i hi ?_⟩
        rw [bucketOf, hhash]
        rfl
      · rw [if_neg hnonzero]
        exact .inr ⟨start.toNat, rfl, hhashed, hsame, hleast⟩

/-! ## The chain -/

/-- The chains from a covered symbol on start with its word. -/
theorem WellFormed.drop_chains (hwf : hashtab.WellFormed table) {idx : Nat}
    (hidx : hashtab.Hashed table idx) :
    ∃ word, hashtab.chains.drop (idx - hashtab.symbias.toNat) =
        word :: hashtab.chains.drop (idx + 1 - hashtab.symbias.toNat) ∧
      word ||| 1 = table.gnuHashAt idx ||| 1 ∧
        (word &&& 1 ≠ 0 ↔ hashtab.LastOfGroup table idx) := by
  obtain ⟨word, hword, hbits, hend⟩ := hwf.chains idx hidx
  refine ⟨word, ?_, hbits, hend⟩
  have hlt : idx - hashtab.symbias.toNat < hashtab.chains.length :=
    (List.getElem?_eq_some_iff.mp hword).1
  have hge := hidx.1
  rw [List.drop_eq_getElem_cons hlt, (List.getElem?_eq_some_iff.mp hword).2,
    show idx - hashtab.symbias.toNat + 1 = idx + 1 - hashtab.symbias.toNat by omega]

/-- The walk from a symbol of a group tests the symbols behind it that are in the
group and have the hash up to the end bit, in order. -/
theorem chain_eq_filter (hwf : hashtab.WellFormed table) (hash : UInt32) {n idx : Nat}
    (hn : idx + n = table.symtab.length) (hidx : hashtab.Hashed table idx) :
    ElfGnuHash.chain hash (hashtab.chains.drop (idx - hashtab.symbias.toNat)) idx =
      .ok ((List.range' idx n).filter fun j =>
        hashtab.bucketOf table j = hashtab.bucketOf table idx ∧
          hash ||| 1 = table.gnuHashAt j ||| 1) := by
  induction n generalizing idx with
  | zero =>
      have hlt := hidx.2
      omega
  | succ n ih =>
      obtain ⟨word, hdrop, hbits, hend⟩ := hwf.drop_chains hidx
      -- the rest of the walk tests the rest of the group
      have htail : (if word &&& 1 ≠ 0 then .ok []
          else ElfGnuHash.chain hash (hashtab.chains.drop (idx + 1 - hashtab.symbias.toNat))
            (idx + 1)) =
          (.ok ((List.range' (idx + 1) n).filter fun j =>
            hashtab.bucketOf table j = hashtab.bucketOf table idx ∧
              hash ||| 1 = table.gnuHashAt j ||| 1) : Except Halt (List Nat)) := by
        by_cases hlast : hashtab.LastOfGroup table idx
        · rw [if_pos (hend.mpr hlast)]
          refine congrArg _ (List.filter_eq_nil_iff.mpr fun j hj => ?_).symm
          rw [List.mem_range'_1] at hj
          have hjHashed : hashtab.Hashed table j := ⟨Nat.le_trans hidx.1 (by omega), by omega⟩
          have hnext : hashtab.Hashed table (idx + 1) := ⟨Nat.le_trans hidx.1 (by omega), by omega⟩
          simp only [decide_eq_true_eq, not_and]
          intro hsame
          exact absurd (hwf.grouped idx (idx + 1) j hidx hjHashed (by omega) hj.1 hsame.symm)
            (hlast hnext)
        · rw [if_neg (fun h => hlast (hend.mp h))]
          simp only [LastOfGroup, Classical.not_imp, not_not] at hlast
          rw [ih (by omega) hlast.1, hlast.2]
      rw [hdrop, ElfGnuHash.chain, htail, List.range'_succ, List.filter_cons, hbits]
      by_cases hsame : hash ||| 1 = table.gnuHashAt idx ||| 1
      · simp [hsame, Except.map]
      · simp [hsame, Except.map]

end ElfGnuHash

namespace SymbolTable

variable {hashtab : ElfGnuHash w} {table : SymbolTable w} {info : SymbolInfo}

/-- The symbols the hash table covers, in order. -/
def hashedIndices (table : SymbolTable w) (hashtab : ElfGnuHash w) : List Nat :=
  List.range' hashtab.symbias.toNat (table.symtab.length - hashtab.symbias.toNat)

theorem mem_hashedIndices {idx : Nat} :
    idx ∈ table.hashedIndices hashtab ↔ hashtab.Hashed table idx := by
  rw [hashedIndices, List.mem_range'_1, ElfGnuHash.Hashed]
  omega

theorem acceptEntry_of_other_hash {idx : Nat} (hwf : hashtab.WellFormed table)
    (hidx : hashtab.Hashed table idx) (hhash : table.gnuHashAt idx ≠ ElfGnuHash.hash info.name) :
    table.acceptEntry info idx = .ok none := by
  obtain ⟨name, hname⟩ := hwf.names idx hidx
  refine acceptEntry_of_other hname (fun hsame => hhash ?_)
  rw [ElfGnuHash.gnuHashAt_of_name hname, hsame]

/-- The index is faithful: a lookup finds what asking every covered symbol in
order finds. -/
theorem gnuLookup_eq_findFirst [WordSize w] {pre : PreCompute w}
    (hwf : hashtab.WellFormed table) (hpre : pre.Sound info) :
    table.gnuLookup hashtab info pre =
      findFirst (table.acceptEntry info) (table.hashedIndices hashtab) := by
  rw [table.gnuLookup_sound hashtab hpre, gnuLookup]
  rcases ElfGnuHash.chainStart_cases info hwf with
    ⟨hstart, hnone⟩ | ⟨start, hstart, hhashed, hbucket, hleast⟩
  · rw [hstart]
    refine (findFirst_eq_none_iff.mpr fun i hi => ?_).symm
    have hi' := mem_hashedIndices.mp hi
    exact acceptEntry_of_other_hash hwf hi' (hnone i hi')
  · have hge := hhashed.1
    have hlt := hhashed.2
    have hchain := ElfGnuHash.chain_eq_filter hwf (ElfGnuHash.hash info.name)
      (Nat.add_sub_cancel' (Nat.le_of_lt hlt)) hhashed
    rw [hstart]
    change (if start < hashtab.symbias.toNat then Except.error Halt.fault
      else table.gnuWalk info (ElfGnuHash.hash info.name)
        (hashtab.chains.drop (start - hashtab.symbias.toNat)) start) = _
    rw [if_neg (Nat.not_lt.mpr hge), table.gnuWalk_eq_findFirst info _ hchain]
    -- in front of the group no entry has the hash
    have hsplit : table.hashedIndices hashtab =
        List.range' hashtab.symbias.toNat (start - hashtab.symbias.toNat) ++
          List.range' start (table.symtab.length - start) := by
      have happend := List.range'_append_1 (s := hashtab.symbias.toNat)
        (m := start - hashtab.symbias.toNat) (n := table.symtab.length - start)
      rw [Nat.add_sub_cancel' hge] at happend
      rw [happend, hashedIndices]
      congr 1
      omega
    rw [hsplit, findFirst_append_of_none, findFirst_filter]
    · intro i hi hout
      rw [List.mem_range'_1] at hi
      refine acceptEntry_of_other_hash hwf ⟨by omega, by omega⟩ (fun hhash => ?_)
      simp only [ElfGnuHash.bucketOf, hhash, decide_eq_false_iff_not, not_and] at hout
      exact hout hbucket.symm trivial
    · intro i hi
      rw [List.mem_range'_1] at hi
      have hi' : hashtab.Hashed table i := ⟨by omega, by omega⟩
      refine acceptEntry_of_other_hash hwf hi' (fun hhash => ?_)
      have hle := hleast i hi' (by rw [ElfGnuHash.bucketOf, hhash])
      omega

/-! ## What a lookup answers -/

/-- The covered symbol of lowest index that bears the name and is accepted, or
nothing where there is none. -/
def FirstAccepted (table : SymbolTable w) (hashtab : ElfGnuHash w) (info : SymbolInfo) :
    Option (SymRef w) → Prop
  | some ref => hashtab.Hashed table ref.idx ∧ table.symtab[ref.idx]? = some ref.sym ∧
      table.Accepts info ref.idx ∧ ∀ j < ref.idx, hashtab.Hashed table j → ¬ table.Accepts info j
  | none => ∀ j, hashtab.Hashed table j → ¬ table.Accepts info j

/-- Where a version is required, each covered symbol of the name up to the first
accepted one has a version record. -/
def HashedVersionSafe (table : SymbolTable w) (hashtab : ElfGnuHash w) (info : SymbolInfo) : Prop :=
  ∀ idx, hashtab.Hashed table idx → table.nameAt idx = .ok info.name →
    (∀ j < idx, hashtab.Hashed table j → ¬ table.Accepts info j) →
    info.version = none ∨ ∃ record, versionRecord table.version idx = some record

theorem acceptEntry_of_accepts {idx : Nat} (h : table.Accepts info idx) :
    ∃ sym, table.symbolAt idx = .ok sym ∧ table.acceptEntry info idx = .ok (some ⟨idx, sym⟩) := by
  obtain ⟨hname, hcheck⟩ := h
  obtain ⟨sym, hsym, haccept⟩ := acceptEntry_of_named hname
  refine ⟨sym, hsym, ?_⟩
  rw [haccept, hcheck]
  rfl

theorem acceptEntry_eq_none_iff_not_accepts {idx : Nat}
    (hreturns : ∃ r, table.acceptEntry info idx = .ok r) :
    table.acceptEntry info idx = .ok none ↔ ¬ table.Accepts info idx := by
  obtain ⟨r, hr⟩ := hreturns
  constructor
  · intro hnone haccepts
    obtain ⟨sym, -, hsome⟩ := acceptEntry_of_accepts haccepts
    rw [hsome] at hnone
    cases hnone
  · intro hnot
    cases r with
    | none => exact hr
    | some ref =>
        obtain ⟨-, -, hname, hcheck⟩ := acceptEntry_some hr
        exact absurd ⟨hname, hcheck⟩ hnot

theorem acceptEntry_returns_iff_record {idx : Nat} {name : Name}
    (hname : table.nameAt idx = .ok name) :
    (∃ r, table.acceptEntry info idx = .ok r) ↔
      (table.nameAt idx = .ok info.name →
        info.version = none ∨ ∃ record, versionRecord table.version idx = some record) := by
  have hiff : table.nameAt idx = .ok info.name ↔ name = info.name := by simp [hname]
  rw [hiff]
  cases hversion : info.version with
  | some req =>
      rw [acceptEntry_returns_iff hversion hname]
      simp
  | none =>
      refine iff_of_true ?_ (fun _ => .inl rfl)
      by_cases hsame : name = info.name
      · obtain ⟨sym, -, haccept⟩ := acceptEntry_of_named (hsame ▸ hname)
        exact ⟨_, by rw [haccept, hversion]; rfl⟩
      · exact ⟨none, acceptEntry_of_other hname hsame⟩

/-- In the ascending list of covered symbols the entries in front of one are the
covered symbols of smaller index. -/
theorem mem_before_iff {before after : List Nat} {idx : Nat}
    (h : table.hashedIndices hashtab = before ++ idx :: after) (j : Nat) :
    j ∈ before ↔ hashtab.Hashed table j ∧ j < idx := by
  have hsorted : (table.hashedIndices hashtab).Pairwise (· < ·) := List.pairwise_lt_range' ..
  rw [h, List.pairwise_append, List.pairwise_cons] at hsorted
  obtain ⟨-, ⟨hafter, -⟩, hbefore⟩ := hsorted
  rw [← mem_hashedIndices, h]
  constructor
  · intro hj
    exact ⟨by simp [hj], hbefore j hj idx (by simp)⟩
  · rintro ⟨hj, hlt⟩
    rcases List.mem_append.mp hj with hj | hj
    · exact hj
    · rcases List.mem_cons.mp hj with rfl | hj
      · exact absurd hlt (Nat.lt_irrefl _)
      · exact absurd (hafter j hj) (Nat.lt_asymm hlt)

theorem firstAccepted_of_findFirst {found : Option (SymRef w)}
    (h : findFirst (table.acceptEntry info) (table.hashedIndices hashtab) = .ok found) :
    table.FirstAccepted hashtab info found := by
  cases found with
  | none =>
      intro j hj
      have hnone := findFirst_eq_none_iff.mp h j (mem_hashedIndices.mpr hj)
      exact (acceptEntry_eq_none_iff_not_accepts ⟨_, hnone⟩).mp hnone
  | some ref =>
      obtain ⟨before, idx, after, hsplit, hbefore, haccept⟩ := findFirst_eq_some_iff.mp h
      obtain ⟨rfl, hsym, hname, hcheck⟩ := acceptEntry_some haccept
      refine ⟨mem_hashedIndices.mp (by simp [hsplit]), symbolAt_ok_iff.mp hsym, ⟨hname, hcheck⟩, ?_⟩
      intro j hlt hj
      have hnone := hbefore j ((mem_before_iff hsplit j).mpr ⟨hj, hlt⟩)
      exact (acceptEntry_eq_none_iff_not_accepts ⟨_, hnone⟩).mp hnone

theorem findFirst_hashed_returns_iff (hwf : hashtab.WellFormed table) :
    (∃ found, findFirst (table.acceptEntry info) (table.hashedIndices hashtab) = .ok found) ↔
      table.HashedVersionSafe hashtab info := by
  rw [findFirst_returns_iff_of (fun i => table.nameAt i = .ok info.name →
    info.version = none ∨ ∃ record, versionRecord table.version i = some record)
    (table.Accepts info)]
  · constructor
    · intro h idx hidx hname hlowest
      obtain ⟨before, after, hsplit⟩ := List.append_of_mem (mem_hashedIndices.mpr hidx)
      refine h before idx after hsplit (fun j hj => ?_) hname
      have hj' := (mem_before_iff hsplit j).mp hj
      exact hlowest j hj'.2 hj'.1
    · intro h before idx after hsplit hbefore hname
      refine h idx (mem_hashedIndices.mp (by simp [hsplit])) hname (fun j hlt hj => ?_)
      exact hbefore j ((mem_before_iff hsplit j).mpr ⟨hj, hlt⟩)
  · intro i hi
    obtain ⟨name, hname⟩ := hwf.names i (mem_hashedIndices.mp hi)
    exact acceptEntry_returns_iff_record hname
  · intro i hi hsafe
    obtain ⟨name, hname⟩ := hwf.names i (mem_hashedIndices.mp hi)
    exact acceptEntry_eq_none_iff_not_accepts ((acceptEntry_returns_iff_record hname).mpr hsafe)

/-- A lookup in a well-formed table answers with the first accepted symbol
exactly when every version it has to compare is there. -/
theorem gnu_lookup_first_accepted_iff [WordSize w] {pre : PreCompute w}
    (hwf : hashtab.WellFormed table) (hpre : pre.Sound info) :
    (∃ found, table.gnuLookup hashtab info pre = .ok found ∧
        table.FirstAccepted hashtab info found) ↔
      table.HashedVersionSafe hashtab info := by
  rw [gnuLookup_eq_findFirst hwf hpre, ← findFirst_hashed_returns_iff hwf]
  constructor
  · rintro ⟨found, hfound, -⟩
    exact ⟨found, hfound⟩
  · rintro ⟨found, hfound⟩
    exact ⟨found, hfound, firstAccepted_of_findFirst hfound⟩

end SymbolTable

end Table

/-! ## A table of one export -/

section OneExport

attribute [local instance] constantHasher

/-- The GNU hash table of a library that exports `f` alone. -/
def oneExportHash : ElfGnuHash 64 where
  nbucket := 1
  symbias := 1
  nbloom := 1
  nshift := 6
  blooms := [0x1000800]
  buckets := [1]
  chains := [0x2b60b]

def oneExport (version : Option ELFVersion) : SymbolTable 64 where
  hashtab := .gnu oneExportHash
  symtab := [⟨0, 0, 0, 0, 0, 0⟩, ⟨1, 0x100, 8, 0x12, 0, 1⟩]
  strtab := [0, 102, 0]
  version
  custom_unversioned := nofun

/-- The version data of a library with `f` in version `V1`. -/
def inV1 : ELFVersion where
  versionIds := [0, 2]
  versions := [none, none, some ⟨[86, 49], 0x591⟩]

theorem oneExport_hashed_iff (version : Option ELFVersion) (idx : Nat) :
    oneExportHash.Hashed (oneExport version) idx ↔ idx = 1 := by
  have hbias : oneExportHash.symbias.toNat = 1 := rfl
  have hlength : (oneExport version).symtab.length = 2 := rfl
  rw [ElfGnuHash.Hashed, hbias, hlength]
  omega

theorem oneExport_gnuHashAt (version : Option ELFVersion) :
    (oneExport version).gnuHashAt 1 = 0x2b60b := by
  have hname : (oneExport version).nameAt 1 = .ok [102] := rfl
  rw [ElfGnuHash.gnuHashAt_of_name hname]
  decide

theorem oneExport_wellFormed (version : Option ELFVersion) :
    oneExportHash.WellFormed (oneExport version) where
  nbloom := ⟨0, rfl⟩
  nbucket := by decide
  nshift := by decide
  bloomsLength := rfl
  names := by
    intro i hi
    rw [oneExport_hashed_iff] at hi
    exact ⟨[102], by rw [hi]; rfl⟩
  grouped := by
    intro i j k hi hk hij hjk _
    rw [oneExport_hashed_iff] at hi hk
    rw [show j = i by omega]
  buckets := by
    intro b hb
    have hzero : b = 0 := Nat.lt_one_iff.mp hb
    subst hzero
    refine ⟨1, rfl, .inr ⟨by decide, (oneExport_hashed_iff version _).mpr rfl,
      Nat.mod_one _, ?_⟩⟩
    intro i hi _
    rw [oneExport_hashed_iff] at hi
    exact Nat.le_of_eq hi.symm
  chains := by
    intro i hi
    rw [oneExport_hashed_iff] at hi
    subst hi
    rw [oneExport_gnuHashAt]
    refine ⟨0x2b60b, rfl, rfl, iff_of_true (by decide) fun hnext => ?_⟩
    rw [oneExport_hashed_iff] at hnext
    cases hnext
  blooms := by
    intro i hi
    rw [oneExport_hashed_iff] at hi
    subst hi
    rw [oneExport_gnuHashAt]
    exact ⟨0x1000800, rfl, by decide, by decide⟩

/-- A requirement for `f` in version `V1` stops in a library without versions. -/
theorem gnu_lookup_stops_without_versions :
    oneExportHash.WellFormed (oneExport none) ∧
      ¬ ∃ found, (oneExport none).gnuLookup oneExportHash requiresV1 (requiresV1.precompute 64) =
          .ok found ∧
        (oneExport none).FirstAccepted oneExportHash requiresV1 found := by
  refine ⟨oneExport_wellFormed none, ?_⟩
  rintro ⟨found, hfound, -⟩
  have hstop : (oneExport none).gnuLookup oneExportHash requiresV1 (requiresV1.precompute 64) =
      .error (.panic "called `Option::unwrap()` on a `None` value") := rfl
  rw [hstop] at hfound
  cases hfound

theorem gnu_lookup_finds_required_version :
    ∃ found, (oneExport (some inV1)).gnuLookup oneExportHash requiresV1 (requiresV1.precompute 64) =
        .ok found ∧
      (oneExport (some inV1)).FirstAccepted oneExportHash requiresV1 found := by
  refine (SymbolTable.gnu_lookup_first_accepted_iff (oneExport_wellFormed (some inV1))
    (precompute_sound requiresV1)).mpr ?_
  intro idx hidx _ _
  rw [oneExport_hashed_iff] at hidx
  subst hidx
  exact .inr ⟨_, rfl⟩

end OneExport

end ElfLoader
