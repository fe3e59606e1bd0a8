import ElfLoader.GenElf.Names
import ElfLoader.GenElf.Output

/-! # The symbol tables of a generated library, as the loader reads them

The symbol table is a sequence of records in the layout of the target, the hash
table one bucket whose chain visits every symbol behind the null symbol.
-/

namespace ElfLoader.GenElf

open ByteMemory Splice

/-! ## The tables in memory -/

/-- `size_of::<ElfSymbol>()`. -/
def symbolSize (w : Nat) : Nat := if w = 64 then 24 else 16

/-- A symbol as it stands in memory; the two word sizes order the fields
differently. -/
def readSymbol {w : Nat} (bytes : List UInt8) : ElfSymbol w where
  stName := field32 bytes 0
  stValue := fieldWord bytes (if w = 64 then 8 else 4)
  stSize := fieldWord bytes (if w = 64 then 16 else 8)
  stInfo := UInt8.ofNat (fieldNat bytes (if w = 64 then 4 else 12) 1)
  stOther := UInt8.ofNat (fieldNat bytes (if w = 64 then 5 else 13) 1)
  stShndx := field16 bytes (if w = 64 then 6 else 14)

/-- `ElfHash::parse`. -/
def parseHash (bytes : List UInt8) : ElfHash where
  nbucket := field32 bytes 0
  nchain := field32 bytes 4
  buckets := records (fun b => field32 b 0) 4 (bytes.drop 8) (field32 bytes 0).toNat
  chains := records (fun b => field32 b 0) 4 (bytes.drop (8 + 4 * (field32 bytes 0).toNat))
    (field32 bytes 4).toNat

/-- The symbol table the loader has of a library with a SysV hash table and no
version information. -/
def readTable (w : Nat) [CustomHasher] (hash dynsym dynstr : List UInt8) : SymbolTable w where
  hashtab := .elf (parseHash hash)
  symtab := records readSymbol (symbolSize w) dynsym (parseHash hash).nchain.toNat
  strtab := dynstr
  version := none
  custom_unversioned := nofun

/-! ## Symbols -/

section Symbols

/-- What the loader reads of a symbol. -/
def Symbol.elfSymbol (w : Nat) (sym : Symbol) : ElfSymbol w where
  stName := UInt32.ofBitVec sym.nameIdx
  stValue := BitVec.ofNat w sym.value
  stSize := BitVec.ofNat w sym.size
  stInfo := sym.info
  stOther := sym.other
  stShndx := UInt16.ofBitVec sym.shndx

/-- The fields of a symbol, in the order they are written. -/
def Symbol.fields (w : Nat) (sym : Symbol) : List (List UInt8) :=
  let addr (value : Nat) := leBytes (BitVec.ofNat w value)
  if w = 64 then
    [leBytes sym.nameIdx, leBytes sym.info.toBitVec, leBytes sym.other.toBitVec,
      leBytes sym.shndx, addr sym.value, addr sym.size]
  else
    [leBytes sym.nameIdx, addr sym.value, addr sym.size, leBytes sym.info.toBitVec,
      leBytes sym.other.toBitVec, leBytes sym.shndx]

theorem leBytes_byte (b : UInt8) : leBytes b.toBitVec = [b] := by
  have hbyte : UInt8.ofNat (b.toNat / 256 ^ 0) = b := by
    rw [Nat.pow_zero, Nat.div_one, UInt8.ofNat_toNat]
  exact congrArg (fun b => [b]) hbyte

theorem Symbol.write_eq (sym : Symbol) (arch : Arch) :
    sym.write arch.is64 = (sym.fields arch.bits).flatten := by
  have hwrite : ∀ is64, sym.write is64 = (sym.fields (if is64 then 64 else 32)).flatten := by
    intro is64
    unfold Symbol.write Symbol.fields
    cases is64 <;> simp [addrBytes, leBytes_byte]
  exact hwrite arch.is64

theorem Symbol.fields_length (sym : Symbol) {w : Nat} (hw : w = 64 ∨ w = 32) :
    (sym.fields w).flatten.length = symbolSize w := by
  rcases hw with rfl | rfl <;> simp [fields, symbolSize]

theorem field8_flatten {fields : List (List UInt8)} {k off : Nat} {b : UInt8}
    (rest : List UInt8) (hfield : fields[k]? = some (leBytes b.toBitVec))
    (hoff : off = start fields k) :
    UInt8.ofNat (fieldNat (fields.flatten ++ rest) off 1) = b := by
  have hnat : fieldNat (fields.flatten ++ rest) off 1 = b.toBitVec.toNat :=
    fieldNat_flatten rest hfield hoff rfl
  rw [hnat]
  exact UInt8.ofNat_toNat

theorem Symbol.readSymbol_fields (sym : Symbol) {w : Nat} (hw : w = 64 ∨ w = 32)
    (rest : List UInt8) : readSymbol ((sym.fields w).flatten ++ rest) = sym.elfSymbol w := by
  unfold readSymbol
  rcases hw with rfl | rfl
  · rw [field32_flatten (k := 0) rest rfl (by rfl), field8_flatten (k := 1) rest rfl (by rfl),
      field8_flatten (k := 2) rest rfl (by rfl), field16_flatten (k := 3) rest rfl (by rfl),
      fieldWord_flatten (k := 4) rest rfl (by rfl) rfl,
      fieldWord_flatten (k := 5) rest rfl (by rfl) rfl]
    rfl
  · rw [field32_flatten (k := 0) rest rfl (by rfl),
      fieldWord_flatten (k := 1) rest rfl (by rfl) rfl,
      fieldWord_flatten (k := 2) rest rfl (by rfl) rfl, field8_flatten (k := 3) rest rfl (by rfl),
      field8_flatten (k := 4) rest rfl (by rfl), field16_flatten (k := 5) rest rfl (by rfl)]
    rfl

end Symbols

/-! ## The hash table -/

section Hash

/-- The entry of the chain for the symbol at index `i`. -/
def nextIndex (len i : Nat) : Nat := if i = 0 ∨ i + 1 = len then 0 else i + 1

def word32 (value : Nat) : List UInt8 := leBytes (BitVec.ofNat 32 value)

theorem createHashtable_eq {symtab : SymTabMetadata} (hlen : 1 ≤ symtab.dynsym.length) :
    symtab.createHashtable = word32 1 ++ word32 symtab.dynsym.length ++
      (word32 (if 1 < symtab.dynsym.length then 1 else 0) ++
        ((List.range symtab.dynsym.length).map fun i =>
          word32 (nextIndex symtab.dynsym.length i)).flatten) := by
  obtain ⟨n, hn⟩ : ∃ n, symtab.dynsym.length = n + 1 := ⟨_, (Nat.sub_add_cancel hlen).symm⟩
  have htail : ((List.range (n + 1)).drop 1).flatMap
      (fun i => word32 (if i + 1 < n + 1 then i + 1 else 0)) =
        (((List.range (n + 1)).drop 1).map fun i => word32 (nextIndex (n + 1) i)).flatten := by
    rw [List.flatMap_def]
    congr 1
    apply List.map_congr_left
    intro i hi
    rw [List.range_succ_eq_map, List.drop_one, List.tail_cons] at hi
    obtain ⟨j, hj, rfl⟩ := List.mem_map.mp hi
    have hlt := List.mem_range.mp hj
    congr 1
    unfold nextIndex
    by_cases hlast : j + 1 + 1 = n + 1
    · rw [if_neg (by omega), if_pos (Or.inr hlast)]
    · rw [if_pos (by omega), if_neg (by omega)]
  have hmap : ((List.range (n + 1)).map fun i => word32 (nextIndex (n + 1) i)).flatten =
      word32 0 ++ ((List.range (n + 1)).drop 1).flatMap
        fun i => word32 (if i + 1 < n + 1 then i + 1 else 0) := by
    rw [htail, List.range_succ_eq_map]
    rfl
  unfold SymTabMetadata.createHashtable
  simp only [hn, hmap, List.append_assoc]
  rfl

theorem field32_word (value : Nat) (rest : List UInt8) :
    field32 (word32 value ++ rest) 0 = UInt32.ofNat value := by
  have hread : field32 ([word32 value].flatten ++ rest) 0 = UInt32.ofNat value :=
    field32_flatten (k := 0) (v := BitVec.ofNat 32 value) rest rfl rfl
  rwa [List.flatten_singleton] at hread

theorem word32_length (value : Nat) : (word32 value).length = 4 := leBytes_length _

/-- The hash table the loader parses. -/
theorem parseHash_createHashtable {symtab : SymTabMetadata} (hlen : 1 ≤ symtab.dynsym.length)
    (hsmall : symtab.dynsym.length < 2 ^ 32) :
    parseHash symtab.createHashtable =
      { nbucket := 1
        nchain := UInt32.ofNat symtab.dynsym.length
        buckets := [if 1 < symtab.dynsym.length then 1 else 0]
        chains := (List.range symtab.dynsym.length).map fun i =>
          UInt32.ofNat (nextIndex symtab.dynsym.length i) } := by
  rw [createHashtable_eq hlen]
  generalize hlast : ((List.range symtab.dynsym.length).map fun i =>
    word32 (nextIndex symtab.dynsym.length i)).flatten = chains
  generalize hfirst : (if 1 < symtab.dynsym.length then 1 else 0) = first
  have hnbucket : field32 (word32 1 ++ word32 symtab.dynsym.length ++ (word32 first ++ chains)) 0 =
      1 := by
    rw [List.append_assoc]
    exact field32_word 1 _
  have hnchain : field32 (word32 1 ++ word32 symtab.dynsym.length ++ (word32 first ++ chains)) 4 =
      UInt32.ofNat symtab.dynsym.length := by
    have hread : field32 ([word32 1, word32 symtab.dynsym.length].flatten ++
        (word32 first ++ chains)) 4 = UInt32.ofNat symtab.dynsym.length :=
      field32_flatten (k := 1) (v := BitVec.ofNat 32 symtab.dynsym.length) _ rfl rfl
    rwa [List.flatten_cons, List.flatten_singleton] at hread
  have hdrop : (word32 1 ++ word32 symtab.dynsym.length ++ (word32 first ++ chains)).drop 8 =
      word32 first ++ chains := List.drop_left' (by rw [List.length_append, word32_length]; rfl)
  have hchain : (word32 1 ++ word32 symtab.dynsym.length ++ (word32 first ++ chains)).drop 12 =
      chains := by
    rw [← List.append_assoc]
    exact List.drop_left' (by
      rw [List.length_append, List.length_append, word32_length, word32_length]
      rfl)
  unfold parseHash
  rw [hnbucket, hnchain]
  have hbuckets : records (fun b => field32 b 0) 4 (word32 first ++ chains) 1 =
      [UInt32.ofNat first] := by
    have hread := field32_word first chains
    exact congrArg (fun x => [x]) hread
  have hchains : records (fun b => field32 b 0) 4 chains symtab.dynsym.length =
      (List.range symtab.dynsym.length).map fun i =>
        UInt32.ofNat (nextIndex symtab.dynsym.length i) := by
    have hread : records (fun b => field32 b 0) 4
        ((List.range symtab.dynsym.length).map fun i =>
          word32 (nextIndex symtab.dynsym.length i)).flatten
        (List.range symtab.dynsym.length).length = _ :=
      records_map (List.range symtab.dynsym.length) (fun _ _ => word32_length _)
        (fun i rest => field32_word _ rest)
    rwa [hlast, List.length_range] at hread
  have hone : (1 : UInt32).toNat = 1 := rfl
  have hcount : (UInt32.ofNat symtab.dynsym.length).toNat = symtab.dynsym.length :=
    UInt32.toNat_ofNat_of_lt' hsmall
  have hbucket : UInt32.ofNat first = if 1 < symtab.dynsym.length then 1 else 0 := by
    rw [← hfirst]
    split <;> rfl
  rw [hone, hcount, hdrop, hchain, hbuckets, hchains, hbucket]

end Hash

/-! ## The chain -/

section Chain

/-- One bucket, whose chain visits all symbols but the first. -/
def oneChain (len : Nat) : ElfHash where
  nbucket := 1
  nchain := UInt32.ofNat len
  buckets := [if 1 < len then 1 else 0]
  chains := (List.range len).map fun i => UInt32.ofNat (nextIndex len i)

theorem oneChain_linked {len : Nat} (hsmall : len < 2 ^ 32) {i : Nat} (hi : 1 ≤ i)
    (hlt : i < len) : (oneChain len).Linked i (List.range' i (len - i)) := by
  obtain ⟨n, hn⟩ : ∃ n, len - i = n + 1 := ⟨len - i - 1, by omega⟩
  have hnext : (oneChain len).chains[i]? = some (UInt32.ofNat (nextIndex len i)) := by
    rw [oneChain, List.getElem?_map, List.getElem?_range hlt]
    rfl
  rw [hn, List.range'_succ]
  induction n generalizing i with
  | zero =>
      have hlast : nextIndex len i = 0 := if_pos (Or.inr (by omega))
      rw [hlast] at hnext
      exact .step (by omega) hnext .stop
  | succ n ih =>
      have hmore : nextIndex len i = i + 1 := if_neg (by omega)
      have htoNat : (UInt32.ofNat (nextIndex len i)).toNat = i + 1 := by
        rw [hmore]
        exact UInt32.toNat_ofNat_of_lt' (by
          change i + 1 < 2 ^ 32
          omega)
      have hrest := ih (i := i + 1) (by omega) (by omega) (by omega) (by
        rw [oneChain, List.getElem?_map, List.getElem?_range (by omega)]
        rfl)
      rw [← htoNat] at hrest
      refine .step (by omega) hnext ?_
      rw [List.range'_succ, ← htoNat]
      exact hrest

variable [CustomHasher] {w : Nat}

theorem readTable_eq {symtab symtab' : SymTabMetadata} (dynstr : List UInt8)
    (hlen : 1 ≤ symtab.dynsym.length) (hsmall : symtab.dynsym.length < 2 ^ 32)
    (hsame : symtab'.dynsym.length = symtab.dynsym.length) :
    (readTable symtab'.arch.bits symtab.createHashtable symtab'.writeDynsym dynstr).symtab =
        symtab'.dynsym.map (Symbol.elfSymbol symtab'.arch.bits) ∧
      parseHash symtab.createHashtable = oneChain symtab.dynsym.length := by
  have hbits := bits_cases symtab'.arch
  have hparse := parseHash_createHashtable hlen hsmall
  refine ⟨?_, hparse⟩
  have hcount : (UInt32.ofNat symtab.dynsym.length).toNat = symtab'.dynsym.length := by
    rw [hsame]
    exact UInt32.toNat_ofNat_of_lt' hsmall
  have hbytes : symtab'.writeDynsym =
      (symtab'.dynsym.map fun sym => (sym.fields symtab'.arch.bits).flatten).flatten := by
    unfold SymTabMetadata.writeDynsym
    rw [List.flatMap_def]
    congr 1
    exact List.map_congr_left fun sym _ => sym.write_eq symtab'.arch
  unfold readTable
  dsimp only
  rw [hparse, hcount, hbytes]
  exact records_map symtab'.dynsym (fun sym _ => sym.fields_length hbits)
    fun sym rest => sym.readSymbol_fields hbits rest

/-- A table whose hash table is the one chain. -/
theorem oneChain_wellFormed (table : SymbolTable w) (hsmall : table.symtab.length < 2 ^ 32)
    (hnames : ∀ i, 1 ≤ i → i < table.symtab.length → ∃ name, table.nameAt i = .ok name) :
    (oneChain table.symtab.length).WellFormed table where
  nbucket := Nat.le_refl _
  chainsLength := by rw [oneChain, List.length_map, List.length_range]
  names := hnames
  buckets := by
    intro b hb
    obtain rfl : b = 0 := Nat.lt_one_iff.mp hb
    by_cases hmany : 1 < table.symtab.length
    · refine ⟨1, List.range' 1 (table.symtab.length - 1), ?_,
        oneChain_linked hsmall (Nat.le_refl 1) hmany, fun i name hi hname _ => ?_⟩
      · rw [oneChain]
        simp [hmany]
      · obtain ⟨sym, hsym, -⟩ := Exec.except_bind_ok_iff.mp hname
        have hlt := (List.getElem?_eq_some_iff.mp (SymbolTable.symbolAt_ok_iff.mp hsym)).1
        rw [List.mem_range']
        exact ⟨i - 1, by omega, by omega⟩
    · refine ⟨0, [], ?_, .stop, fun i name hi hname _ => ?_⟩
      · rw [oneChain]
        simp [hmany]
      · obtain ⟨sym, hsym, -⟩ := Exec.except_bind_ok_iff.mp hname
        have hlt := (List.getElem?_eq_some_iff.mp (SymbolTable.symbolAt_ok_iff.mp hsym)).1
        omega

end Chain

end ElfLoader.GenElf
