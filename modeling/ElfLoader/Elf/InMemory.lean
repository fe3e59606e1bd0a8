import ElfLoader.Elf.CountSyms
import ElfLoader.Elf.DynamicSection
import ElfLoader.Elf.Header
import ElfLoader.Elf.VersionTable
import ElfLoader.Library.Partly

/-! # Symbol tables in memory (`parse`, `SymbolTable::from_dynamic`)

A table is a pointer, and nothing in the record of a module says where it ends. What
can be read through the pointer is everything behind it, up to the end of the
reservation of the module. An answer that a table gives does not depend on what
stands behind its last entry.
-/

namespace ElfLoader

open ByteMemory

variable {w : Nat}

/-! ## Parsing -/

/-- What is behind a pointer into the reservation. -/
def ElfSegments.behind (segs : ElfSegments w) (m : Bytes w) (ptr : BitVec w) : List UInt8 :=
  read m ptr (segs.len.toNat - (ptr - segs.memory).toNat)

/-- The entries that `ptr.add(i).read()` can reach. -/
def entries {R : Type} (ofBytes : List UInt8 → R) (size : Nat) (bytes : List UInt8) : List R :=
  records ofBytes size bytes (bytes.length / size)

def words32 (bytes : List UInt8) : List UInt32 := entries (fun bytes => field32 bytes 0) 4 bytes

/-- `size_of::<ElfSymbol>()`. -/
def ElfSymbol.byteSize (w : Nat) : Nat := if w = 64 then 24 else 16

/-- `*const ElfSymbol`, read. The two word sizes order the fields differently. -/
def ElfSymbol.readFrom (bytes : List UInt8) : ElfSymbol w where
  stName := field32 bytes 0
  stValue := fieldWord bytes (if w = 64 then 8 else 4)
  stSize := fieldWord bytes (if w = 64 then 16 else 8)
  stInfo := UInt8.ofNat (fieldNat bytes (if w = 64 then 4 else 12) 1)
  stOther := UInt8.ofNat (fieldNat bytes (if w = 64 then 5 else 13) 1)
  stShndx := field16 bytes (if w = 64 then 6 else 14)

/-- `ElfGnuHash::parse`. The sizes are products of `usize`. -/
def ElfGnuHash.parse (bytes : List UInt8) : Except Halt (ElfGnuHash w) :=
  if bytes.length < 16 then .error .fault
  else
    let nbucket := field32 bytes 0
    let nbloom := field32 bytes 8
    let bloomSize := nbloom.toNat * (w / 8) % 2 ^ w
    let bucketSize := nbucket.toNat * 4 % 2 ^ w
    .ok {
      nbucket
      symbias := field32 bytes 4
      nbloom
      nshift := field32 bytes 12
      blooms := entries (fun bytes => fieldWord bytes 0) (w / 8) (bytes.drop 16)
      buckets := words32 (bytes.drop (16 + bloomSize))
      chains := words32 (bytes.drop (16 + bloomSize + bucketSize)) }

/-- `ElfHash::parse`. -/
def ElfHash.parse (w : Nat) (bytes : List UInt8) : Except Halt ElfHash :=
  if bytes.length < 8 then .error .fault
  else
    let nbucket := field32 bytes 0
    let bucketSize := nbucket.toNat * 4 % 2 ^ w
    .ok {
      nbucket
      nchain := field32 bytes 4
      buckets := words32 (bytes.drop 8)
      chains := words32 (bytes.drop (8 + bucketSize)) }

section Tables

variable [CustomHasher]

/-- The pointer of a hash table. -/
def HashTabAddr.addr : HashTabAddr w → BitVec w
  | .gnu off => off
  | .elf off => off

/-- The parsing in `HashTable::from_dynamic`, of what is behind the pointer. -/
def ElfDynamicHashTab.parse (kind : HashTabAddr w) (bytes : List UInt8) :
    Except Halt (ElfDynamicHashTab w) :=
  match kind with
  | .gnu _ => (ElfGnuHash.parse bytes).map .gnu
  | .elf _ => (ElfHash.parse w bytes).map .elf

/-- The bytes of the tables of a dynamic image. -/
structure DynamicSections where
  hash : List UInt8
  symtab : List UInt8
  strtab : List UInt8
  versym : List UInt8

/-- What the pointers of a dynamic section reach. -/
def DynamicSections.behind (m : Bytes w) (segs : ElfSegments w) (dynamic : ElfDynamic w) :
    DynamicSections where
  hash := segs.behind m dynamic.hashtab.addr
  symtab := segs.behind m dynamic.symtab
  strtab := segs.behind m dynamic.strtab
  versym := (dynamic.versionIdx.map (segs.behind m)).getD []

/-- The tables of `SymbolTable::from_dynamic` that have no header. -/
def DynamicSymbols.parse (m : Bytes w) (dynamic : ElfDynamic w) (secs : DynamicSections) :
    Except Halt (DynamicSymbols w) := do
  let versionIds := dynamic.versionIdx.map fun _ =>
    entries (fun bytes => field16 bytes 0) 2 secs.versym
  let counted (table : BitVec w × BitVec w) := (table.1, table.2.toNat)
  let version ← ELFVersion.new m versionIds (dynamic.verneed.map counted)
    (dynamic.verdef.map counted) secs.strtab
  return {
    symtab := entries ElfSymbol.readFrom (ElfSymbol.byteSize w) secs.symtab
    strtab := secs.strtab
    version }

namespace SymbolTable

/-- `SymbolTable::from_dynamic`, over the bytes of the tables. -/
def ofSections (m : Bytes w) (dynamic : ElfDynamic w) (secs : DynamicSections) :
    Except Halt (SymbolTable w) := do
  let hashtab ← ElfDynamicHashTab.parse dynamic.hashtab secs.hash
  let symbols ← DynamicSymbols.parse m dynamic secs
  return fromDynamic symbols hashtab

/-- `SymbolTable::from_dynamic`. -/
def parse (m : Bytes w) (segs : ElfSegments w) (dynamic : ElfDynamic w) :
    Except Halt (SymbolTable w) :=
  ofSections m dynamic (.behind m segs dynamic)

end SymbolTable

end Tables

/-! ## Entries of a table that goes on -/

section Entries

variable {R : Type} {ofBytes : List UInt8 → R} {size : Nat} {bytes bytes' : List UInt8}

/-- The record is in the first `size` bytes. -/
def ReadsOnly (ofBytes : List UInt8 → R) (size : Nat) : Prop :=
  ∀ bytes rest : List UInt8, size ≤ bytes.length → ofBytes (bytes ++ rest) = ofBytes bytes

theorem entries_getElem? (k : Nat) :
    (entries ofBytes size bytes)[k]? =
      if k < bytes.length / size then some (ofBytes (bytes.drop (k * size))) else none := by
  unfold entries records
  rw [List.getElem?_map]
  split
  · rename_i hk
    rw [List.getElem?_range hk]
    rfl
  · rename_i hk
    rw [List.getElem?_eq_none (by rw [List.length_range]; omega)]
    rfl

theorem entries_isPrefix (hreads : ReadsOnly ofBytes size) (h : bytes <+: bytes') :
    entries ofBytes size bytes <+: entries ofBytes size bytes' := by
  obtain ⟨rest, rfl⟩ := h
  have hlen : bytes.length / size ≤ (bytes ++ rest).length / size := by
    refine Nat.div_le_div_right ?_
    rw [List.length_append]
    omega
  rw [List.prefix_iff_eq_take]
  refine List.ext_getElem? fun k => ?_
  have hcount : (entries ofBytes size bytes).length = bytes.length / size := by
    rw [entries, records, List.length_map, List.length_range]
  rw [hcount, List.getElem?_take, entries_getElem?, entries_getElem?]
  by_cases hk : k < bytes.length / size
  · rw [if_pos hk, if_pos hk, if_pos (by omega)]
    have hroom : (k + 1) * size ≤ bytes.length :=
      (Nat.mul_le_mul_right size hk).trans (Nat.div_mul_le_self _ _)
    rw [Nat.succ_mul] at hroom
    rw [List.drop_append_of_le_length (by omega), hreads]
    rw [List.length_drop]
    omega
  · rw [if_neg hk, if_neg hk]

theorem drop_isPrefix {A : Type} {l l' : List A} (h : l <+: l') (k : Nat) :
    l.drop k <+: l'.drop k := by
  obtain ⟨rest, rfl⟩ := h
  exact ⟨rest.drop (k - l.length), List.drop_append.symm⟩

theorem fieldNat_append {off len : Nat} (rest : List UInt8) (h : off + len ≤ bytes.length) :
    fieldNat (bytes ++ rest) off len = fieldNat bytes off len := by
  unfold fieldNat
  rw [List.drop_append_of_le_length (by omega),
    List.take_append_of_le_length (by rw [List.length_drop]; omega)]

theorem field16_append {off : Nat} (rest : List UInt8) (h : off + 2 ≤ bytes.length) :
    field16 (bytes ++ rest) off = field16 bytes off := by
  rw [field16, field16, fieldNat_append rest h]

theorem field32_append {off : Nat} (rest : List UInt8) (h : off + 4 ≤ bytes.length) :
    field32 (bytes ++ rest) off = field32 bytes off := by
  rw [field32, field32, fieldNat_append rest h]

theorem fieldWord_append {off : Nat} (rest : List UInt8) (h : off + w / 8 ≤ bytes.length) :
    (fieldWord (bytes ++ rest) off : BitVec w) = fieldWord bytes off := by
  rw [fieldWord, fieldWord, fieldNat_append rest h]

theorem readsOnly_field16 : ReadsOnly (fun bytes => field16 bytes 0) 2 := fun _ rest h =>
  field16_append rest (by omega)

theorem readsOnly_field32 : ReadsOnly (fun bytes => field32 bytes 0) 4 := fun _ rest h =>
  field32_append rest (by omega)

theorem readsOnly_fieldWord : ReadsOnly (fun bytes => (fieldWord bytes 0 : BitVec w)) (w / 8) :=
  fun _ rest h => fieldWord_append rest (by omega)

theorem words32_isPrefix (h : bytes <+: bytes') : words32 bytes <+: words32 bytes' :=
  entries_isPrefix readsOnly_field32 h

theorem ElfSymbol.readsOnly_readFrom (hw : w = 64 ∨ w = 32) :
    ReadsOnly (ElfSymbol.readFrom (w := w)) (ElfSymbol.byteSize w) := by
  intro bytes rest h
  unfold ElfSymbol.byteSize at h
  rcases hw with rfl | rfl
  · rw [if_pos rfl] at h
    unfold ElfSymbol.readFrom
    simp only [if_pos]
    rw [field32_append rest (by omega), fieldWord_append rest (by omega),
      fieldWord_append rest (by omega), fieldNat_append rest (by omega),
      fieldNat_append rest (by omega), field16_append rest (by omega)]
  · rw [if_neg (by omega)] at h
    unfold ElfSymbol.readFrom
    simp only [show ¬ (32 = 64) by omega, if_false]
    rw [field32_append rest (by omega), fieldWord_append rest (by omega),
      fieldWord_append rest (by omega), fieldNat_append rest (by omega),
      fieldNat_append rest (by omega), field16_append rest (by omega)]

end Entries

/-! ## Answers of a table that goes on -/

open Partly

/-- The call left a table, or it ran in circles. -/
def Halt.Lost (h : Halt) : Prop := h = .fault ∨ h = .diverge

theorem Halt.lost_fault : Halt.Lost .fault := .inl rfl

theorem getStr_agrees {strtab strtab' : List UInt8} (h : strtab <+: strtab') (offset : Nat) :
    Agrees Halt.Lost (getStr strtab offset) (getStr strtab' offset) := by
  unfold getStr
  by_cases hend : 0 ∈ strtab.drop offset
  · obtain ⟨rest, hrest⟩ := drop_isPrefix h offset
    rw [if_pos hend, ← hrest, if_pos (List.mem_append_left _ hend), List.takeWhile_append,
      if_neg fun hall => ?_]
    · exact .refl _
    · have hself := (List.takeWhile_prefix fun x : UInt8 => decide (x ≠ 0)).eq_of_length hall
      have hnonzero := List.all_eq_true.mp (List.all_takeWhile (l := strtab.drop offset)) 0
        (hself.symm ▸ hend)
      exact of_decide_eq_true hnonzero rfl
  · rw [if_neg hend]
    exact .of_lost Halt.lost_fault _

/-- The same versions, with `DT_VERSYM` entries that go on. -/
inductive VersionGoesOn : Option ELFVersion → Option ELFVersion → Prop
  | none : VersionGoesOn none none
  | some {versionIds versionIds' : List UInt16} (versions : List (Option Version))
      (h : versionIds <+: versionIds') :
      VersionGoesOn (some ⟨versionIds, versions⟩) (some ⟨versionIds', versions⟩)

theorem versionId_agrees {versionIds versionIds' : List UInt16} (h : versionIds <+: versionIds')
    (versions : List (Option Version)) (idx : Nat) :
    Agrees Halt.Lost (ELFVersion.versionId ⟨versionIds, versions⟩ idx)
      (ELFVersion.versionId ⟨versionIds', versions⟩ idx) := by
  unfold ELFVersion.versionId
  dsimp only
  rcases getElem?_cases h idx with hi | ⟨ndx, hi, hi'⟩
  · rw [hi]
    exact .of_lost Halt.lost_fault _
  · rw [hi, hi']
    exact .refl _

theorem getRequirement_agrees {version version' : Option ELFVersion}
    (h : VersionGoesOn version version') (idx : Nat) :
    Agrees Halt.Lost (getRequirement version idx) (getRequirement version' idx) := by
  cases h with
  | none => exact .refl _
  | some versions hids =>
      exact (versionId_agrees hids versions idx).bind fun _ _ => .refl _

theorem checkMatch_agrees {version version' : Option ELFVersion}
    (h : VersionGoesOn version version') (idx : Nat) (req : Option SymbolVersion) :
    Agrees Halt.Lost (checkMatch version idx req) (checkMatch version' idx req) := by
  cases req with
  | none => exact .refl _
  | some req =>
      cases h with
      | none => exact .refl _
      | some versions hids =>
          exact (versionId_agrees hids versions idx).bind fun _ _ => .refl _

/-- Storing the version names: the names are read from the strings. -/
theorem ELFVersion.store_agrees {strtab strtab' : List UInt8} (h : strtab <+: strtab')
    (versions : List (Option Version)) (index : Nat) (nameOff hash : UInt32) :
    Agrees Halt.Lost (store strtab versions index nameOff hash)
      (store strtab' versions index nameOff hash) :=
  (getStr_agrees h _).bind fun _ _ => .refl _

/-- `ELFVersion::new` over strings and `DT_VERSYM` entries that go on. -/
theorem ELFVersion.new_goesOn {m : Bytes w} {ids ids' : Option (List UInt16)}
    {verneeds verdefs : Option (BitVec w × Nat)} {strtab strtab' : List UInt8}
    (hids : Option.Rel (· <+: ·) ids ids') (hstr : strtab <+: strtab') {version : Option ELFVersion}
    (h : new m ids verneeds verdefs strtab = .ok version) :
    ∃ version', new m ids' verneeds verdefs strtab' = .ok version' ∧
      VersionGoesOn version version' := by
  cases hids with
  | none =>
      cases h
      exact ⟨none, rfl, .none⟩
  | @some ids ids' hids =>
      unfold new at h ⊢
      simp only [Exec.except_bind_ok_iff] at h
      obtain ⟨defs, hdefs, needs, hneeds, hret⟩ := h
      cases hret
      have hdef : ∀ versions entry, Agrees Halt.Lost (storeDef strtab versions entry)
          (storeDef strtab' versions entry) := by
        rintro versions ⟨verdef, auxes⟩
        cases auxes with
        | nil => exact .refl _
        | cons aux auxes => exact store_agrees hstr versions _ _ _
      have hneed : ∀ versions (entry : VerNeed × List VerNeedAux),
          Agrees Halt.Lost (entry.2.foldlM (storeNeed strtab) versions)
            (entry.2.foldlM (storeNeed strtab') versions) := fun versions entry =>
        .foldlM (fun aux _ versions => store_agrees hstr versions _ _ _) versions
      have hdefs' := (Agrees.foldlM (fun entry _ versions => hdef versions entry) _).ok hdefs
      have hneeds' := (Agrees.foldlM (fun entry _ versions => hneed versions entry) _).ok hneeds
      refine ⟨some ⟨ids', needs⟩, ?_, .some needs hids⟩
      dsimp only
      rw [hdefs']
      dsimp only [bind, Except.bind]
      rw [hneeds']
      rfl

/-- The end of a chain that goes on. -/
theorem chainEnd_agrees {chain chain' : List UInt32} (hchain : chain <+: chain') (nsym : Nat) :
    Agrees Halt.Lost (ElfGnuHash.chainEnd chain nsym) (ElfGnuHash.chainEnd chain' nsym) := by
  induction chain generalizing chain' nsym with
  | nil => exact .of_lost Halt.lost_fault _
  | cons val chain ih =>
      obtain ⟨rest, rfl⟩ := hchain
      rw [List.cons_append]
      unfold ElfGnuHash.chainEnd
      split
      · exact ih ⟨rest, rfl⟩ (nsym + 1)
      · exact .refl _

section Tables

variable [CustomHasher]

/-- The same hash table over lists that go on. -/
inductive HashTable.GoesOn : HashTable w → HashTable w → Prop
  | gnu {t t' : ElfGnuHash w} (hnbucket : t'.nbucket = t.nbucket) (hsymbias : t'.symbias = t.symbias)
      (hnbloom : t'.nbloom = t.nbloom) (hnshift : t'.nshift = t.nshift)
      (hblooms : t.blooms <+: t'.blooms) (hbuckets : t.buckets <+: t'.buckets)
      (hchains : t.chains <+: t'.chains) : GoesOn (.gnu t) (.gnu t')
  | elf {t t' : ElfHash} (hnbucket : t'.nbucket = t.nbucket) (hnchain : t'.nchain = t.nchain)
      (hbuckets : t.buckets <+: t'.buckets) (hchains : t.chains <+: t'.chains) :
      GoesOn (.elf t) (.elf t')

/-- The same symbol table over lists that go on. -/
structure SymbolTable.GoesOn (t t' : SymbolTable w) : Prop where
  hashtab : t.hashtab.GoesOn t'.hashtab
  symtab : t.symtab <+: t'.symtab
  strtab : t.strtab <+: t'.strtab
  version : VersionGoesOn t.version t'.version

namespace SymbolTable.GoesOn

variable {t t' : SymbolTable w}

theorem symbolAt (h : t.GoesOn t') (idx : Nat) :
    Agrees Halt.Lost (t.symbolAt idx) (t'.symbolAt idx) := by
  unfold SymbolTable.symbolAt
  rcases getElem?_cases h.symtab idx with hi | ⟨sym, hi, hi'⟩
  · rw [hi]
    exact .of_lost Halt.lost_fault _
  · rw [hi, hi']
    exact .refl _

theorem symbolIdx (h : t.GoesOn t') (idx : Nat) :
    Agrees Halt.Lost (t.symbolIdx idx) (t'.symbolIdx idx) :=
  (h.symbolAt idx).bind fun _ _ => (getStr_agrees h.strtab _).bind fun _ _ =>
    (getRequirement_agrees h.version idx).bind fun _ _ => .refl _

theorem acceptEntry (h : t.GoesOn t') (info : SymbolInfo) (idx : Nat) :
    Agrees Halt.Lost (t.acceptEntry info idx) (t'.acceptEntry info idx) := by
  refine (h.symbolAt idx).bind fun sym _ => (getStr_agrees h.strtab _).bind fun name _ => ?_
  split
  · exact (checkMatch_agrees h.version idx info.version).bind fun _ _ => .refl _
  · exact .refl _

/-- The walk along a chain, which goes on behind the part that is seen. -/
theorem gnuWalk (h : t.GoesOn t') (info : SymbolInfo) (hash : UInt32) {chain chain' : List UInt32}
    (hchain : chain <+: chain') (idx : Nat) :
    Agrees Halt.Lost (t.gnuWalk info hash chain idx) (t'.gnuWalk info hash chain' idx) := by
  induction chain generalizing chain' idx with
  | nil => exact .of_lost Halt.lost_fault _
  | cons chainHash chain ih =>
      obtain ⟨rest, rfl⟩ := hchain
      unfold SymbolTable.gnuWalk
      refine Agrees.bind (x := if hash ||| 1 = chainHash ||| 1 then _ else _) ?_ fun found _ => ?_
      · split
        · exact h.acceptEntry info idx
        · exact .refl _
      · cases found with
        | some sym => exact .refl _
        | none =>
            dsimp only
            split
            · exact .refl _
            · exact ih ⟨rest, rfl⟩ (idx + 1)

/-- The walk along a linked chain; more fuel is needed only where it ran out. -/
theorem elfWalk (h : t.GoesOn t') {hashtab hashtab' : ElfHash} (info : SymbolInfo)
    (hchains : hashtab.chains <+: hashtab'.chains) {fuel fuel' : Nat} (hfuel : fuel ≤ fuel')
    (idx : Nat) :
    Agrees Halt.Lost (t.elfWalk hashtab info fuel idx) (t'.elfWalk hashtab' info fuel' idx) := by
  induction fuel generalizing fuel' idx with
  | zero => exact .of_lost (.inr rfl) _
  | succ fuel ih =>
      obtain ⟨fuel', rfl⟩ : ∃ n, fuel' = n + 1 := ⟨fuel' - 1, by omega⟩
      unfold SymbolTable.elfWalk
      split
      · exact .refl _
      · refine (h.acceptEntry info idx).bind fun found _ => ?_
        cases found with
        | some sym => exact .refl _
        | none =>
            dsimp only
            rcases getElem?_cases hchains idx with hi | ⟨next, hi, hi'⟩
            · rw [hi]
              exact .of_lost Halt.lost_fault _
            · rw [hi, hi']
              exact ih (by omega) next.toNat

theorem gnuLookup (h : t.GoesOn t') {hashtab hashtab' : ElfGnuHash w}
    (hhash : HashTable.GoesOn (.gnu hashtab) (.gnu hashtab')) (info : SymbolInfo)
    (pre : PreCompute w) :
    Agrees Halt.Lost (t.gnuLookup hashtab info pre) (t'.gnuLookup hashtab' info pre) := by
  cases hhash with
  | gnu hnbucket hsymbias hnbloom hnshift hblooms hbuckets hchains =>
      have hstart : Agrees Halt.Lost (hashtab.chainStart pre) (hashtab'.chainStart pre) := by
        unfold ElfGnuHash.chainStart
        rw [hnbucket, hnbloom, hnshift]
        rcases getElem?_cases hblooms (pre.fofs &&& (hashtab.nbloom - 1).toNat) with
          hi | ⟨filter, hi, hi'⟩
        · rw [hi]
          exact .of_lost Halt.lost_fault _
        · rw [hi, hi']
          dsimp only
          split
          · exact .refl _
          · split
            · exact .refl _
            · split
              · exact .refl _
              · rcases getElem?_cases hbuckets (pre.gnuhash.toNat % hashtab.nbucket.toNat) with
                  hi | ⟨start, hi, hi'⟩
                · rw [hi]
                  exact .of_lost Halt.lost_fault _
                · rw [hi, hi']
                  exact .refl _
      refine hstart.bind fun start _ => ?_
      cases start with
      | none => exact .refl _
      | some start =>
          dsimp only
          rw [hsymbias]
          split
          · exact .refl _
          · exact h.gnuWalk info _ (drop_isPrefix hchains _) start

theorem elfLookup (h : t.GoesOn t') {hashtab hashtab' : ElfHash}
    (hhash : HashTable.GoesOn (w := w) (.elf hashtab) (.elf hashtab')) (info : SymbolInfo)
    (hash : UInt32) :
    Agrees Halt.Lost (t.elfLookup hashtab info hash) (t'.elfLookup hashtab' info hash) := by
  cases hhash with
  | elf hnbucket hnchain hbuckets hchains =>
      have hstart : Agrees Halt.Lost (hashtab.chainStart hash) (hashtab'.chainStart hash) := by
        unfold ElfHash.chainStart
        rw [hnbucket]
        split
        · exact .refl _
        · rcases getElem?_cases hbuckets (hash.toNat % hashtab.nbucket.toNat) with
            hi | ⟨start, hi, hi'⟩
          · rw [hi]
            exact .of_lost Halt.lost_fault _
          · rw [hi, hi']
            exact .refl _
      refine hstart.bind fun start _ => h.elfWalk info hchains ?_ start
      have hlen := hchains.length_le
      omega

theorem lookup (h : t.GoesOn t') (info : SymbolInfo) (pre : PreCompute w) :
    Agrees Halt.Lost (t.lookup info pre) (t'.lookup info pre) := by
  have hhash := h.hashtab
  unfold SymbolTable.lookup
  generalize t.hashtab = hashtab, t'.hashtab = hashtab' at hhash
  cases hhash with
  | gnu hnbucket hsymbias hnbloom hnshift hblooms hbuckets hchains =>
      exact (h.gnuLookup (.gnu hnbucket hsymbias hnbloom hnshift hblooms hbuckets hchains) info
        pre).bind fun _ _ => .refl _
  | elf hnbucket hnchain hbuckets hchains =>
      exact (h.elfLookup (.elf hnbucket hnchain hbuckets hchains) info _).bind fun _ _ => .refl _

theorem countSyms (h : t.GoesOn t') : Agrees Halt.Lost t.countSyms t'.countSyms := by
  have hhash := h.hashtab
  unfold SymbolTable.countSyms
  generalize t.hashtab = hashtab, t'.hashtab = hashtab' at hhash
  cases hhash with
  | @gnu g g' hnbucket hsymbias hnbloom hnshift hblooms hbuckets hchains =>
      unfold HashTable.countSyms ElfGnuHash.countSyms
      dsimp only
      rw [hnbucket, hsymbias]
      refine Agrees.bind (.foldlM (fun i _ nsym => ?_) 0) fun nsym _ => ?_
      · unfold ElfGnuHash.maxStep
        rcases getElem?_cases hbuckets i with hi | ⟨bucket, hi, hi'⟩
        · rw [hi]
          exact .of_lost Halt.lost_fault _
        · rw [hi, hi']
          exact .refl _
      · split
        · split
          · exact .refl _
          · exact (chainEnd_agrees (drop_isPrefix hchains _) nsym).bind fun _ _ => .refl _
        · exact .refl _
  | elf hnbucket hnchain hbuckets hchains =>
      unfold HashTable.countSyms ElfHash.countSyms
      dsimp only
      rw [hnchain]
      exact .refl _

theorem lookupFilter (h : t.GoesOn t') (info : SymbolInfo) (pre : PreCompute w) :
    Agrees Halt.Lost (t.lookupFilter info pre) (t'.lookupFilter info pre) :=
  (h.lookup info pre).bind fun _ _ => .refl _

end SymbolTable.GoesOn

/-! ## The tables of a module -/

theorem ElfHash.parse_goesOn {bytes bytes' : List UInt8} (h : bytes <+: bytes') {t : ElfHash}
    (hparse : ElfHash.parse w bytes = .ok t) :
    ∃ t', ElfHash.parse w bytes' = .ok t' ∧ HashTable.GoesOn (w := w) (.elf t) (.elf t') := by
  obtain ⟨rest, rfl⟩ := h
  unfold ElfHash.parse at hparse ⊢
  split at hparse
  · cases hparse
  · cases hparse
    have hfield : ∀ {off}, off + 4 ≤ 8 → field32 (bytes ++ rest) off = field32 bytes off :=
      fun hoff => field32_append rest (by omega)
    rw [if_neg (by rw [List.length_append]; omega), hfield (by omega)]
    exact ⟨_, rfl, .elf rfl (hfield (by omega)) (words32_isPrefix (drop_isPrefix ⟨rest, rfl⟩ _))
      (words32_isPrefix (drop_isPrefix ⟨rest, rfl⟩ _))⟩

theorem ElfGnuHash.parse_goesOn {bytes bytes' : List UInt8} (h : bytes <+: bytes')
    {t : ElfGnuHash w} (hparse : ElfGnuHash.parse bytes = .ok t) :
    ∃ t', ElfGnuHash.parse bytes' = .ok t' ∧ HashTable.GoesOn (.gnu t) (.gnu t') := by
  obtain ⟨rest, rfl⟩ := h
  unfold ElfGnuHash.parse at hparse ⊢
  split at hparse
  · cases hparse
  · cases hparse
    have hfield : ∀ off, off + 4 ≤ 16 → field32 (bytes ++ rest) off = field32 bytes off :=
      fun off hoff => field32_append rest (by omega)
    rw [if_neg (by rw [List.length_append]; omega), hfield 0 (by omega), hfield 8 (by omega)]
    exact ⟨_, rfl, .gnu rfl (hfield _ (by omega)) rfl (hfield _ (by omega))
      (entries_isPrefix readsOnly_fieldWord (drop_isPrefix ⟨rest, rfl⟩ _))
      (words32_isPrefix (drop_isPrefix ⟨rest, rfl⟩ _)) (words32_isPrefix (drop_isPrefix ⟨rest, rfl⟩ _))⟩

/-- The sections stand where the pointers lead. -/
structure DynamicSections.GoOn (secs secs' : DynamicSections) : Prop where
  hash : secs.hash <+: secs'.hash
  symtab : secs.symtab <+: secs'.symtab
  strtab : secs.strtab <+: secs'.strtab
  versym : secs.versym <+: secs'.versym

namespace SymbolTable

variable {m : Bytes w} {dynamic : ElfDynamic w} {secs secs' : DynamicSections} {t : SymbolTable w}

theorem hashtab_goesOn (h : secs.hash <+: secs'.hash) {hashtab : ElfDynamicHashTab w}
    (hparse : ElfDynamicHashTab.parse dynamic.hashtab secs.hash = .ok hashtab) :
    ∃ hashtab', ElfDynamicHashTab.parse dynamic.hashtab secs'.hash = .ok hashtab' ∧
      (HashTable.fromDynamic hashtab).GoesOn (.fromDynamic hashtab') := by
  unfold ElfDynamicHashTab.parse at hparse ⊢
  cases hkind : dynamic.hashtab with
  | gnu off =>
      rw [hkind] at hparse
      obtain ⟨gnu, hgnu, rfl⟩ := Exec.except_map_ok_iff.mp hparse
      obtain ⟨gnu', hgnu', hgoes⟩ := ElfGnuHash.parse_goesOn h hgnu
      exact ⟨.gnu gnu', Exec.except_map_ok_iff.mpr ⟨gnu', hgnu', rfl⟩, hgoes⟩
  | elf off =>
      rw [hkind] at hparse
      obtain ⟨elf, helf, rfl⟩ := Exec.except_map_ok_iff.mp hparse
      obtain ⟨elf', helf', hgoes⟩ := ElfHash.parse_goesOn (w := w) h helf
      exact ⟨.elf elf', Exec.except_map_ok_iff.mpr ⟨elf', helf', rfl⟩, hgoes⟩

/-- The table over sections that go on goes on. -/
theorem ofSections_goesOn (hw : w = 64 ∨ w = 32) (h : secs.GoOn secs')
    (hof : ofSections m dynamic secs = .ok t) :
    ∃ t', ofSections m dynamic secs' = .ok t' ∧ t.GoesOn t' := by
  unfold ofSections DynamicSymbols.parse at hof ⊢
  simp only [Exec.except_bind_ok_iff] at hof
  obtain ⟨hashtab, hhash, symbols, ⟨version, hversion, hsymbols⟩, ht⟩ := hof
  cases hsymbols
  cases ht
  obtain ⟨hashtab', hhash', hgoes⟩ := hashtab_goesOn h.hash hhash
  have hids : Option.Rel (· <+: ·)
      (dynamic.versionIdx.map fun _ => entries (fun bytes => field16 bytes 0) 2 secs.versym)
      (dynamic.versionIdx.map fun _ => entries (fun bytes => field16 bytes 0) 2 secs'.versym) := by
    cases dynamic.versionIdx with
    | none => exact .none
    | some ptr => exact .some (entries_isPrefix readsOnly_field16 h.versym)
  obtain ⟨version', hversion', hvers⟩ := ELFVersion.new_goesOn hids h.strtab hversion
  refine ⟨fromDynamic ⟨_, secs'.strtab, version'⟩ hashtab', ?_, hgoes,
    entries_isPrefix (ElfSymbol.readsOnly_readFrom hw) h.symtab, h.strtab, hvers⟩
  rw [hhash']
  dsimp only [bind, Except.bind]
  rw [hversion']
  rfl

/-- The tables of a module in memory answer what its sections answer: every lookup,
every symbol and the count, whatever stands behind the sections. -/
theorem parse_answers (hw : w = 64 ∨ w = 32) {segs : ElfSegments w}
    (hin : secs.GoOn (.behind m segs dynamic)) (hof : ofSections m dynamic secs = .ok t) :
    ∃ t', SymbolTable.parse m segs dynamic = .ok t' ∧
      (∀ info pre, Agrees Halt.Lost (t.lookupFilter info pre) (t'.lookupFilter info pre)) ∧
      (∀ name, Agrees Halt.Lost (t.lookupByName name) (t'.lookupByName name)) ∧
      (∀ idx, Agrees Halt.Lost (t.symbolIdx idx) (t'.symbolIdx idx)) ∧
      Agrees Halt.Lost t.countSyms t'.countSyms := by
  obtain ⟨t', hparse, hgoes⟩ := ofSections_goesOn hw hin hof
  refine ⟨t', hparse, hgoes.lookupFilter, fun name => ?_, hgoes.symbolIdx, hgoes.countSyms⟩
  exact (Agrees.refl (SymbolInfo.fromStr name none)).bind fun info _ =>
    (hgoes.lookup info _).bind fun _ _ => .refl _

end SymbolTable

end Tables

section Sample

attribute [local instance] constantHasher

/-- A SysV table of one bucket, the names at 20 and the two symbols at 24. The rest of
the reservation is zero. -/
def sysvBytes : List UInt8 :=
  [1, 0, 0, 0, 2, 0, 0, 0, 1, 0, 0, 0, 0, 0, 0, 0, 0, 0, 0, 0, 0, 102, 0, 0] ++
    List.replicate 24 0 ++
    [1, 0, 0, 0, 0x12, 0, 1, 0, 0, 9, 0, 0, 0, 0, 0, 0, 4, 0, 0, 0, 0, 0, 0, 0]

def sysvMemory : Bytes 64 := write (fun _ => 0) 0 sysvBytes

def sysvDynamic : ElfDynamic 64 where
  dynPtr := 0
  hashtab := .elf 0
  symtab := 24
  strtab := 20
  bindNow := false
  gotPlt := none
  initFn := none
  initArrayFn := none
  finiFn := none
  finiArrayFn := none
  pltrel := none
  dynrel := none
  relr := none
  relCount := none
  neededLibs := []
  versionIdx := none
  verneed := none
  verdef := none
  rpathOff := none
  runpathOff := none

/-- The sections without what stands behind them. -/
def sysvSections : DynamicSections where
  hash := sysvBytes.take 20
  symtab := sysvBytes.drop 24
  strtab := (sysvBytes.drop 20).take 3
  versym := []

theorem tables_in_memory :
    ∃ t t' : SymbolTable 64, SymbolTable.ofSections sysvMemory sysvDynamic sysvSections = .ok t ∧
      t.countSyms = .ok 2 ∧ (t.symbolIdx 1).isOk ∧
      SymbolTable.parse sysvMemory ⟨0, 0, 100⟩ sysvDynamic = .ok t' ∧
      ∀ name, Agrees Halt.Lost (t.lookupByName name) (t'.lookupByName name) := by
  have hin : sysvSections.GoOn (.behind sysvMemory ⟨0, 0, 100⟩ sysvDynamic) := by
    constructor <;> decide +kernel
  obtain ⟨t', hparse, -, hlookup, -, -⟩ := SymbolTable.parse_answers (.inl rfl) hin rfl
  exact ⟨_, t', rfl, by decide +kernel, by decide +kernel, hparse, hlookup⟩

end Sample

end ElfLoader
