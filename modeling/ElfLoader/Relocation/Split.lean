import ElfLoader.Relocation.Tables
import ElfLoader.Os.Mmap

/-! # Overlapping relocation tables

`DT_JMPREL` may be the tail of the table that `DT_RELA` or `DT_REL` names, so an
entry is told apart by its address here. `DynamicRelocation::new` has to hand
every entry to exactly one of the three lists.
-/

namespace ElfLoader

open ByteMemory

variable {w : Nat}

/-- `size_of::<ElfRelType>()`. -/
def entrySize (arch : Arch w) : Nat := (if arch.inPlaceAddend then 2 else 3) * (w / 8)

namespace RelSlice

def entryAddr (arch : Arch w) (slice : RelSlice w) (idx : Nat) : BitVec w :=
  slice.ptr + BitVec.ofNat w (idx * entrySize arch)

/-- The addresses of the entries of a slice. -/
def entryAddrs (arch : Arch w) (slice : RelSlice w) : List (BitVec w) :=
  (List.range slice.rels.length).map (slice.entryAddr arch)

def byteLen (arch : Arch w) (slice : RelSlice w) : Nat := slice.rels.length * entrySize arch

/-- A slice lies in the address space, and so does the address behind it. -/
def InSpace (arch : Arch w) (slice : RelSlice w) : Prop :=
  slice.ptr.toNat + slice.byteLen arch < 2 ^ w

instance (arch : Arch w) (slice : RelSlice w) : Decidable (slice.InSpace arch) :=
  inferInstanceAs (Decidable (_ < _))

end RelSlice

namespace RelocTables

def slice (tables : RelocTables w) : RelTable → RelSlice w
  | .dyn => tables.dynrel.getD .empty
  | .plt => tables.pltrel.getD .empty

def addrOf (arch : Arch w) (tables : RelocTables w) (ref : RelRef w) : BitVec w :=
  (tables.slice ref.table).entryAddr arch ref.idx

/-- `DT_JMPREL` is the tail of the other table. -/
structure PltIsTail (arch : Arch w) (tables : RelocTables w) : Prop where
  length_le : (tables.slice .plt).rels.length ≤ (tables.slice .dyn).rels.length
  ptr_eq : (tables.slice .plt).ptr = (tables.slice .dyn).entryAddr arch
    ((tables.slice .dyn).rels.length - (tables.slice .plt).rels.length)
  rels_eq : (tables.slice .plt).rels = (tables.slice .dyn).rels.drop
    ((tables.slice .dyn).rels.length - (tables.slice .plt).rels.length)

/-- No byte belongs to both tables. -/
def Disjoint (arch : Arch w) (tables : RelocTables w) : Prop :=
  ∀ a, Within (tables.slice .dyn).ptr ((tables.slice .dyn).byteLen arch) a →
    ¬ Within (tables.slice .plt).ptr ((tables.slice .plt).byteLen arch) a

/-- The layouts linkers produce: two tables apart, or one covering the other. The
count of relative entries never reaches into `DT_JMPREL`. -/
inductive Layout (arch : Arch w) (tables : RelocTables w) : Prop where
  | disjoint (hdisjoint : tables.Disjoint arch)
      (hcount : tables.relCount.getD 0 ≤ (tables.slice .dyn).rels.length)
  | tail (htail : tables.PltIsTail arch)
      (hcount : tables.relCount.getD 0 + (tables.slice .plt).rels.length ≤
        (tables.slice .dyn).rels.length)

end RelocTables

namespace DynamicRelocation

/-- The entries the three lists hold. -/
def entries (reloc : DynamicRelocation w) : List (RelRef w) :=
  (match reloc.relative with
    | .rel rels => rels
    | .relr _ => []) ++ reloc.dynrel ++ reloc.pltrel

/-- Every entry of the two tables is in the lists, and in one place of them. -/
structure ExactlyOnce (arch : Arch w) (tables : RelocTables w) (reloc : DynamicRelocation w) :
    Prop where
  nodup : (reloc.entries.map (tables.addrOf arch)).Nodup
  complete : ∀ a, a ∈ reloc.entries.map (tables.addrOf arch) ↔
    a ∈ (tables.slice .dyn).entryAddrs arch ∨ a ∈ (tables.slice .plt).entryAddrs arch

end DynamicRelocation

section Addresses

variable {arch : Arch w} {tables : RelocTables w}

theorem RelSlice.refs_map_addrOf (table : RelTable) :
    ((tables.slice table).refs table).map (tables.addrOf arch) =
      (tables.slice table).entryAddrs arch := by
  apply List.ext_getElem?
  intro k
  rw [List.getElem?_map, RelSlice.refs_getElem?, RelSlice.entryAddrs, List.getElem?_map]
  by_cases hk : k < (tables.slice table).rels.length
  · simp [hk, RelocTables.addrOf]
  · simp [hk]

/-- The entries of the tail are the last entries of the whole table. -/
theorem RelocTables.PltIsTail.entryAddrs_eq (h : tables.PltIsTail arch) :
    (tables.slice .plt).entryAddrs arch =
      ((tables.slice .dyn).entryAddrs arch).drop
        ((tables.slice .dyn).rels.length - (tables.slice .plt).rels.length) := by
  have hle := h.length_le
  apply List.ext_getElem?
  intro k
  rw [List.getElem?_drop, RelSlice.entryAddrs, RelSlice.entryAddrs, List.getElem?_map,
    List.getElem?_map]
  by_cases hk : k < (tables.slice .plt).rels.length
  · rw [List.getElem?_range hk, List.getElem?_range (by omega)]
    simp only [Option.map_some, RelSlice.entryAddr, h.ptr_eq, Nat.add_mul, BitVec.ofNat_add,
      BitVec.add_assoc]
  · rw [List.getElem?_eq_none (by simpa using hk), List.getElem?_eq_none (by simp; omega)]
    rfl

theorem RelocTables.PltIsTail.endPtr_eq (h : tables.PltIsTail arch) :
    (tables.slice .dyn).endPtr arch = (tables.slice .plt).endPtr arch := by
  have hle := h.length_le
  have hplt : (tables.slice .plt).endPtr arch = (tables.slice .plt).ptr +
      BitVec.ofNat w ((tables.slice .plt).rels.length * entrySize arch) := rfl
  have hdyn : (tables.slice .dyn).endPtr arch = (tables.slice .dyn).ptr +
      BitVec.ofNat w ((tables.slice .dyn).rels.length * entrySize arch) := rfl
  rw [hplt, hdyn, h.ptr_eq, RelSlice.entryAddr, BitVec.add_assoc, ← BitVec.ofNat_add,
    ← Nat.add_mul, Nat.sub_add_cancel hle]

variable [WordSize w]

theorem entrySize_pos (arch : Arch w) : 0 < entrySize arch := by
  have hbytes : 0 < w / 8 := Nat.div_pos (Nat.le_trans (by omega) (WordSize.page_lt w)) (by omega)
  unfold entrySize
  split
  · omega
  · omega

/-- The offset of an entry, seen from the start of its slice. -/
theorem RelSlice.entryAddr_sub {slice : RelSlice w} (hspace : slice.InSpace arch) {idx : Nat}
    (hidx : idx < slice.rels.length) :
    (slice.entryAddr arch idx - slice.ptr).toNat = idx * entrySize arch := by
  have hlt : idx * entrySize arch < slice.byteLen arch :=
    (Nat.mul_lt_mul_right (entrySize_pos arch)).mpr hidx
  unfold RelSlice.InSpace at hspace
  exact add_ofNat_sub_toNat _ (by omega)

theorem RelSlice.entryAddrs_nodup {slice : RelSlice w} (hspace : slice.InSpace arch) :
    (slice.entryAddrs arch).Nodup := by
  refine List.Nodup.map_on ?_ List.nodup_range
  intro i hi j hj heq
  rw [List.mem_range] at hi hj
  have hdist := congrArg (fun a => (a - slice.ptr).toNat) heq
  simp only [RelSlice.entryAddr_sub hspace hi, RelSlice.entryAddr_sub hspace hj] at hdist
  exact Nat.eq_of_mul_eq_mul_right (entrySize_pos arch) hdist

theorem RelSlice.within_of_mem_entryAddrs {slice : RelSlice w} (hspace : slice.InSpace arch)
    {a : BitVec w} (ha : a ∈ slice.entryAddrs arch) : Within slice.ptr (slice.byteLen arch) a := by
  obtain ⟨idx, hidx, rfl⟩ := List.mem_map.mp ha
  rw [List.mem_range] at hidx
  rw [Within, RelSlice.entryAddr_sub hspace hidx]
  exact (Nat.mul_lt_mul_right (entrySize_pos arch)).mpr hidx

/-- The last byte of a table that has entries. -/
theorem RelSlice.within_endPtr {slice : RelSlice w} (hspace : slice.InSpace arch)
    (hne : slice.rels ≠ []) :
    Within slice.ptr (slice.byteLen arch) (slice.endPtr arch - 1#w) := by
  have hpos : 0 < slice.byteLen arch :=
    Nat.mul_pos (List.length_pos_iff.mpr hne) (entrySize_pos arch)
  unfold RelSlice.InSpace at hspace
  have hend : slice.endPtr arch - 1#w = slice.ptr + BitVec.ofNat w (slice.byteLen arch - 1) := by
    have hlen : slice.endPtr arch = slice.ptr + BitVec.ofNat w (slice.byteLen arch - 1 + 1) := by
      rw [Nat.sub_add_cancel hpos]
      rfl
    rw [hlen, BitVec.ofNat_add]
    grind
  rw [Within, hend, add_ofNat_sub_toNat _ (by omega)]
  omega

end Addresses

namespace DynamicRelocation

variable {arch : Arch w} {tables : RelocTables w}

/-- With a `DT_RELR` both tables are taken whole. -/
theorem new_of_relr (arch : Arch w) {relr : List (BitVec w)} (hrelr : tables.relr = some relr) :
    ∃ reloc, new arch tables = .ok reloc ∧
      reloc.entries.map (tables.addrOf arch) =
        (tables.slice .dyn).entryAddrs arch ++ (tables.slice .plt).entryAddrs arch := by
  refine ⟨_, by rw [new, hrelr], ?_⟩
  rw [entries, List.map_append]
  exact congrArg₂ _ (RelSlice.refs_map_addrOf .dyn) (RelSlice.refs_map_addrOf .plt)

/-- Without one the table is cut behind the counted entries, and the end of the
rest is left out where both tables end at one address. -/
theorem new_of_no_relr {reloc : DynamicRelocation w} (hrelr : tables.relr = none)
    (hnew : new arch tables = .ok reloc) :
    reloc.entries.map (tables.addrOf arch) =
      ((tables.slice .dyn).entryAddrs arch).take (tables.relCount.getD 0) ++
        (((tables.slice .dyn).entryAddrs arch).drop (tables.relCount.getD 0)).take
          (if (tables.slice .dyn).endPtr arch = (tables.slice .plt).endPtr arch then
            (tables.slice .dyn).rels.length - tables.relCount.getD 0 -
              (tables.slice .plt).rels.length
          else (tables.slice .dyn).rels.length - tables.relCount.getD 0) ++
        (tables.slice .plt).entryAddrs arch := by
  rw [← RelSlice.refs_map_addrOf .dyn, ← RelSlice.refs_map_addrOf .plt, ← List.map_take,
    ← List.map_drop, ← List.map_take, ← List.map_append, ← List.map_append]
  congr 1
  have hdyn : tables.slice .dyn = tables.dynrel.getD .empty := rfl
  have hplt : tables.slice .plt = tables.pltrel.getD .empty := rfl
  rw [hdyn, hplt]
  unfold new at hnew
  rw [hrelr] at hnew
  dsimp only at hnew
  rw [List.length_drop, RelSlice.refs_length] at hnew
  split at hnew
  · cases hnew
  by_cases hend : (tables.dynrel.getD .empty).endPtr arch = (tables.pltrel.getD .empty).endPtr arch
  · rw [if_pos hend] at hnew ⊢
    split at hnew
    · cases hnew
    · cases hnew
      rfl
  · rw [if_neg hend] at hnew ⊢
    cases hnew
    have htake : (((tables.dynrel.getD .empty).refs .dyn).drop (tables.relCount.getD 0)).take
        ((tables.dynrel.getD .empty).rels.length - tables.relCount.getD 0) =
        ((tables.dynrel.getD .empty).refs .dyn).drop (tables.relCount.getD 0) :=
      List.take_of_length_le (by rw [List.length_drop, RelSlice.refs_length])
    rw [htake]
    rfl

/-- An empty table stands exactly where a `DT_JMPREL` table with entries ends. -/
def EmptyAtEnd (arch : Arch w) (tables : RelocTables w) : Prop :=
  (tables.slice .dyn).rels = [] ∧ (tables.slice .plt).rels ≠ [] ∧
    (tables.slice .dyn).endPtr arch = (tables.slice .plt).endPtr arch

theorem not_new_of_emptyAtEnd (hrelr : tables.relr = none) (hempty : EmptyAtEnd arch tables)
    {reloc : DynamicRelocation w} : new arch tables ≠ .ok reloc := by
  intro hnew
  obtain ⟨hdyn, hplt, hend⟩ := hempty
  rcases (new_cases hnew).2 with ⟨relr, hsome, -⟩ | ⟨-, hfits, -⟩
  · rw [hrelr] at hsome
    cases hsome
  · have hle : (tables.slice .plt).rels.length ≤
        (tables.slice .dyn).rels.length - tables.relCount.getD 0 := hfits.2 hend
    have hpos := List.length_pos_iff.mpr hplt
    rw [hdyn, List.length_nil] at hle
    omega

/-- With a `DT_RELR` the entries of the tail are in two lists. -/
theorem not_exactlyOnce_of_relr {relr : List (BitVec w)} (hrelr : tables.relr = some relr)
    (htail : tables.PltIsTail arch) (hplt : (tables.slice .plt).rels ≠ []) :
    ¬ ∃ reloc, new arch tables = .ok reloc ∧ reloc.ExactlyOnce arch tables := by
  rintro ⟨reloc, hnew, hnodup, -⟩
  obtain ⟨reloc', hnew', hentries⟩ := new_of_relr arch hrelr
  rw [hnew] at hnew'
  cases hnew'
  rw [hentries, htail.entryAddrs_eq, List.nodup_append] at hnodup
  have hne : (tables.slice .plt).entryAddrs arch ≠ [] := by
    simpa [RelSlice.entryAddrs] using hplt
  rw [htail.entryAddrs_eq] at hne
  obtain ⟨a, ha⟩ := List.exists_mem_of_ne_nil _ hne
  exact hnodup.2.2 a (List.mem_of_mem_drop ha) a ha rfl

variable [WordSize w]

theorem exactlyOnce_of_append {reloc : DynamicRelocation w}
    (hdyn : (tables.slice .dyn).InSpace arch) (hplt : (tables.slice .plt).InSpace arch)
    (hdisjoint : tables.Disjoint arch)
    (hentries : reloc.entries.map (tables.addrOf arch) =
      (tables.slice .dyn).entryAddrs arch ++ (tables.slice .plt).entryAddrs arch) :
    reloc.ExactlyOnce arch tables := by
  constructor
  · rw [hentries, List.nodup_append]
    refine ⟨RelSlice.entryAddrs_nodup hdyn, RelSlice.entryAddrs_nodup hplt, ?_⟩
    rintro a ha b hb rfl
    exact hdisjoint a (RelSlice.within_of_mem_entryAddrs hdyn ha)
      (RelSlice.within_of_mem_entryAddrs hplt hb)
  · intro a
    rw [hentries, List.mem_append]

/-- Two tables apart end at different addresses, unless one of them is empty. -/
theorem empty_of_endPtr_eq (hdyn : (tables.slice .dyn).InSpace arch)
    (hplt : (tables.slice .plt).InSpace arch) (hdisjoint : tables.Disjoint arch)
    (hend : (tables.slice .dyn).endPtr arch = (tables.slice .plt).endPtr arch) :
    (tables.slice .dyn).rels = [] ∨ (tables.slice .plt).rels = [] := by
  by_contra hne
  rw [not_or] at hne
  have hlast := RelSlice.within_endPtr hdyn hne.1
  rw [hend] at hlast
  exact hdisjoint _ hlast (RelSlice.within_endPtr hplt hne.2)

theorem new_exactlyOnce_of_disjoint (hdyn : (tables.slice .dyn).InSpace arch)
    (hplt : (tables.slice .plt).InSpace arch) (hdisjoint : tables.Disjoint arch)
    (hcount : tables.relCount.getD 0 ≤ (tables.slice .dyn).rels.length)
    (hempty : tables.relr = none → ¬ EmptyAtEnd arch tables) :
    ∃ reloc, new arch tables = .ok reloc ∧ reloc.ExactlyOnce arch tables := by
  cases hrelr : tables.relr with
  | some relr =>
      obtain ⟨reloc, hnew, hentries⟩ := new_of_relr arch hrelr
      exact ⟨reloc, hnew, exactlyOnce_of_append hdyn hplt hdisjoint hentries⟩
  | none =>
      -- equal ends leave no entries to cut off
      have hnone : (tables.slice .dyn).endPtr arch = (tables.slice .plt).endPtr arch →
          (tables.slice .plt).rels = [] := by
        intro hend
        rcases empty_of_endPtr_eq hdyn hplt hdisjoint hend with hd | hp
        · by_contra hp
          exact hempty hrelr ⟨hd, hp, hend⟩
        · exact hp
      have hfits : Fits arch tables := by
        refine ⟨hcount, fun hend => ?_⟩
        have hnil : (tables.pltrel.getD .empty).rels = [] := hnone hend
        rw [hnil]
        exact Nat.zero_le _
      obtain ⟨reloc, hnew⟩ := new_of_fits hrelr hfits
      refine ⟨reloc, hnew, exactlyOnce_of_append hdyn hplt hdisjoint ?_⟩
      have hlen :
          ((tables.slice .dyn).entryAddrs arch).length = (tables.slice .dyn).rels.length := by
        simp [RelSlice.entryAddrs]
      have hwhole : (((tables.slice .dyn).entryAddrs arch).drop (tables.relCount.getD 0)).take
          ((tables.slice .dyn).rels.length - tables.relCount.getD 0) =
          ((tables.slice .dyn).entryAddrs arch).drop (tables.relCount.getD 0) :=
        List.take_of_length_le (by rw [List.length_drop, hlen])
      rw [new_of_no_relr hrelr hnew]
      split
      · rename_i hend
        rw [hnone hend, List.length_nil, Nat.sub_zero, hwhole, List.take_append_drop]
      · rw [hwhole, List.take_append_drop]

theorem new_exactlyOnce_of_tail (hdyn : (tables.slice .dyn).InSpace arch)
    (htail : tables.PltIsTail arch)
    (hcount : tables.relCount.getD 0 + (tables.slice .plt).rels.length ≤
      (tables.slice .dyn).rels.length)
    (hrelr : tables.relr = none) :
    ∃ reloc, new arch tables = .ok reloc ∧ reloc.ExactlyOnce arch tables := by
  have hfits : Fits arch tables := by
    refine ⟨?_, fun _ => ?_⟩
    · exact Nat.le_trans (Nat.le_add_right _ _) hcount
    · exact Nat.le_sub_of_add_le (Nat.add_comm _ _ ▸ hcount)
  obtain ⟨reloc, hnew⟩ := new_of_fits hrelr hfits
  have hentries : reloc.entries.map (tables.addrOf arch) = (tables.slice .dyn).entryAddrs arch := by
    rw [new_of_no_relr hrelr hnew, if_pos htail.endPtr_eq, htail.entryAddrs_eq]
    -- head, middle and tail of one list
    have hmiddle : (((tables.slice .dyn).entryAddrs arch).drop (tables.relCount.getD 0)).take
        ((tables.slice .dyn).rels.length - tables.relCount.getD 0 -
          (tables.slice .plt).rels.length) ++
        ((tables.slice .dyn).entryAddrs arch).drop
          ((tables.slice .dyn).rels.length - (tables.slice .plt).rels.length) =
        ((tables.slice .dyn).entryAddrs arch).drop (tables.relCount.getD 0) := by
      have hsum : (tables.slice .dyn).rels.length - (tables.slice .plt).rels.length =
          tables.relCount.getD 0 + ((tables.slice .dyn).rels.length - tables.relCount.getD 0 -
            (tables.slice .plt).rels.length) := by omega
      rw [hsum, ← List.drop_drop, List.take_append_drop]
    rw [List.append_assoc, hmiddle, List.take_append_drop]
  refine ⟨reloc, hnew, ?_, fun a => ?_⟩
  · rw [hentries]
    exact RelSlice.entryAddrs_nodup hdyn
  · rw [hentries, htail.entryAddrs_eq]
    exact ⟨.inl, fun h => h.elim id List.mem_of_mem_drop⟩

/-- Which of the layouts linkers produce are split with every entry in exactly
one list. -/
theorem split_exactly_once_iff (hdyn : (tables.slice .dyn).InSpace arch)
    (hplt : (tables.slice .plt).InSpace arch) (hlayout : tables.Layout arch) :
    (∃ reloc, new arch tables = .ok reloc ∧ reloc.ExactlyOnce arch tables) ↔
      (tables.relr = none → ¬ EmptyAtEnd arch tables) ∧
        (tables.relr ≠ none → tables.PltIsTail arch → (tables.slice .plt).rels = []) := by
  constructor
  · intro honce
    constructor
    · intro hrelr hempty
      obtain ⟨reloc, hnew, -⟩ := honce
      exact not_new_of_emptyAtEnd hrelr hempty hnew
    · intro hsome htail
      obtain ⟨relr, hrelr⟩ := Option.ne_none_iff_exists'.mp hsome
      by_contra hne
      exact not_exactlyOnce_of_relr hrelr htail hne honce
  · rintro ⟨hempty, hrelr⟩
    cases hlayout with
    | disjoint hdisjoint hcount =>
        exact new_exactlyOnce_of_disjoint hdyn hplt hdisjoint hcount hempty
    | tail htail hcount =>
        cases hsome : tables.relr with
        | none => exact new_exactlyOnce_of_tail hdyn htail hcount hsome
        | some relr =>
            -- nothing is shared when the tail has no entries
            have hnil := hrelr (by rw [hsome]; simp) htail
            have hdisjoint : tables.Disjoint arch := by
              intro a _ hwithin
              rw [Within, RelSlice.byteLen, hnil] at hwithin
              simp at hwithin
            refine new_exactlyOnce_of_disjoint hdyn hplt hdisjoint ?_ hempty
            omega

end DynamicRelocation

/-- A table of two entries whose second is also the `DT_JMPREL` table. -/
def tailTables (relr : Option (List (BitVec 64))) : RelocTables 64 where
  pltrel := some ⟨0x10818, [⟨0x908, 0x100000007, 0⟩]⟩
  dynrel := some ⟨0x10800, [⟨0x900, 0x100000006, 0⟩, ⟨0x908, 0x100000007, 0⟩]⟩
  relr
  relCount := none

theorem tailTables_layout (relr : Option (List (BitVec 64))) :
    (tailTables relr).Layout .x86_64 :=
  .tail ⟨Nat.le_succ 1, rfl, rfl⟩ (Nat.le_succ 1)

/-- A jump slot in the tail of a table next to a `DT_RELR` is in two lists. -/
theorem split_repeats_tail_with_relr :
    ((tailTables (some [0x100])).slice .dyn).InSpace .x86_64 ∧
      ((tailTables (some [0x100])).slice .plt).InSpace .x86_64 ∧
      (tailTables (some [0x100])).Layout .x86_64 ∧
      ¬ ∃ reloc, DynamicRelocation.new .x86_64 (tailTables (some [0x100])) = .ok reloc ∧
        reloc.ExactlyOnce .x86_64 (tailTables (some [0x100])) := by
  refine ⟨by decide, by decide, tailTables_layout _, ?_⟩
  exact DynamicRelocation.not_exactlyOnce_of_relr rfl ⟨by decide, rfl, rfl⟩
    (List.cons_ne_nil _ _)

theorem split_tail_without_relr :
    ∃ reloc, DynamicRelocation.new .x86_64 (tailTables none) = .ok reloc ∧
      reloc.ExactlyOnce .x86_64 (tailTables none) := by
  refine (DynamicRelocation.split_exactly_once_iff (by decide) (by decide)
    (tailTables_layout none)).mpr ⟨fun _ h => ?_, fun h => absurd rfl h⟩
  exact absurd h.1 (List.cons_ne_nil _ _)

end ElfLoader
