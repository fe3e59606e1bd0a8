import ElfLoader.Arch.Basic
import ElfLoader.Image.Core

/-! # Relocation tables (`src/elf/defs.rs`, `DynamicRelocation`)

An entry is a value; a `RelRef` is a reference to one, which says where in which
table it stands. The passes work on references, so that two equal entries of one
table stay two entries.
-/

namespace ElfLoader

open ByteMemory

variable {w : Nat}

/-- `REL_BIT`: the width of the type field in `r_info`. -/
def relBit (w : Nat) : Nat := if w = 64 then 32 else 8

/-- `ElfRela`, and `ElfRel`, whose addend field does not exist and is not read. -/
structure ElfRelType (w : Nat) where
  rOffset : BitVec w
  rInfo : BitVec w
  rAddend : BitVec w
deriving DecidableEq

namespace ElfRelType

def rType (rel : ElfRelType w) : Nat := rel.rInfo.toNat % 2 ^ relBit w

def rSymbol (rel : ElfRelType w) : Nat := (rel.rInfo >>> relBit w).toNat

/-- `r_addend(base)`: the field, or the word at the patched place. -/
def addend (arch : Arch w) (base : BitVec w) (m : Bytes w) (rel : ElfRelType w) : BitVec w :=
  if arch.inPlaceAddend then readWord m (rel.rOffset + base) else rel.rAddend

end ElfRelType

inductive RelTable where
  | dyn
  | plt
deriving DecidableEq

structure RelRef (w : Nat) where
  table : RelTable
  idx : Nat
  rel : ElfRelType w
deriving DecidableEq

/-- A slice of entries in the image: `&'static [ElfRelType]`. -/
structure RelSlice (w : Nat) where
  ptr : BitVec w
  rels : List (ElfRelType w)

namespace RelSlice

/-- `&[]`: a dangling, aligned pointer. -/
def empty : RelSlice w := { ptr := BitVec.ofNat w (w / 8), rels := [] }

def refs (table : RelTable) (slice : RelSlice w) : List (RelRef w) :=
  slice.rels.zipIdx.map fun entry => { table, idx := entry.2, rel := entry.1 }

/-- `as_ptr().add(len())`. -/
def endPtr (arch : Arch w) (slice : RelSlice w) : BitVec w :=
  slice.ptr + BitVec.ofNat w (slice.rels.length * ((if arch.inPlaceAddend then 2 else 3) * (w / 8)))

theorem refs_length (table : RelTable) (slice : RelSlice w) :
    (slice.refs table).length = slice.rels.length := by
  simp [refs]

theorem refs_getElem? (table : RelTable) (slice : RelSlice w) (k : Nat) :
    (slice.refs table)[k]? = slice.rels[k]?.map fun rel => { table, idx := k, rel } := by
  simp only [refs, List.getElem?_map, List.getElem?_zipIdx, Option.map_map]
  cases slice.rels[k]? with
  | none => rfl
  | some rel => simp

/-- References of one table differ. -/
theorem refs_nodup (table : RelTable) (slice : RelSlice w) : (slice.refs table).Nodup := by
  have hidx : (slice.refs table).map RelRef.idx = List.range slice.rels.length := by
    apply List.ext_getElem?
    intro k
    rw [List.getElem?_map, refs_getElem?]
    by_cases hk : k < slice.rels.length
    · simp [hk]
    · simp [hk]
  exact List.Nodup.of_map RelRef.idx (hidx ▸ List.nodup_range)

theorem table_of_mem_refs {table : RelTable} {slice : RelSlice w} {ref : RelRef w}
    (h : ref ∈ slice.refs table) : ref.table = table := by
  obtain ⟨k, hk⟩ := List.mem_iff_getElem?.mp h
  rw [refs_getElem?] at hk
  obtain ⟨rel, -, rfl⟩ := Option.map_eq_some_iff.mp hk
  rfl

theorem mem_take_refs {slice : RelSlice w} {table : RelTable} {n k : Nat} {rel : ElfRelType w} :
    ⟨table, k, rel⟩ ∈ (slice.refs table).take n ↔ k < n ∧ slice.rels[k]? = some rel := by
  rw [List.mem_iff_getElem?]
  constructor
  · rintro ⟨j, hj⟩
    rw [List.getElem?_take] at hj
    split at hj
    · rename_i hlt
      rw [refs_getElem?] at hj
      obtain ⟨rel', hrel, heq⟩ := Option.map_eq_some_iff.mp hj
      cases heq
      exact ⟨hlt, hrel⟩
    · cases hj
  · rintro ⟨hlt, hrel⟩
    refine ⟨k, ?_⟩
    rw [List.getElem?_take_of_lt hlt, refs_getElem?, hrel]
    rfl

end RelSlice

inductive RelativeRel (w : Nat) where
  | rel (rels : List (RelRef w))
  | relr (words : List (BitVec w))

structure DynamicRelocation (w : Nat) where
  relative : RelativeRel w
  pltrel : List (RelRef w)
  dynrel : List (RelRef w)

/-- The relocation tables a dynamic section names. -/
structure RelocTables (w : Nat) where
  pltrel : Option (RelSlice w)
  dynrel : Option (RelSlice w)
  relr : Option (List (BitVec w))
  relCount : Option Nat

namespace DynamicRelocation

def new (arch : Arch w) (tables : RelocTables w) : Except Halt (DynamicRelocation w) :=
  let pltrel := tables.pltrel.getD .empty
  let dynrel := tables.dynrel.getD .empty
  match tables.relr with
  | some relr =>
      .ok { relative := .relr relr, pltrel := pltrel.refs .plt, dynrel := dynrel.refs .dyn }
  | none =>
      let nrelative := tables.relCount.getD 0
      let oldDynrel := dynrel.refs .dyn
      if oldDynrel.length < nrelative then .error (.panic "range end index out of range")
      else
        let tempDynrel := oldDynrel.drop nrelative
        if dynrel.endPtr arch = pltrel.endPtr arch then
          if tempDynrel.length < pltrel.rels.length then
            .error (.panic "range end index out of range")
          else
            .ok { relative := .rel (oldDynrel.take nrelative)
                  pltrel := pltrel.refs .plt
                  dynrel := tempDynrel.take (tempDynrel.length - pltrel.rels.length) }
        else
          .ok { relative := .rel (oldDynrel.take nrelative)
                pltrel := pltrel.refs .plt
                dynrel := tempDynrel }

def isEmpty (reloc : DynamicRelocation w) : Bool :=
  (match reloc.relative with
    | .rel rels => rels.isEmpty
    | .relr words => words.isEmpty) && reloc.dynrel.isEmpty && reloc.pltrel.isEmpty

/-- The counted head fits in the table, and when both tables end at the same
address, the PLT entries fit in the rest. -/
def Fits (arch : Arch w) (tables : RelocTables w) : Prop :=
  tables.relCount.getD 0 ≤ (tables.dynrel.getD .empty).rels.length ∧
    ((tables.dynrel.getD .empty).endPtr arch = (tables.pltrel.getD .empty).endPtr arch →
      (tables.pltrel.getD .empty).rels.length ≤
        (tables.dynrel.getD .empty).rels.length - tables.relCount.getD 0)

/-- What a successful split is: the whole table with a `DT_RELR`, and without
one its counted head and a part of the rest. -/
theorem new_cases {arch : Arch w} {tables : RelocTables w} {reloc : DynamicRelocation w}
    (h : new arch tables = .ok reloc) :
    reloc.pltrel = (tables.pltrel.getD .empty).refs .plt ∧
      ((∃ relr, tables.relr = some relr ∧ reloc.relative = .relr relr ∧
          reloc.dynrel = (tables.dynrel.getD .empty).refs .dyn) ∨
        (tables.relr = none ∧ Fits arch tables ∧
          reloc.relative =
            .rel (((tables.dynrel.getD .empty).refs .dyn).take (tables.relCount.getD 0)) ∧
          ∃ len, reloc.dynrel =
            (((tables.dynrel.getD .empty).refs .dyn).drop (tables.relCount.getD 0)).take len)) := by
  unfold new at h
  cases hrelr : tables.relr with
  | some relr =>
      rw [hrelr] at h
      cases h
      exact ⟨rfl, .inl ⟨relr, rfl, rfl, rfl⟩⟩
  | none =>
      rw [hrelr] at h
      dsimp only at h
      rw [List.length_drop, RelSlice.refs_length] at h
      split at h
      · cases h
      rename_i hcount
      split at h
      · split at h
        · cases h
        · rename_i hplt
          cases h
          exact ⟨rfl, .inr ⟨rfl, ⟨Nat.not_lt.mp hcount, fun _ => Nat.not_lt.mp hplt⟩, rfl, _, rfl⟩⟩
      · rename_i hend
        cases h
        exact ⟨rfl, .inr ⟨rfl, ⟨Nat.not_lt.mp hcount, fun h => absurd h hend⟩, rfl, _,
          List.take_length.symm⟩⟩

theorem new_of_fits {arch : Arch w} {tables : RelocTables w} (hrelr : tables.relr = none)
    (hfits : Fits arch tables) : ∃ reloc, new arch tables = .ok reloc := by
  unfold new
  rw [hrelr]
  dsimp only
  rw [List.length_drop, RelSlice.refs_length, if_neg (Nat.not_lt.mpr hfits.1)]
  split
  · rename_i hend
    rw [if_neg (Nat.not_lt.mpr (hfits.2 hend))]
    exact ⟨_, rfl⟩
  · exact ⟨_, rfl⟩

/-- The entries of the parts of a split differ. -/
structure Distinct (reloc : DynamicRelocation w) : Prop where
  plt_table : ∀ ref ∈ reloc.pltrel, ref.table = .plt
  plt_nodup : reloc.pltrel.Nodup
  dyn_table : ∀ ref ∈ reloc.dynrel, ref.table = .dyn
  dyn_nodup : reloc.dynrel.Nodup
  relative_table : ∀ rels, reloc.relative = .rel rels → ∀ ref ∈ rels, ref.table = .dyn
  relative_nodup : ∀ rels, reloc.relative = .rel rels → rels.Nodup
  relative_dyn : ∀ rels, reloc.relative = .rel rels → ∀ ref ∈ rels, ref ∉ reloc.dynrel

theorem Distinct.not_mem_plt {reloc : DynamicRelocation w} (h : reloc.Distinct) {ref : RelRef w}
    (htable : ref.table = .dyn) : ref ∉ reloc.pltrel := by
  intro hmem
  rw [h.plt_table ref hmem] at htable
  cases htable

theorem new_distinct {arch : Arch w} {tables : RelocTables w} {reloc : DynamicRelocation w}
    (h : new arch tables = .ok reloc) : reloc.Distinct := by
  obtain ⟨hplt, hcases⟩ := new_cases h
  generalize hrefs : (tables.dynrel.getD .empty).refs .dyn = refs at hcases
  have hnodup : refs.Nodup := hrefs ▸ RelSlice.refs_nodup _ _
  have htable : ∀ ref ∈ refs, ref.table = .dyn := by
    intro ref href
    rw [← hrefs] at href
    exact RelSlice.table_of_mem_refs href
  have hdyn : ∀ ref ∈ reloc.dynrel, ref ∈ refs := by
    intro ref href
    rcases hcases with ⟨relr, -, -, hdyn⟩ | ⟨-, -, -, len, hdyn⟩
    · exact hdyn ▸ href
    · rw [hdyn] at href
      exact List.mem_of_mem_drop (List.mem_of_mem_take href)
  have hrel : ∀ rels, reloc.relative = .rel rels →
      rels = refs.take (tables.relCount.getD 0) ∧
        ∃ len, reloc.dynrel = (refs.drop (tables.relCount.getD 0)).take len := by
    intro rels hrels
    rcases hcases with ⟨relr, -, hrelative, -⟩ | ⟨-, -, hrelative, hdyn⟩
    · rw [hrelative] at hrels
      cases hrels
    · rw [hrelative] at hrels
      cases hrels
      exact ⟨rfl, hdyn⟩
  refine
    { plt_table := ?_
      plt_nodup := hplt ▸ RelSlice.refs_nodup _ _
      dyn_table := fun ref href => htable ref (hdyn ref href)
      dyn_nodup := ?_
      relative_table := ?_
      relative_nodup := ?_
      relative_dyn := ?_ }
  · intro ref href
    rw [hplt] at href
    exact RelSlice.table_of_mem_refs href
  · rcases hcases with ⟨relr, -, -, hdyn⟩ | ⟨-, -, -, len, hdyn⟩
    · exact hdyn ▸ hnodup
    · exact hdyn ▸ (hnodup.sublist (List.drop_sublist _ _)).sublist (List.take_sublist _ _)
  · intro rels hrels ref href
    obtain ⟨rfl, -⟩ := hrel rels hrels
    exact htable ref (List.mem_of_mem_take href)
  · intro rels hrels
    obtain ⟨rfl, -⟩ := hrel rels hrels
    exact hnodup.sublist (List.take_sublist _ _)
  · intro rels hrels ref href hmem
    obtain ⟨rfl, len, hdyn⟩ := hrel rels hrels
    rw [hdyn] at hmem
    exact List.disjoint_take_drop hnodup (Nat.le_refl _) href (List.mem_of_mem_take hmem)

end DynamicRelocation

end ElfLoader
