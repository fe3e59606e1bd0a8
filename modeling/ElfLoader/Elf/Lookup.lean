import ElfLoader.Elf.Hash
import ElfLoader.Library.Search

/-! # What a symbol lookup finds

A lookup is a search through the candidates its hash chain holds. The hashes it
takes from the cache are functions of the name, so the cache never changes the
answer; the chain walks are `Search.findFirst` over the candidates.
-/

namespace ElfLoader

open Search

variable {w : Nat} [CustomHasher]

/-- A cache that only holds hashes of this name. -/
structure PreCompute.Sound (info : SymbolInfo) (pre : PreCompute w) : Prop where
  gnuhash : pre.gnuhash = (info.precompute w).gnuhash
  fofs : pre.fofs = (info.precompute w).fofs
  fmask : pre.fmask = (info.precompute w).fmask
  hash : pre.hash.getD (ElfHash.hash info.name) = ElfHash.hash info.name
  custom : pre.custom.getD (CustomHasher.hash info.name) = CustomHasher.hash info.name

theorem precompute_sound (info : SymbolInfo) : (info.precompute w).Sound info :=
  ⟨rfl, rfl, rfl, rfl, rfl⟩

namespace SymbolTable

/-- The lookup with hashes computed from the name. -/
def lookupFresh (table : SymbolTable w) (info : SymbolInfo) : Except Halt (Option (SymRef w)) :=
  match table.hashtab with
  | .gnu hashtab => table.gnuLookup hashtab info (info.precompute w)
  | .elf hashtab => table.elfLookup hashtab info (ElfHash.hash info.name)
  | .custom hashtab => table.customLookup hashtab info (CustomHasher.hash info.name)

/-- The definition a table provides for a requirement. -/
def provided (table : SymbolTable w) (info : SymbolInfo) : Except Halt (Option (SymRef w)) :=
  (table.lookupFresh info).map (Option.filter fun ref => ref.sym.isUsable)

theorem gnuLookup_sound (table : SymbolTable w) (hashtab : ElfGnuHash w) {info : SymbolInfo}
    {pre : PreCompute w} (hpre : pre.Sound info) :
    table.gnuLookup hashtab info pre = table.gnuLookup hashtab info (info.precompute w) := by
  have hstart : hashtab.chainStart pre = hashtab.chainStart (info.precompute w) := by
    unfold ElfGnuHash.chainStart
    rw [hpre.gnuhash, hpre.fofs, hpre.fmask]
  unfold gnuLookup
  rw [hstart, hpre.gnuhash]

theorem lookup_sound (table : SymbolTable w) {info : SymbolInfo} {pre : PreCompute w}
    (hpre : pre.Sound info) :
    ∃ pre', PreCompute.Sound info pre' ∧
      table.lookup info pre = (table.lookupFresh info).map fun found => (found, pre') := by
  unfold lookup lookupFresh
  cases table.hashtab with
  | gnu hashtab =>
      refine ⟨pre, hpre, ?_⟩
      dsimp only
      rw [table.gnuLookup_sound hashtab hpre]
      rfl
  | elf hashtab =>
      refine ⟨{ pre with hash := some (ElfHash.hash info.name) }, ?_, ?_⟩
      · exact ⟨hpre.gnuhash, hpre.fofs, hpre.fmask, rfl, hpre.custom⟩
      · dsimp only
        rw [hpre.hash]
        rfl
  | custom hashtab =>
      refine ⟨{ pre with custom := some (CustomHasher.hash info.name) }, ?_, ?_⟩
      · exact ⟨hpre.gnuhash, hpre.fofs, hpre.fmask, hpre.hash, rfl⟩
      · dsimp only
        rw [hpre.custom]
        rfl

theorem lookupFilter_sound (table : SymbolTable w) {info : SymbolInfo} {pre : PreCompute w}
    (hpre : pre.Sound info) :
    ∃ pre', PreCompute.Sound info pre' ∧
      table.lookupFilter info pre = (table.provided info).map fun found => (found, pre') := by
  obtain ⟨pre', hpre', hlookup⟩ := table.lookup_sound hpre
  refine ⟨pre', hpre', ?_⟩
  unfold lookupFilter provided
  rw [hlookup]
  cases table.lookupFresh info with
  | error e => rfl
  | ok found => rfl

/-! ## Candidates -/

/-- The entries a lookup tests unless an earlier one is accepted. -/
def candidates (table : SymbolTable w) (info : SymbolInfo) : Except Halt (List Nat) :=
  match table.hashtab with
  | .gnu hashtab => do
      match ← hashtab.chainStart (info.precompute w) with
      | none => return []
      | some start =>
          if start < hashtab.symbias.toNat then .error .fault
          else
            ElfGnuHash.chain (ElfGnuHash.hash info.name)
              (hashtab.chains.drop (start - hashtab.symbias.toNat)) start
  | .elf hashtab => do
      let start ← hashtab.chainStart (ElfHash.hash info.name)
      hashtab.chain (hashtab.chains.length + 1) start
  | .custom hashtab =>
      .ok ((hashtab.find (CustomHasher.hash info.name)
        (fun entry => entry.name = info.name)).toList.map TableEntry.idx)

/-- The table has one of the two standard hash tables. -/
def Standard (table : SymbolTable w) : Prop :=
  ∀ c, table.hashtab ≠ .custom c

theorem gnuWalk_eq_findFirst (table : SymbolTable w) (info : SymbolInfo) (hash : UInt32)
    {chains : List UInt32} {idx : Nat} {cs : List Nat}
    (h : ElfGnuHash.chain hash chains idx = .ok cs) :
    table.gnuWalk info hash chains idx = findFirst (table.acceptEntry info) cs := by
  induction chains generalizing idx cs with
  | nil => cases h
  | cons chainHash rest ih =>
      unfold ElfGnuHash.chain at h
      obtain ⟨tail, htail, rfl⟩ := Exec.except_map_ok_iff.mp h
      -- what the walk does behind this entry
      have hrest : (if chainHash &&& 1 ≠ 0 then .ok none
          else table.gnuWalk info hash rest (idx + 1)) = findFirst (table.acceptEntry info) tail := by
        by_cases hend : chainHash &&& 1 ≠ 0
        · rw [if_pos hend] at htail ⊢
          cases htail
          rfl
        · rw [if_neg hend] at htail ⊢
          exact ih htail
      unfold gnuWalk
      by_cases hhash : hash ||| 1 = chainHash ||| 1
      · rw [if_pos hhash, if_pos hhash]
        cases haccept : table.acceptEntry info idx with
        | error e => rw [findFirst_cons_of_error haccept]; rfl
        | ok found =>
            cases found with
            | some sym => rw [findFirst_cons_of_some haccept]; rfl
            | none => rw [findFirst_cons_of_none haccept]; exact hrest
      · rw [if_neg hhash, if_neg hhash]
        exact hrest

theorem elfWalk_eq_findFirst (table : SymbolTable w) (hashtab : ElfHash) (info : SymbolInfo)
    {fuel idx : Nat} {cs : List Nat} (h : hashtab.chain fuel idx = .ok cs) :
    table.elfWalk hashtab info fuel idx = findFirst (table.acceptEntry info) cs := by
  induction fuel generalizing idx cs with
  | zero => cases h
  | succ fuel ih =>
      unfold ElfHash.chain at h
      unfold elfWalk
      by_cases hidx : idx = 0
      · rw [if_pos hidx] at h ⊢
        cases h
        rfl
      · rw [if_neg hidx] at h ⊢
        cases hnext : hashtab.chains[idx]? with
        | none =>
            rw [hnext] at h
            cases h
        | some next =>
            rw [hnext] at h
            dsimp only at h
            obtain ⟨tail, htail, hret⟩ := Exec.except_bind_ok_iff.mp h
            cases hret
            cases haccept : table.acceptEntry info idx with
            | error e => rw [findFirst_cons_of_error haccept]; rfl
            | ok found =>
                cases found with
                | some sym => rw [findFirst_cons_of_some haccept]; rfl
                | none => rw [findFirst_cons_of_none haccept]; exact ih htail

theorem lookupFresh_eq_findFirst {table : SymbolTable w} {info : SymbolInfo} {cs : List Nat}
    (hstd : table.Standard) (h : table.candidates info = .ok cs) :
    table.lookupFresh info = findFirst (table.acceptEntry info) cs := by
  unfold candidates at h
  unfold lookupFresh
  cases hkind : table.hashtab with
  | custom c => exact absurd hkind (hstd c)
  | gnu hashtab =>
      rw [hkind] at h
      dsimp only at h ⊢
      unfold gnuLookup
      cases hstart : hashtab.chainStart (info.precompute w) with
      | error e =>
          rw [hstart] at h
          cases h
      | ok start =>
          rw [hstart] at h
          cases start with
          | none =>
              cases h
              rfl
          | some start =>
              change (if start < hashtab.symbias.toNat then Except.error Halt.fault else _) = _ at h
              change (if start < hashtab.symbias.toNat then Except.error Halt.fault else _) = _
              by_cases hlt : start < hashtab.symbias.toNat
              · rw [if_pos hlt] at h
                cases h
              · rw [if_neg hlt] at h ⊢
                exact table.gnuWalk_eq_findFirst info _ h
  | elf hashtab =>
      rw [hkind] at h
      dsimp only at h ⊢
      unfold elfLookup
      obtain ⟨start, hstart, hchain⟩ := Exec.except_bind_ok_iff.mp h
      rw [hstart]
      exact table.elfWalk_eq_findFirst hashtab info hchain

end SymbolTable

end ElfLoader
