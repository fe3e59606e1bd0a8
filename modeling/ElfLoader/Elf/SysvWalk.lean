import ElfLoader.Elf.HashAgree

/-! # When a lookup through `DT_HASH` ends (`src/elf/hash/sysv.rs`)

The chains come from the file, and nothing bounds the walk along one: it ends at
index zero or at an entry that the test of name and version does not pass over.
A chain that runs in a circle is walked forever by every name it does not hold.
-/

namespace ElfLoader

open StateTransition Walk

namespace ElfHash

/-- All indices of the table lie inside it. -/
structure Bounded (hashtab : ElfHash) : Prop where
  nbucket : 1 ≤ hashtab.nbucket.toNat
  bucketsLength : hashtab.buckets.length = hashtab.nbucket.toNat
  chainsLength : hashtab.chains.length = hashtab.nchain.toNat
  buckets : ∀ start ∈ hashtab.buckets, start.toNat < hashtab.nchain.toNat
  chains : ∀ next ∈ hashtab.chains, next.toNat < hashtab.nchain.toNat

namespace Bounded

variable {hashtab : ElfHash}

theorem chainStart_defined (hb : hashtab.Bounded) (hash : UInt32) :
    ∃ start, hashtab.chainStart hash = .ok start ∧ start < hashtab.nchain.toNat := by
  have hnbucket : hashtab.nbucket ≠ 0 := by
    intro h
    have hpos := hb.nbucket
    rw [h] at hpos
    exact absurd hpos (by decide)
  have hlt : hash.toNat % hashtab.nbucket.toNat < hashtab.buckets.length := by
    rw [hb.bucketsLength]
    exact Nat.mod_lt _ hb.nbucket
  refine ⟨_, ?_, hb.buckets _ (List.getElem_mem hlt)⟩
  rw [chainStart, if_neg hnbucket, List.getElem?_eq_getElem hlt]

theorem chainNext_lt (hb : hashtab.Bounded) {i j : Nat} (h : hashtab.chainNext i = some j) :
    j < hashtab.nchain.toNat := by
  rw [chainNext] at h
  split at h
  · cases h
  · obtain ⟨next, hnext, rfl⟩ := Option.map_eq_some_iff.mp h
    exact hb.chains next (List.mem_of_getElem? hnext)

end Bounded

end ElfHash

namespace SymbolTable

variable {w : Nat} [CustomHasher] (table : SymbolTable w) (hashtab : ElfHash) (info : SymbolInfo)

/-- Where the loop of `ElfHash::lookup` goes on behind the entry `idx`, if it does. -/
def elfNext (idx : Nat) : Option Nat :=
  if table.acceptEntry info idx = .ok none then hashtab.chainNext idx else none

/-- The loop ends, and at most `n` entries are visited: those it goes on from and
the one it stops at. -/
def ElfEndsWithin (n start : Nat) : Prop :=
  ∃ left, Ends (table.elfNext hashtab info) start left ∧ left.length < n

section Loop

variable {table : SymbolTable w} {hashtab : ElfHash} {info : SymbolInfo} {idx start : Nat}

theorem chainNext_of_elfNext {j : Nat} (h : table.elfNext hashtab info idx = some j) :
    hashtab.chainNext idx = some j := by
  rw [elfNext] at h
  split at h
  · exact h
  · cases h

/-- One iteration of the loop that goes on. -/
theorem elfWalk_next {j : Nat} (h : table.elfNext hashtab info idx = some j) (fuel : Nat) :
    table.elfWalk hashtab info (fuel + 1) idx = table.elfWalk hashtab info fuel j := by
  have hchain := chainNext_of_elfNext h
  rw [elfNext] at h
  split at h
  · rename_i haccept
    rw [ElfHash.chainNext] at hchain
    split at hchain
    · cases hchain
    · rename_i hidx
      obtain ⟨next, hnext, rfl⟩ := Option.map_eq_some_iff.mp hchain
      rw [elfWalk, if_neg hidx, haccept, hnext]
      rfl
  · cases h

/-- An iteration that leaves the loop does not depend on the fuel. -/
theorem elfWalk_stop (h : table.elfNext hashtab info idx = none) (fuel : Nat) :
    table.elfWalk hashtab info (fuel + 1) idx = table.elfWalk hashtab info 1 idx := by
  rw [elfWalk, elfWalk]
  split
  · rfl
  · rename_i hidx
    rw [elfNext, ElfHash.chainNext, if_neg hidx] at h
    cases haccept : table.acceptEntry info idx with
    | error e => rfl
    | ok found =>
        cases found with
        | some sym => rfl
        | none =>
            rw [haccept, if_pos rfl] at h
            rw [Option.map_eq_none_iff.mp h]

theorem elfWalk_of_ends {left : List Nat} (h : Ends (table.elfNext hashtab info) idx left)
    {fuel : Nat} (hfuel : left.length < fuel) :
    table.elfWalk hashtab info fuel idx =
      table.elfWalk hashtab info (left.length + 1) idx := by
  induction h generalizing fuel with
  | stop hnone =>
      obtain ⟨n, rfl⟩ := Nat.exists_eq_succ_of_ne_zero (Nat.ne_of_gt hfuel)
      exact elfWalk_stop hnone n
  | step hsome _ ih =>
      obtain ⟨n, rfl⟩ := Nat.exists_eq_succ_of_ne_zero (Nat.ne_of_gt (Nat.zero_lt_of_lt hfuel))
      rw [List.length_cons, elfWalk_next hsome, elfWalk_next hsome]
      exact ih (Nat.lt_of_succ_lt_succ hfuel)

theorem elfWalk_of_not_ends (h : ¬ ∃ left, Ends (table.elfNext hashtab info) idx left)
    (fuel : Nat) : table.elfWalk hashtab info fuel idx = .error .diverge := by
  induction fuel generalizing idx with
  | zero => rfl
  | succ fuel ih =>
      cases hnext : table.elfNext hashtab info idx with
      | none => exact absurd ⟨[], .stop hnext⟩ h
      | some j =>
          rw [elfWalk_next hnext]
          exact ih fun ⟨left, hleft⟩ => h ⟨idx :: left, .step hnext hleft⟩

/-- Inside the table the loop is left at index zero and where the test stops it. -/
theorem elfNext_eq_none_iff (hb : hashtab.Bounded) (hidx : idx < hashtab.nchain.toNat) :
    table.elfNext hashtab info idx = none ↔
      idx = 0 ∨ table.acceptEntry info idx ≠ .ok none := by
  have hlt : idx < hashtab.chains.length := hb.chainsLength ▸ hidx
  rw [elfNext]
  split
  · rename_i haccept
    rw [ElfHash.chainNext, List.getElem?_eq_getElem hlt]
    split
    · rename_i hzero
      exact iff_of_true rfl (.inl hzero)
    · rename_i hzero
      exact iff_of_false (Option.some_ne_none _) (not_or_intro hzero (not_not.mpr haccept))
  · rename_i haccept
    exact iff_of_true rfl (.inr haccept)

theorem exists_ends_iff_chain (hb : hashtab.Bounded) (hstart : start < hashtab.nchain.toNat) :
    (∃ left, Ends (table.elfNext hashtab info) start left) ↔
      ∃ i, Reaches hashtab.chainNext start i ∧
        (i = 0 ∨ table.acceptEntry info i ≠ .ok none) := by
  rw [exists_ends_iff]
  constructor
  · rintro ⟨i, hreach, hnone⟩
    have hi := reaches_invariant (P := (· < hashtab.nchain.toNat)) hreach hstart
      fun b c _ h => hb.chainNext_lt (chainNext_of_elfNext h)
    exact ⟨i, Relation.ReflTransGen.mono (fun _ _ h => chainNext_of_elfNext h) _ _ hreach,
      (elfNext_eq_none_iff hb hi).mp hnone⟩
  · rintro ⟨i, hreach, hstop⟩
    -- the loop follows the chain as far as it goes on
    induction hreach using Relation.ReflTransGen.head_induction_on with
    | refl => exact ⟨i, .refl, (elfNext_eq_none_iff hb hstart).mpr hstop⟩
    | @head j k hsome hrest ih =>
        cases hnext : table.elfNext hashtab info j with
        | none => exact ⟨j, .refl, hnext⟩
        | some k' =>
            have hk : hashtab.chainNext j = some k := hsome
            have hsame := (chainNext_of_elfNext hnext).symm.trans hk
            cases hsame
            obtain ⟨b, hb', hnone⟩ := ih (hb.chainNext_lt hk)
            exact ⟨b, .head hnext hb', hnone⟩

end Loop

/-- The lookup ends, within as many visits as the table has entries, iff the chain
of the bucket leads to index zero or to an entry that the test does not pass over;
otherwise no amount of fuel is enough. -/
theorem elfLookup_ends_iff {hashtab : ElfHash} (hb : hashtab.Bounded) (table : SymbolTable w)
    (info : SymbolInfo) (hash : UInt32) :
    ∃ start, hashtab.chainStart hash = .ok start ∧
      (table.ElfEndsWithin hashtab info hashtab.nchain.toNat start ↔
        ∃ i, Reaches hashtab.chainNext start i ∧
          (i = 0 ∨ table.acceptEntry info i ≠ .ok none)) ∧
      (table.ElfEndsWithin hashtab info hashtab.nchain.toNat start →
        ∀ fuel, hashtab.nchain.toNat ≤ fuel →
          table.elfWalk hashtab info fuel start = table.elfLookup hashtab info hash) ∧
      (¬ table.ElfEndsWithin hashtab info hashtab.nchain.toNat start →
        ∀ fuel, table.elfWalk hashtab info fuel start = .error .diverge) := by
  obtain ⟨start, hchain, hstart⟩ := hb.chainStart_defined hash
  have hwithin : table.ElfEndsWithin hashtab info hashtab.nchain.toNat start ↔
      ∃ left, Ends (table.elfNext hashtab info) start left := by
    constructor
    · rintro ⟨left, hleft, -⟩
      exact ⟨left, hleft⟩
    · rintro ⟨left, hleft⟩
      refine ⟨left, hleft, hleft.length_lt hstart fun b c _ h => ?_⟩
      exact hb.chainNext_lt (chainNext_of_elfNext h)
  refine ⟨start, hchain, hwithin.trans (exists_ends_iff_chain hb hstart), ?_, ?_⟩
  · rintro ⟨left, hleft, hlt⟩ fuel hfuel
    have hlookup : table.elfLookup hashtab info hash =
        table.elfWalk hashtab info (hashtab.chains.length + 1) start := by
      rw [elfLookup, hchain]
      rfl
    rw [hlookup, elfWalk_of_ends hleft (Nat.lt_of_lt_of_le hlt hfuel), hb.chainsLength,
      elfWalk_of_ends hleft (Nat.lt_succ_of_lt hlt)]
  · exact fun h => elfWalk_of_not_ends fun hends => h (hwithin.mpr hends)

end SymbolTable

/-! ## A chain that runs in a circle -/

section Circle

attribute [local instance] constantHasher

/-- Entry 1, the symbol `f`, is its own successor. -/
def circleElfHash : ElfHash where
  nbucket := 1
  nchain := 2
  buckets := [1]
  chains := [0, 1]

theorem circleElfHash_bounded : circleElfHash.Bounded where
  nbucket := by decide
  bucketsLength := rfl
  chainsLength := rfl
  buckets := List.forall_mem_singleton.mpr (by decide)
  chains := List.forall_mem_cons.mpr ⟨by decide, List.forall_mem_singleton.mpr (by decide)⟩

/-- The lookup of `g`. -/
theorem elfLookup_circles :
    ¬ ∀ (hashtab : ElfHash) (table : SymbolTable 64) (info : SymbolInfo) (hash : UInt32),
      hashtab.Bounded → ∃ start, hashtab.chainStart hash = .ok start ∧
        table.ElfEndsWithin hashtab info hashtab.nchain.toNat start := by
  intro h
  obtain ⟨start, hstart, left, hleft, -⟩ := h circleElfHash
    (.fromDynamic oneExportDynamic (.elf circleElfHash)) { name := [103], version := none }
    (ElfHash.hash [103]) circleElfHash_bounded
  cases hstart
  have hfixed : (SymbolTable.fromDynamic oneExportDynamic (.elf circleElfHash)).elfNext
      circleElfHash { name := [103], version := none } 1 = some 1 := by decide
  exact not_ends_of_fixed hfixed ⟨left, hleft⟩

/-- The lookup of `f` in the same table stops at its match. -/
theorem elfLookup_ends_on_match :
    ∃ start, circleElfHash.chainStart (ElfHash.hash [102]) = .ok start ∧
      (SymbolTable.fromDynamic oneExportDynamic (.elf circleElfHash)).ElfEndsWithin circleElfHash
        { name := [102], version := none } 2 start := by
  obtain ⟨start, hstart, hiff, -⟩ := SymbolTable.elfLookup_ends_iff circleElfHash_bounded
    (.fromDynamic oneExportDynamic (.elf circleElfHash)) { name := [102], version := none }
    (ElfHash.hash [102])
  cases hstart
  exact ⟨1, rfl, hiff.mpr ⟨1, .refl, .inr (by decide)⟩⟩

end Circle

end ElfLoader
