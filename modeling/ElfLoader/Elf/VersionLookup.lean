import ElfLoader.Elf.Lookup

/-! # Versioned lookups

The first candidate that bears the name and passes the version check wins. The
check accepts the required version, and any default when the requirement is not
hidden, so which of them is returned is decided by their order in the chain.
-/

namespace ElfLoader

open Search

namespace SymbolTable

variable {w : Nat} [CustomHasher]

/-- The name of an entry, as a walk reads it. -/
def nameAt (table : SymbolTable w) (idx : Nat) : Except Halt Name := do
  let sym ← table.symbolAt idx
  getStr table.strtab sym.stName.toNat

/-- The entry has the required version. -/
def Exact (table : SymbolTable w) (req : SymbolVersion) (idx : Nat) : Prop :=
  ∃ v hidden, versionRecord table.version idx = some (v, hidden) ∧ v.name = req.name ∧
    v.hash = req.hash

/-- The entry is a default of its name: it has a version that is not hidden. -/
def Default (table : SymbolTable w) (idx : Nat) : Prop :=
  ∃ v, versionRecord table.version idx = some (v, false)

/-- The entry bears the name, and its version is one the requirement accepts. -/
def Matches (table : SymbolTable w) (info : SymbolInfo) (req : SymbolVersion) (idx : Nat) : Prop :=
  table.nameAt idx = .ok info.name ∧
    (table.Exact req idx ∨ (req.hidden = false ∧ table.Default idx))

variable {table : SymbolTable w} {info : SymbolInfo} {req : SymbolVersion} {idx : Nat}

theorem acceptEntry_of_other {name : Name} (h : table.nameAt idx = .ok name)
    (hne : name ≠ info.name) : table.acceptEntry info idx = .ok none := by
  obtain ⟨sym, hsym, hname⟩ := Exec.except_bind_ok_iff.mp h
  simp only [acceptEntry, hsym, hname, bind, Except.bind, hne, if_false]
  rfl

theorem acceptEntry_of_named (h : table.nameAt idx = .ok info.name) :
    ∃ sym, table.symbolAt idx = .ok sym ∧
      table.acceptEntry info idx =
        (checkMatch table.version idx info.version).map
          fun accepted => if accepted then some ⟨idx, sym⟩ else none := by
  obtain ⟨sym, hsym, hname⟩ := Exec.except_bind_ok_iff.mp h
  refine ⟨sym, hsym, ?_⟩
  simp only [acceptEntry, hsym, hname, bind, Except.bind, if_true]
  rfl

theorem acceptEntry_some {ref : SymRef w} (h : table.acceptEntry info idx = .ok (some ref)) :
    ref.idx = idx ∧ table.symbolAt idx = .ok ref.sym ∧ table.nameAt idx = .ok info.name ∧
      checkMatch table.version idx info.version = .ok true := by
  unfold acceptEntry at h
  obtain ⟨sym, hsym, h⟩ := Exec.except_bind_ok_iff.mp h
  obtain ⟨name, hname, h⟩ := Exec.except_bind_ok_iff.mp h
  by_cases hn : name = info.name
  · rw [if_pos hn] at h
    obtain ⟨accepted, hcheck, h⟩ := Exec.except_bind_ok_iff.mp h
    cases accepted with
    | false => cases h
    | true =>
        cases h
        refine ⟨rfl, hsym, ?_, hcheck⟩
        rw [nameAt, hsym, ← hn]
        exact hname
  · rw [if_neg hn] at h
    cases h

/-- A walk gets past an entry whose name it can read exactly when the entry does
not bear the wanted name or has a version record. -/
theorem acceptEntry_returns_iff {name : Name} (hreq : info.version = some req)
    (hname : table.nameAt idx = .ok name) :
    (∃ r, table.acceptEntry info idx = .ok r) ↔
      (name = info.name → ∃ record, versionRecord table.version idx = some record) := by
  by_cases hn : name = info.name
  · obtain ⟨sym, -, haccept⟩ := acceptEntry_of_named (hn ▸ hname)
    rw [haccept, hreq]
    cases hrec : versionRecord table.version idx with
    | some record =>
        obtain ⟨v, hidden⟩ := record
        rw [checkMatch_of_record hrec]
        exact ⟨fun _ _ => ⟨_, rfl⟩, fun _ => ⟨_, rfl⟩⟩
    | none =>
        constructor
        · rintro ⟨r, hr⟩
          obtain ⟨b, hb, -⟩ := Exec.except_map_ok_iff.mp hr
          exact absurd hb (checkMatch_of_no_record hrec b)
        · intro h
          obtain ⟨record, hsome⟩ := h hn
          cases hsome
  · rw [acceptEntry_of_other hname hn]
    exact ⟨fun _ h => absurd h hn, fun _ => ⟨none, rfl⟩⟩

theorem acceptEntry_of_matches (hreq : info.version = some req)
    (hmatch : table.Matches info req idx) :
    ∃ sym, table.symbolAt idx = .ok sym ∧
      table.acceptEntry info idx = .ok (some ⟨idx, sym⟩) := by
  obtain ⟨hnamed, hversion⟩ := hmatch
  obtain ⟨sym, hsym, haccept⟩ := acceptEntry_of_named hnamed
  have hrec : ∃ v hidden, versionRecord table.version idx = some (v, hidden) ∧
      versionMatches req v hidden = true := by
    rcases hversion with ⟨v, hidden, hrec, hn, hh⟩ | ⟨hreqHidden, v, hrec⟩
    · exact ⟨v, hidden, hrec, by simp [versionMatches, hn, hh]⟩
    · exact ⟨v, false, hrec, by simp [versionMatches, hreqHidden]⟩
  obtain ⟨v, hidden, hrec, hmatch⟩ := hrec
  refine ⟨sym, hsym, ?_⟩
  rw [haccept, hreq, checkMatch_of_record hrec, hmatch]
  rfl

/-- What the version check says about an accepted entry. -/
theorem matches_of_acceptEntry {ref : SymRef w} (hreq : info.version = some req)
    (h : table.acceptEntry info idx = .ok (some ref)) : table.Matches info req idx := by
  obtain ⟨-, -, hnamed, hcheck⟩ := acceptEntry_some h
  refine ⟨hnamed, ?_⟩
  rw [hreq] at hcheck
  cases hrec : versionRecord table.version idx with
  | none => exact absurd hcheck (checkMatch_of_no_record hrec true)
  | some record =>
      obtain ⟨v, hidden⟩ := record
      rw [checkMatch_of_record hrec] at hcheck
      have hmatch : versionMatches req v hidden = true := Except.ok.inj hcheck
      simp only [versionMatches, Bool.or_eq_true, Bool.and_eq_true, decide_eq_true_eq,
        Bool.not_eq_true'] at hmatch
      rcases hmatch with ⟨hhash, hname⟩ | ⟨hreqHidden, hhidden⟩
      · exact .inl ⟨v, hidden, hrec, hname, hhash⟩
      · exact .inr ⟨hreqHidden, v, hhidden ▸ hrec⟩

/-- With an entry of the required version on its chain a lookup succeeds, and
what it returns stands no later: the required version, or an earlier default. -/
theorem lookup_exact_or_earlier_default {before after : List Nat} {pre : PreCompute w}
    (hstd : table.Standard) (hcs : table.candidates info = .ok (before ++ idx :: after))
    (hreq : info.version = some req)
    (hbefore : ∀ j ∈ before, ∃ name, table.nameAt j = .ok name ∧
      (name = info.name → ∃ record, versionRecord table.version j = some record))
    (hname : table.nameAt idx = .ok info.name) (hexact : table.Exact req idx)
    (hpre : pre.Sound info) :
    ∃ ref pre', table.lookup info pre = .ok (some ref, pre') ∧
      ref.idx ∈ before ++ [idx] ∧ table.nameAt ref.idx = .ok info.name ∧
      (table.Exact req ref.idx ∨ (req.hidden = false ∧ table.Default ref.idx)) ∧
      (req.hidden = true ∨
          (∀ j ∈ before, table.nameAt j = .ok info.name → ¬ table.Default j) →
        table.Exact req ref.idx) := by
  obtain ⟨pre', -, hlookup⟩ := table.lookup_sound hpre
  rw [lookupFresh_eq_findFirst hstd hcs] at hlookup
  obtain ⟨sym, -, haccept⟩ := acceptEntry_of_matches hreq ⟨hname, .inl hexact⟩
  -- the entries before it are passed or accepted, never a stop
  have hreturns : ∃ r, findFirst (table.acceptEntry info) before = .ok r := by
    rw [findFirst_returns_iff]
    rintro xs j ys rfl -
    obtain ⟨name, hj, hrec⟩ := hbefore j (by simp)
    exact (acceptEntry_returns_iff hreq hj).mpr hrec
  obtain ⟨r, hr⟩ := hreturns
  cases r with
  | none =>
      rw [findFirst_append_of_none (findFirst_eq_none_iff.mp hr),
        findFirst_cons_of_some haccept] at hlookup
      refine ⟨⟨idx, sym⟩, pre', hlookup, by simp, hname, .inl hexact, fun _ => hexact⟩
  | some ref =>
      rw [findFirst_append_of_some hr] at hlookup
      obtain ⟨xs, j, ys, rfl, -, hj⟩ := findFirst_eq_some_iff.mp hr
      obtain ⟨hidx, -, hjname, -⟩ := acceptEntry_some hj
      have hversion := (matches_of_acceptEntry hreq hj).2
      refine ⟨ref, pre', hlookup, by simp [hidx], hidx ▸ hjname, hidx ▸ hversion, ?_⟩
      intro hcond
      rw [hidx]
      rcases hversion with hexact' | ⟨hnot, hdefault⟩
      · exact hexact'
      · rcases hcond with hhidden | hnone
        · rw [hnot] at hhidden
          cases hhidden
        · exact absurd hdefault (hnone j (by simp) hjname)

/-! ## When a versioned lookup returns -/

/-- The hash chain of the name ends inside its table and every name on it can be
read. -/
def WellFormed (table : SymbolTable w) (info : SymbolInfo) : Prop :=
  ∃ cs, table.candidates info = .ok cs ∧ ∀ i ∈ cs, ∃ name, table.nameAt i = .ok name

/-- Up to the first match, every entry that bears the name has a version record. -/
def VersionSafe (table : SymbolTable w) (info : SymbolInfo) (req : SymbolVersion) : Prop :=
  table.Standard → ∀ before idx after, table.candidates info = .ok (before ++ idx :: after) →
    (∀ j ∈ before, ¬ table.Matches info req j) → table.nameAt idx = .ok info.name →
    ∃ record, versionRecord table.version idx = some record

theorem acceptEntry_eq_none_iff {name : Name} (hreq : info.version = some req)
    (hname : table.nameAt idx = .ok name)
    (hsafe : name = info.name → ∃ record, versionRecord table.version idx = some record) :
    table.acceptEntry info idx = .ok none ↔ ¬ table.Matches info req idx := by
  obtain ⟨r, hr⟩ := (acceptEntry_returns_iff hreq hname).mpr hsafe
  constructor
  · intro hnone hmatch
    obtain ⟨sym, -, haccept⟩ := acceptEntry_of_matches hreq hmatch
    rw [haccept] at hnone
    cases hnone
  · intro hno
    cases r with
    | none => exact hr
    | some ref => exact absurd (matches_of_acceptEntry hreq hr) hno

theorem symbolAt_ok_iff {sym : ElfSymbol w} :
    table.symbolAt idx = .ok sym ↔ table.symtab[idx]? = some sym := by
  unfold symbolAt
  cases table.symtab[idx]? with
  | none => simp
  | some s => simp

/-- What a custom lookup returns: it reads no version data, and the entry it
finds is the only candidate. -/
theorem customLookup_cases {c : CustomHash} (hc : table.hashtab = .custom c)
    (hwf : table.WellFormed info) :
    (table.candidates info = .ok [] ∧ table.lookupFresh info = .ok none) ∨
      ∃ i sym, table.candidates info = .ok [i] ∧ table.symtab[i]? = some sym ∧
        table.lookupFresh info = .ok (some ⟨i, sym⟩) := by
  obtain ⟨cs, hcs, hnames⟩ := hwf
  rw [hcs]
  unfold candidates at hcs
  unfold lookupFresh
  rw [hc] at hcs ⊢
  dsimp only at hcs ⊢
  unfold customLookup
  cases hfind : c.find (CustomHasher.hash info.name) (fun entry => entry.name = info.name) with
  | none =>
      rw [hfind] at hcs
      cases hcs
      exact .inl ⟨rfl, rfl⟩
  | some entry =>
      rw [hfind] at hcs
      cases hcs
      obtain ⟨name, hname⟩ := hnames entry.idx (by simp)
      obtain ⟨sym, hsym, hstr⟩ := Exec.except_bind_ok_iff.mp hname
      refine .inr ⟨entry.idx, sym, rfl, symbolAt_ok_iff.mp hsym, ?_⟩
      simp only [symbolIdx, hsym, hstr, bind, Except.bind, getRequirement,
        table.custom_unversioned c hc]
      rfl

theorem lookupFresh_returns_iff (hreq : info.version = some req) (hwf : table.WellFormed info) :
    (∃ r, table.lookupFresh info = .ok r) ↔ table.VersionSafe info req := by
  by_cases hstd : table.Standard
  · obtain ⟨cs, hcs, hnames⟩ := hwf
    rw [lookupFresh_eq_findFirst hstd hcs]
    rw [findFirst_returns_iff_of (fun i => table.nameAt i = .ok info.name →
      ∃ record, versionRecord table.version i = some record) (table.Matches info req)]
    · unfold VersionSafe
      rw [hcs]
      constructor
      · intro h _ before i after hsplit hbefore hnamed
        exact h before i after (Except.ok.inj hsplit) hbefore hnamed
      · intro h before i after hsplit hbefore hnamed
        exact h hstd before i after (congrArg _ hsplit) hbefore hnamed
    · intro i hi
      obtain ⟨name, hname⟩ := hnames i hi
      rw [acceptEntry_returns_iff hreq hname, hname]
      simp
    · intro i hi hsafe
      obtain ⟨name, hname⟩ := hnames i hi
      refine acceptEntry_eq_none_iff hreq hname (fun hn => hsafe ?_)
      rw [hname, hn]
  · have hcustom : ∃ c, table.hashtab = .custom c := by
      simpa [Standard] using hstd
    obtain ⟨c, hc⟩ := hcustom
    refine ⟨fun _ h => absurd h hstd, fun _ => ?_⟩
    rcases customLookup_cases hc hwf with ⟨-, hnone⟩ | ⟨i, sym, -, -, hsome⟩
    · exact ⟨none, hnone⟩
    · exact ⟨_, hsome⟩

theorem provided_returns_iff (hreq : info.version = some req) (hwf : table.WellFormed info) :
    (∃ r, table.provided info = .ok r) ↔ table.VersionSafe info req := by
  rw [← lookupFresh_returns_iff hreq hwf]
  unfold provided
  constructor
  · rintro ⟨r, hr⟩
    obtain ⟨found, hfound, -⟩ := Exec.except_map_ok_iff.mp hr
    exact ⟨found, hfound⟩
  · rintro ⟨found, hfound⟩
    rw [hfound]
    exact ⟨_, rfl⟩

/-- The first match on the chain is a usable definition. -/
def Offers (table : SymbolTable w) (info : SymbolInfo) (req : SymbolVersion) : Prop :=
  (table.Standard ∧ ∃ before idx after, table.candidates info = .ok (before ++ idx :: after) ∧
      (∀ j ∈ before, ¬ table.Matches info req j) ∧ table.Matches info req idx ∧
      ∃ sym, table.symtab[idx]? = some sym ∧ sym.isUsable = true) ∨
    (¬ table.Standard ∧ ∃ idx sym, table.candidates info = .ok [idx] ∧
      table.symtab[idx]? = some sym ∧ sym.isUsable = true)

theorem provided_of_lookupFresh {ref : SymRef w} (h : table.lookupFresh info = .ok (some ref)) :
    table.provided info = .ok none ↔ ref.sym.isUsable = false := by
  rw [provided, h]
  cases husable : ref.sym.isUsable with
  | false => simp [Except.map, Option.filter, husable]
  | true => simp [Except.map, Option.filter, husable]

theorem lookupFresh_eq_some_iff {ref : SymRef w} (hreq : info.version = some req)
    (hwf : table.WellFormed info) (hsafe : table.VersionSafe info req) (hstd : table.Standard) :
    table.lookupFresh info = .ok (some ref) ↔
      ∃ before after, table.candidates info = .ok (before ++ ref.idx :: after) ∧
        (∀ j ∈ before, ¬ table.Matches info req j) ∧ table.Matches info req ref.idx ∧
        table.symtab[ref.idx]? = some ref.sym := by
  obtain ⟨cs, hcs, hnames⟩ := hwf
  rw [lookupFresh_eq_findFirst hstd hcs, findFirst_eq_some_iff]
  constructor
  · rintro ⟨before, idx, after, rfl, hbefore, haccept⟩
    obtain ⟨rfl, hsym, -, -⟩ := acceptEntry_some haccept
    refine ⟨before, after, hcs, ?_, matches_of_acceptEntry hreq haccept, symbolAt_ok_iff.mp hsym⟩
    intro j hj hmatch
    obtain ⟨sym, -, hsome⟩ := acceptEntry_of_matches hreq hmatch
    rw [hbefore j hj] at hsome
    cases hsome
  · rintro ⟨before, after, hsplit, hbefore, hmatch, hsym⟩
    rw [hcs] at hsplit
    cases hsplit
    refine ⟨before, ref.idx, after, rfl, ?_, ?_⟩
    · intro j hj
      obtain ⟨b₁, b₂, rfl⟩ := List.append_of_mem hj
      obtain ⟨name, hname⟩ := hnames j (by simp)
      refine (acceptEntry_eq_none_iff hreq hname (fun hn => ?_)).mpr (hbefore j (by simp))
      refine hsafe hstd b₁ j (b₂ ++ ref.idx :: after) (by rw [hcs]; simp) ?_ (hn ▸ hname)
      exact fun k hk => hbefore k (by simp [hk])
    · obtain ⟨sym, hsym', haccept⟩ := acceptEntry_of_matches hreq hmatch
      rw [symbolAt_ok_iff, hsym] at hsym'
      cases hsym'
      exact haccept

theorem lookupFresh_eq_some_of_custom {ref : SymRef w} (hwf : table.WellFormed info)
    (hcustom : ¬ table.Standard) :
    table.lookupFresh info = .ok (some ref) ↔
      table.candidates info = .ok [ref.idx] ∧ table.symtab[ref.idx]? = some ref.sym := by
  obtain ⟨c, hc⟩ : ∃ c, table.hashtab = .custom c := by simpa [Standard] using hcustom
  rcases customLookup_cases hc hwf with ⟨hcs, hnone⟩ | ⟨i, sym, hcs, hsym, hsome⟩
  · rw [hcs, hnone]
    simp
  · rw [hcs, hsome]
    constructor
    · intro h
      cases h
      exact ⟨rfl, hsym⟩
    · rintro ⟨hidx, hget⟩
      cases hidx
      rw [hsym] at hget
      cases hget
      rfl

theorem provided_eq_none_iff (hreq : info.version = some req) (hwf : table.WellFormed info)
    (hsafe : table.VersionSafe info req) :
    table.provided info = .ok none ↔ ¬ table.Offers info req := by
  have hoffers : table.Offers info req ↔
      ∃ ref, table.lookupFresh info = .ok (some ref) ∧ ref.sym.isUsable = true := by
    by_cases hstd : table.Standard
    · unfold Offers
      simp only [lookupFresh_eq_some_iff hreq hwf hsafe hstd, hstd, true_and, not_true, false_and,
        or_false]
      constructor
      · rintro ⟨before, idx, after, hcs, hbefore, hmatch, sym, hsym, husable⟩
        exact ⟨⟨idx, sym⟩, ⟨before, after, hcs, hbefore, hmatch, hsym⟩, husable⟩
      · rintro ⟨ref, ⟨before, after, hcs, hbefore, hmatch, hsym⟩, husable⟩
        exact ⟨before, ref.idx, after, hcs, hbefore, hmatch, ref.sym, hsym, husable⟩
    · unfold Offers
      simp only [lookupFresh_eq_some_of_custom hwf hstd, hstd, false_and, false_or,
        not_false_eq_true, true_and]
      constructor
      · rintro ⟨idx, sym, hcs, hsym, husable⟩
        exact ⟨⟨idx, sym⟩, ⟨hcs, hsym⟩, husable⟩
      · rintro ⟨ref, ⟨hcs, hsym⟩, husable⟩
        exact ⟨ref.idx, ref.sym, hcs, hsym, husable⟩
  obtain ⟨found, hfound⟩ := (lookupFresh_returns_iff hreq hwf).mpr hsafe
  rw [hoffers, hfound]
  cases found with
  | none =>
      rw [provided, hfound]
      simp [Except.map]
  | some ref =>
      rw [provided_of_lookupFresh hfound]
      simp

/-- Without version data a lookup that requires a version returns exactly when no
entry of the chain bears the name. -/
theorem versionSafe_of_unversioned (hversion : table.version = none) :
    table.VersionSafe info req ↔
      (table.Standard → ∀ cs, table.candidates info = .ok cs →
        ∀ i ∈ cs, table.nameAt i ≠ .ok info.name) := by
  have hrecord : ∀ i, versionRecord table.version i = none := by
    intro i
    rw [hversion]
    rfl
  unfold VersionSafe
  constructor
  · intro h hstd cs hcs i hi hnamed
    obtain ⟨before, j, after, rfl, hj, hbefore⟩ :=
      exists_first (p := fun j => table.nameAt j = .ok info.name) ⟨i, hi, hnamed⟩
    obtain ⟨record, hrec⟩ := h hstd before j after hcs (fun k hk hm => hbefore k hk hm.1) hj
    rw [hrecord j] at hrec
    cases hrec
  · intro h hstd before i after hcs _ hnamed
    exact absurd hnamed (h hstd _ hcs i (by simp))

end SymbolTable

/-! ## Two versions of one name -/

section TwoVersions

attribute [local instance] constantHasher

/-- `f` in version `V2`, the default, and in the hidden version `V1`, on one
SysV chain; `defaultFirst` says which of the two comes first. -/
def twoVersions (defaultFirst : Bool) : SymbolTable 64 :=
  oneBucket [⟨0, 0, 0, 0, 0, 0⟩, ⟨1, 0x100, 8, 0x12, 0, 1⟩, ⟨1, 0x200, 8, 0x12, 0, 1⟩] [0, 102, 0]
    (some
      { versionIds := if defaultFirst then [0, 3, 0x8002] else [0, 0x8002, 3]
        versions := [none, none, some ⟨[86, 49], 0x591⟩, some ⟨[86, 50], 0x592⟩] })

/-- The requirement for `f` in version `V1`, as a file that was linked against
an older library records it. -/
def requiresV1 : SymbolInfo := { name := [102], version := some ⟨[86, 49], 0x591, false⟩ }

theorem lookup_misses_exact_version_behind_default :
    (twoVersions true).candidates requiresV1 = .ok [1, 2] ∧
      (twoVersions true).nameAt 2 = .ok requiresV1.name ∧
      (twoVersions true).Exact ⟨[86, 49], 0x591, false⟩ 2 ∧
      ∃ ref pre', (twoVersions true).lookup requiresV1 (requiresV1.precompute 64) =
          .ok (some ref, pre') ∧
        ¬ (twoVersions true).Exact ⟨[86, 49], 0x591, false⟩ ref.idx := by
  refine ⟨rfl, rfl, ⟨_, _, rfl, rfl, rfl⟩, ⟨1, _⟩, _, rfl, ?_⟩
  rintro ⟨v, hidden, hrec, -, hhash⟩
  have hv : v = ⟨[86, 50], 0x592⟩ := by
    have h : versionRecord (twoVersions true).version 1 = some (⟨[86, 50], 0x592⟩, false) := rfl
    rw [h] at hrec
    cases hrec
    rfl
  rw [hv] at hhash
  exact absurd hhash (by decide)

theorem lookup_finds_exact_version_before_default :
    ∃ ref pre', (twoVersions false).lookup requiresV1 (requiresV1.precompute 64) =
        .ok (some ref, pre') ∧
      ref.idx ∈ [1] ∧ (twoVersions false).nameAt ref.idx = .ok requiresV1.name ∧
      (twoVersions false).Exact ⟨[86, 49], 0x591, false⟩ ref.idx := by
  have hstd : (twoVersions false).Standard := nofun
  have hcs : (twoVersions false).candidates requiresV1 = .ok ([] ++ 1 :: [2]) := rfl
  obtain ⟨ref, pre', hlookup, hmem, hname, -, hexact⟩ :=
    SymbolTable.lookup_exact_or_earlier_default hstd hcs rfl
      (fun j hj => absurd hj List.not_mem_nil) rfl ⟨_, _, rfl, rfl, rfl⟩
      (precompute_sound requiresV1)
  exact ⟨ref, pre', hlookup, hmem, hname, hexact (.inr (fun j hj => absurd hj List.not_mem_nil))⟩

end TwoVersions

end ElfLoader
