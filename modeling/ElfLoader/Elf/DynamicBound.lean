import ElfLoader.Elf.DynamicOrder
import ElfLoader.Image.Builder

/-! # Where the loop over the dynamic section stops

The loop knows the start of the section and not its size. What it reads is
decided by the memory behind the start: the entries up to the first `DT_NULL`,
wherever that stands.
-/

namespace ElfLoader

open ByteMemory

variable {w : Nat}

/-- `size_of::<Dyn>()`. -/
def dynSize (w : Nat) : Nat := 2 * (w / 8)

/-- The loop, with the addresses of the entries it reads as its state. -/
def parseTagsTraced (m : Bytes w) :
    Nat → BitVec w → DynamicTags w → EStateM Halt (List (BitVec w)) (DynamicTags w)
  | 0, _, _ => throw .diverge
  | fuel + 1, ptr, t => do
      modify fun reads => reads ++ [ptr]
      let tag := (readWord m ptr).toNat
      if tag = dtNull then return t
      else
        let t ← Exec.lift (t.store tag (readWord m (ptr + BitVec.ofNat w (w / 8))))
        parseTagsTraced m fuel (ptr + BitVec.ofNat w (dynSize w)) t

/-- `ElfDynamic::new`, with the addresses of the entries it reads. -/
def ElfDynamic.newTraced (arch : Arch w) (m : Bytes w) (segs : ElfSegments w)
    (dynamicPtr : BitVec w) : EStateM Halt (List (BitVec w)) (ElfDynamic w) := do
  let t ← parseTagsTraced m (2 ^ w) dynamicPtr {}
  Exec.lift (ofTags arch segs dynamicPtr t)

/-- The addresses of the first `n` entries. -/
def entryAddrs (p : BitVec w) (n : Nat) : List (BitVec w) :=
  (List.range n).map fun k => p + BitVec.ofNat w (k * dynSize w)

/-- The entry at `a` lies in the `memsz` bytes from `ptr` on. -/
def EntryInside (ptr memsz a : BitVec w) : Prop := (a - ptr).toNat + dynSize w ≤ memsz.toNat

instance (ptr memsz a : BitVec w) : Decidable (EntryInside ptr memsz a) :=
  inferInstanceAs (Decidable (_ ≤ _))

/-- The run comes to an end, and has read nothing but entries of the section. -/
structure StaysInside {α : Type} (ptr memsz : BitVec w)
    (r : EStateM.Result Halt (List (BitVec w)) α) : Prop where
  ends : ∀ h s, r = .error h s → h ≠ .diverge ∧ h ≠ .fault
  reads : ∀ a ∈ Exec.finalState r, EntryInside ptr memsz a

/-- A `DT_NULL` entry lies in the `memsz` bytes from `ptr` on, and no entry before
it stores a zero without a check. -/
def Terminated (m : Bytes w) (ptr memsz : BitVec w) : Prop :=
  ∃ es, DynamicAt m ptr es ∧ (es.length + 1) * dynSize w ≤ memsz.toNat ∧
    ∀ e ∈ es, ¬ DynamicTags.Unsound e

/-! ## The trace is one of the loop -/

/-- The result of a run, without its state. -/
def outcome {ε σ α : Type} : EStateM.Result ε σ α → Except ε α
  | .ok a _ => .ok a
  | .error e _ => .error e

theorem outcome_bind_lift {ε σ α β : Type} (x : EStateM ε σ α) (f : α → Except ε β) (s : σ) :
    outcome ((x >>= fun a => Exec.lift (f a)) s) = outcome (x s) >>= f := by
  cases hx : x s with
  | ok a s₁ =>
      rw [Exec.bind_of_ok hx]
      change outcome (Exec.lift (f a) s₁) = f a
      cases f a <;> rfl
  | error e s₁ =>
      rw [Exec.bind_of_error hx]
      rfl

theorem outcome_parseTagsTraced (m : Bytes w) (fuel : Nat) (ptr : BitVec w) (t : DynamicTags w)
    (reads : List (BitVec w)) :
    outcome (parseTagsTraced m fuel ptr t reads) = parseTags m fuel ptr t := by
  induction fuel generalizing ptr t reads with
  | zero => rfl
  | succ fuel ih =>
      rw [parseTagsTraced, parseTags, Exec.bind_of_ok (Exec.modify_apply _ _)]
      split
      · rfl
      · cases t.store (readWord m ptr).toNat (readWord m (ptr + BitVec.ofNat w (w / 8))) with
        | error h => rfl
        | ok t =>
            rw [Exec.bind_of_ok (Exec.lift_ok _ _), ih]
            rfl

theorem ElfDynamic.outcome_newTraced (arch : Arch w) (m : Bytes w) (segs : ElfSegments w)
    (dynamicPtr : BitVec w) (reads : List (BitVec w)) :
    outcome (newTraced arch m segs dynamicPtr reads) = new arch m segs dynamicPtr := by
  rw [newTraced, outcome_bind_lift, outcome_parseTagsTraced]
  rfl

/-! ## What the loop reads -/

theorem entryAddrs_zero (p : BitVec w) : entryAddrs p 0 = [] := rfl

theorem entryAddrs_succ (p : BitVec w) (n : Nat) :
    entryAddrs p (n + 1) = p :: entryAddrs (p + BitVec.ofNat w (dynSize w)) n := by
  simp only [entryAddrs, List.range_succ_eq_map, List.map_cons, List.map_map, Nat.zero_mul,
    BitVec.add_zero, List.cons.injEq, true_and]
  apply List.map_congr_left
  intro k hk
  change p + BitVec.ofNat w ((k + 1) * dynSize w) = _
  rw [Nat.succ_mul, Nat.add_comm, BitVec.ofNat_add, BitVec.add_assoc]

theorem entryAddrs_one (p : BitVec w) : entryAddrs p 1 = [p] := by
  rw [entryAddrs_succ, entryAddrs_zero]

/-- The loop returns where it meets `DT_NULL`, having read all entries up to it. -/
theorem parseTagsTraced_ok_iff {m : Bytes w} {fuel : Nat} {p : BitVec w} {t t' : DynamicTags w}
    {reads reads' : List (BitVec w)} :
    parseTagsTraced m fuel p t reads = .ok t' reads' ↔
      ∃ es, es.length < fuel ∧ DynamicAt m p es ∧ (∀ e ∈ es, ¬ DynamicTags.Unsound e) ∧
        t' = es.foldl DynamicTags.put t ∧ reads' = reads ++ entryAddrs p (es.length + 1) := by
  induction fuel generalizing p t reads with
  | zero => simp [parseTagsTraced]
  | succ fuel ih =>
      rw [parseTagsTraced, Exec.bind_of_ok (Exec.modify_apply _ _)]
      by_cases hend : (readWord m p).toNat = dtNull
      · rw [if_pos hend]
        constructor
        · intro h
          cases h
          exact ⟨[], Nat.succ_pos fuel, hend, nofun, rfl, by rw [List.length_nil, entryAddrs_one]⟩
        · rintro ⟨es, -, hes, -, rfl, rfl⟩
          cases es with
          | nil =>
              rw [List.length_nil, entryAddrs_one]
              rfl
          | cons e es => exact absurd (hes.2.1.symm.trans hend) hes.1
      · rw [if_neg hend]
        set e : DynEntry w := ((readWord m p).toNat, readWord m (p + BitVec.ofNat w (w / 8)))
        change (Exec.lift (t.store e.1 e.2) >>= fun t => parseTagsTraced m fuel
          (p + BitVec.ofNat w (dynSize w)) t) (reads ++ [p]) = _ ↔ _
        rw [DynamicTags.store_eq]
        by_cases hunsound : DynamicTags.Unsound e
        · rw [if_pos hunsound, Exec.bind_of_error (Exec.lift_error _ _)]
          constructor
          · intro h
            cases h
          · rintro ⟨es, -, hes, hsound, -⟩
            cases es with
            | nil => exact absurd hes hend
            | cons e' es =>
                have he : e' = e := Prod.ext hes.2.1.symm hes.2.2.1.symm
                exact absurd (he ▸ hunsound) (hsound e' List.mem_cons_self)
        · rw [if_neg hunsound, Exec.bind_of_ok (Exec.lift_ok _ _), ih]
          constructor
          · rintro ⟨es, hlt, hes, hsound, ht, hreads⟩
            refine ⟨e :: es, Nat.succ_lt_succ hlt, ⟨hend, rfl, rfl, hes⟩, ?_, ht, ?_⟩
            · exact List.forall_mem_cons.mpr ⟨hunsound, hsound⟩
            · rw [hreads, List.append_assoc, List.length_cons, entryAddrs_succ p]
              rfl
          · rintro ⟨es, hlt, hes, hsound, ht, hreads⟩
            cases es with
            | nil => exact absurd hes hend
            | cons e' es =>
                have he : e' = e := Prod.ext hes.2.1.symm hes.2.2.1.symm
                subst he
                refine ⟨es, Nat.lt_of_succ_lt_succ hlt, hes.2.2.2,
                  (List.forall_mem_cons.mp hsound).2, ht, ?_⟩
                rw [hreads, List.append_assoc, List.length_cons, entryAddrs_succ p]
                rfl

theorem parseTagsTraced_of_dynamicAt {m : Bytes w} {p : BitVec w} {es : List (DynEntry w)}
    (hes : DynamicAt m p es) (hsound : ∀ e ∈ es, ¬ DynamicTags.Unsound e) (t : DynamicTags w)
    (reads : List (BitVec w)) :
    parseTagsTraced m (2 ^ w) p t reads =
      .ok (es.foldl DynamicTags.put t) (reads ++ entryAddrs p (es.length + 1)) :=
  parseTagsTraced_ok_iff.mpr ⟨es, hes.length_lt, hes, hsound, rfl, rfl⟩

/-- Where the loop does not return, it goes round for ever or stores a bad value. -/
theorem parseTagsTraced_error {m : Bytes w} {fuel : Nat} {p : BitVec w} {t : DynamicTags w}
    {reads reads' : List (BitVec w)} {h : Halt}
    (herror : parseTagsTraced m fuel p t reads = .error h reads') :
    h = .diverge ∨ h = .fault := by
  induction fuel generalizing p t reads with
  | zero =>
      cases herror
      exact .inl rfl
  | succ fuel ih =>
      rw [parseTagsTraced, Exec.bind_of_ok (Exec.modify_apply _ _)] at herror
      by_cases hend : (readWord m p).toNat = dtNull
      · rw [if_pos hend] at herror
        cases herror
      · rw [if_neg hend] at herror
        set e : DynEntry w := ((readWord m p).toNat, readWord m (p + BitVec.ofNat w (w / 8)))
        change (Exec.lift (t.store e.1 e.2) >>= fun t => parseTagsTraced m fuel
          (p + BitVec.ofNat w (dynSize w)) t) (reads ++ [p]) = _ at herror
        rw [DynamicTags.store_eq] at herror
        by_cases hunsound : DynamicTags.Unsound e
        · rw [if_pos hunsound, Exec.bind_of_error (Exec.lift_error _ _)] at herror
          cases herror
          exact .inr rfl
        · rw [if_neg hunsound, Exec.bind_of_ok (Exec.lift_ok _ _)] at herror
          exact ih herror

/-- A run of entries lies inside the section when the last one does. -/
theorem entryAddrs_inside_iff {ptr memsz : BitVec w} {n : Nat} :
    (∀ a ∈ entryAddrs ptr n, EntryInside ptr memsz a) ↔ n * dynSize w ≤ memsz.toNat := by
  have hoff : ∀ k, ptr + BitVec.ofNat w (k * dynSize w) - ptr = BitVec.ofNat w (k * dynSize w) :=
    fun k => by rw [BitVec.add_comm, BitVec.add_sub_cancel]
  have hmemsz := memsz.isLt
  constructor
  · intro h
    induction n with
    | zero => omega
    | succ n ih =>
        have hlast := h _ (List.mem_map.mpr ⟨n, List.mem_range.mpr (Nat.lt_succ_self n), rfl⟩)
        have hprev := ih fun a ha => h a (by
          obtain ⟨k, hk, rfl⟩ := List.mem_map.mp ha
          exact List.mem_map.mpr ⟨k, List.mem_range.mpr (by have := List.mem_range.mp hk; omega), rfl⟩)
        rw [EntryInside, hoff, BitVec.toNat_ofNat, Nat.mod_eq_of_lt (by omega)] at hlast
        rw [Nat.succ_mul]
        exact hlast
  · intro h a ha
    obtain ⟨k, hk, rfl⟩ := List.mem_map.mp ha
    have hle : (k + 1) * dynSize w ≤ n * dynSize w :=
      Nat.mul_le_mul_right _ (List.mem_range.mp hk)
    rw [Nat.succ_mul] at hle
    rw [EntryInside, hoff, BitVec.toNat_ofNat]
    have hmod := Nat.mod_le (k * dynSize w) (2 ^ w)
    omega

/-! ## Behind the loop -/

/-- A computation that comes to an end, by returning, by an error or by a panic. -/
def Ends {α : Type} (r : Except Halt α) : Prop := ∀ h, r = .error h → h ≠ .diverge ∧ h ≠ .fault

namespace Ends

variable {α β : Type}

theorem ok (a : α) : Ends (.ok a) := nofun

theorem panic (msg : String) : Ends (.error (.panic msg) : Except Halt α) := by
  intro h hh
  cases hh
  exact ⟨nofun, nofun⟩

theorem err (e : Error) : Ends (.error (.err e) : Except Halt α) := by
  intro h hh
  cases hh
  exact ⟨nofun, nofun⟩

theorem bind {x : Except Halt α} {f : α → Except Halt β} (hx : Ends x) (hf : ∀ a, Ends (f a)) :
    Ends (x >>= f) := by
  cases x with
  | ok a => exact hf a
  | error h' =>
      intro h hh
      cases hh
      exact hx h' rfl

end Ends

namespace ElfDynamic

theorem checkRelType_ends (arch : Arch w) (t : DynamicTags w) : Ends (checkRelType arch t) := by
  unfold checkRelType
  split
  · exact Ends.ok _
  · split
    · exact Ends.ok _
    · exact Ends.panic _

theorem hashOff_ends (t : DynamicTags w) : Ends (hashOff t) := by
  unfold hashOff
  split
  · exact Ends.ok _
  · exact Ends.ok _
  · exact Ends.err _

theorem checkedBase_ends (base off : BitVec w) : Ends (checkedBase base off) := by
  unfold checkedBase
  split
  · exact Ends.ok _
  · exact Ends.panic _

theorem versionTable_ends (base : BitVec w) (off num : Option (BitVec w)) :
    Ends (versionTable base off num) := by
  unfold versionTable
  split
  · exact Ends.ok _
  · refine (checkedBase_ends _ _).bind fun _ => ?_
    split
    · exact Ends.panic _
    · exact Ends.ok _

theorem versionIds_ends (base : BitVec w) (off : Option (BitVec w)) :
    Ends (versionIds base off) := by
  cases off with
  | none => exact Ends.ok _
  | some off => exact (checkedBase_ends _ _).bind fun _ => Ends.ok _

theorem ofTags_ends (arch : Arch w) (segs : ElfSegments w) (dynamicPtr : BitVec w)
    (t : DynamicTags w) : Ends (ofTags arch segs dynamicPtr t) := by
  unfold ofTags
  refine (checkRelType_ends arch t).bind fun _ => ?_
  refine (hashOff_ends t).bind fun _ => ?_
  refine (versionTable_ends _ _ _).bind fun _ => ?_
  refine (versionTable_ends _ _ _).bind fun _ => ?_
  exact (versionIds_ends _ _).bind fun _ => Ends.ok _

/-- The run stays inside exactly where the section is terminated inside. -/
theorem newTraced_staysInside_iff {arch : Arch w} {m : Bytes w} {segs : ElfSegments w}
    {ptr memsz : BitVec w} :
    StaysInside ptr memsz (newTraced arch m segs ptr []) ↔ Terminated m ptr memsz := by
  unfold newTraced
  cases hloop : parseTagsTraced m (2 ^ w) ptr {} [] with
  | error h reads =>
      rw [Exec.bind_of_error hloop]
      refine iff_of_false (fun hstays => ?_) ?_
      · have hends := hstays.ends h reads rfl
        exact (parseTagsTraced_error hloop).elim hends.1 hends.2
      · rintro ⟨es, hes, -, hsound⟩
        have hok := parseTagsTraced_of_dynamicAt hes hsound {} []
        rw [hloop] at hok
        cases hok
  | ok t reads =>
      rw [Exec.bind_of_ok hloop]
      obtain ⟨es, -, hes, hsound, -, hreads⟩ := parseTagsTraced_ok_iff.mp hloop
      rw [List.nil_append] at hreads
      have hinside : (∀ a ∈ reads, EntryInside ptr memsz a) ↔
          (es.length + 1) * dynSize w ≤ memsz.toNat := by
        rw [hreads]
        exact entryAddrs_inside_iff
      constructor
      · intro hstays
        refine ⟨es, hes, hinside.mp fun a ha => hstays.reads a ?_, hsound⟩
        rwa [Exec.finalState_lift]
      · rintro ⟨es', hes', hlen, hsound'⟩
        have hloop' := parseTagsTraced_of_dynamicAt hes' hsound' {} []
        rw [hloop, List.nil_append] at hloop'
        cases hloop'
        refine ⟨fun h s herror => ?_, fun a ha => ?_⟩
        · cases hof : ofTags arch segs ptr (es'.foldl DynamicTags.put {}) with
          | ok dynamic =>
              rw [hof] at herror
              cases herror
          | error h' =>
              rw [hof] at herror
              cases herror
              exact ofTags_ends arch segs ptr _ h hof
        · rw [Exec.finalState_lift] at ha
          exact entryAddrs_inside_iff.mpr hlen a ha

end ElfDynamic

/-- Parsing the section of a `PT_DYNAMIC` header stays inside its `p_memsz` bytes
exactly where they hold a `DT_NULL` entry. The pointer is made from `p_paddr`. -/
theorem parse_dynamic_inside_iff (arch : Arch w) (m : Bytes w) (segs : ElfSegments w)
    (ph : ElfPhdr w) (hpaddr : ph.pPaddr = ph.pVaddr) :
    StaysInside (segs.base + ph.pVaddr) ph.pMemsz
        (ElfDynamic.newTraced arch m segs (segs.getPtr ph.pPaddr) []) ↔
      Terminated m (segs.base + ph.pVaddr) ph.pMemsz := by
  rw [hpaddr]
  exact ElfDynamic.newTraced_staysInside_iff

/-- One `DT_NEEDED` entry of value one, and zeros behind it. -/
def neededMemory : Bytes 64 := fun a => if a = 0x1000 ∨ a = 0x1008 then 1 else 0

def pageSegments : ElfSegments 64 := { memory := 0x1000, offset := 0, len := 0x1000 }

def dynamicPhdr (memsz : BitVec 64) : ElfPhdr 64 where
  pType := ptDynamic
  pFlags := pfR
  pOffset := 0
  pVaddr := 0
  pPaddr := 0
  pFilesz := memsz
  pMemsz := memsz
  pAlign := 8

theorem parse_dynamic_two_entries :
    StaysInside (pageSegments.base + (dynamicPhdr 32).pVaddr) (dynamicPhdr 32).pMemsz
        (ElfDynamic.newTraced Arch.x86_64 neededMemory pageSegments
          (pageSegments.getPtr (dynamicPhdr 32).pPaddr) []) ↔
      Terminated neededMemory (pageSegments.base + (dynamicPhdr 32).pVaddr)
        (dynamicPhdr 32).pMemsz :=
  parse_dynamic_inside_iff _ _ _ _ rfl

/-- A section of one entry, which is not `DT_NULL`. -/
theorem parse_dynamic_past_end :
    ¬ StaysInside (pageSegments.base + (dynamicPhdr 16).pVaddr) (dynamicPhdr 16).pMemsz
        (ElfDynamic.newTraced Arch.x86_64 neededMemory pageSegments
          (pageSegments.getPtr (dynamicPhdr 16).pPaddr) []) := by
  intro hstays
  have hes : DynamicAt neededMemory (pageSegments.getPtr (dynamicPhdr 16).pPaddr) [(1, 1)] :=
    ⟨by decide, by decide, by decide, show (readWord neededMemory 0x1010).toNat = dtNull by decide⟩
  have hsound : ∀ e ∈ [((1, 1) : DynEntry 64)], ¬ DynamicTags.Unsound e := by decide
  have hloop := parseTagsTraced_of_dynamicAt hes hsound {} []
  have hread := hstays.reads 0x1010 (by
    rw [ElfDynamic.newTraced, Exec.bind_of_ok hloop, Exec.finalState_lift]
    decide)
  exact absurd hread (by decide)

end ElfLoader
