import ElfLoader.Elf.DynamicSection
import ElfLoader.Library.Registers

/-! # The order of the dynamic entries

Every local that the loop of `ElfDynamic::new` fills is a register, but for the
list of needed libraries, which grows. Where each register has one writer, or
writers that agree, a section may be written down in any order.
-/

namespace ElfLoader

open ByteMemory Registers

variable {w : Nat}

/-- An entry of the section: its tag and its value. -/
abbrev DynEntry (w : Nat) := Nat × BitVec w

/-- The entries of the section at `p`, up to `DT_NULL`. -/
def DynamicAt (m : Bytes w) : BitVec w → List (DynEntry w) → Prop
  | p, [] => (readWord m p).toNat = dtNull
  | p, e :: es =>
      e.1 ≠ dtNull ∧ (readWord m p).toNat = e.1 ∧ readWord m (p + BitVec.ofNat w (w / 8)) = e.2 ∧
        DynamicAt m (p + BitVec.ofNat w (2 * (w / 8))) es

/-! ## The loop as a fold -/

namespace DynamicTags

/-- One iteration, where the value may be stored. -/
def put (t : DynamicTags w) (e : DynEntry w) : DynamicTags w :=
  if e.1 ∈ uncheckedTags then t.setUnchecked e.1 e.2 else t.set e.1 e.2

/-- An entry whose zero value is stored without a check. -/
def Unsound (e : DynEntry w) : Prop := e.1 ∈ uncheckedTags ∧ e.2 = 0

instance (e : DynEntry w) : Decidable (Unsound e) := inferInstanceAs (Decidable (_ ∧ _))

theorem store_eq (t : DynamicTags w) (e : DynEntry w) :
    t.store e.1 e.2 = if Unsound e then .error .fault else .ok (t.put e) := by
  unfold store put Unsound
  by_cases htag : e.1 ∈ uncheckedTags
  · by_cases hzero : e.2 = 0
    · simp [htag, hzero]
    · simp [htag]
  · simp [htag]

/-- The tags of the other arms. -/
def checkedTags : List Nat :=
  [dtNeeded, dtPltrelsz, dtPltgot, dtHash, dtStrtab, dtSymtab, dtRela, dtRelasz, dtInit,
   dtFini, dtRel, dtRelsz, dtPltrel, dtJmprel, dtInitArray, dtFiniArray, dtInitArraysz,
   dtFiniArraysz, dtFlags, dtRelrsz, dtRelr, dtGnuHash, dtRelacount, dtRelcount, dtFlags1]

/-- What the iteration does to each local. -/
theorem put_eq (t : DynamicTags w) (tag : Nat) (un : BitVec w) :
    t.put (tag, un) =
      { symtabOff := if tag = dtSymtab then un else t.symtabOff
        strtabOff := if tag = dtStrtab then un else t.strtabOff
        elfHashOff := if tag = dtHash then some un else t.elfHashOff
        gnuHashOff := if tag = dtGnuHash then some un else t.gnuHashOff
        gotOff := if tag = dtPltgot then nonZero un else t.gotOff
        pltrelSize := if tag = dtPltrelsz then nonZero un else t.pltrelSize
        pltrelOff := if tag = dtJmprel then nonZero un else t.pltrelOff
        relOff := if tag = dtRela ∨ tag = dtRel then nonZero un else t.relOff
        relSize := if tag = dtRelasz ∨ tag = dtRelsz then nonZero un else t.relSize
        relCount := if tag = dtRelacount ∨ tag = dtRelcount then nonZero un else t.relCount
        relrOff := if tag = dtRelr then nonZero un else t.relrOff
        relrSize := if tag = dtRelrsz then nonZero un else t.relrSize
        initOff := if tag = dtInit then nonZero un else t.initOff
        finiOff := if tag = dtFini then nonZero un else t.finiOff
        initArrayOff := if tag = dtInitArray then nonZero un else t.initArrayOff
        initArraySize := if tag = dtInitArraysz then nonZero un else t.initArraySize
        finiArrayOff := if tag = dtFiniArray then nonZero un else t.finiArrayOff
        finiArraySize := if tag = dtFiniArraysz then nonZero un else t.finiArraySize
        versionIdsOff := if tag = dtVersym then some un else t.versionIdsOff
        verneedOff := if tag = dtVerneed then some un else t.verneedOff
        verneedNum := if tag = dtVerneednum then some un else t.verneedNum
        verdefOff := if tag = dtVerdef then some un else t.verdefOff
        verdefNum := if tag = dtVerdefnum then some un else t.verdefNum
        rpathOff := if tag = dtRpath then some un else t.rpathOff
        runpathOff := if tag = dtRunpath then some un else t.runpathOff
        flags := if tag = dtFlags then un else t.flags
        flags1 := if tag = dtFlags1 then un else t.flags1
        isRela := if tag = dtPltrel ∨ tag = dtRela ∨ tag = dtRel then
            some (if tag = dtPltrel then decide (un.toNat = dtRela) else decide (tag = dtRela))
          else t.isRela
        neededLibs := t.neededLibs ++ if tag = dtNeeded then (nonZero un).toList else [] } := by
  by_cases hunchecked : tag ∈ uncheckedTags
  · simp only [uncheckedTags, List.mem_cons, List.not_mem_nil, or_false] at hunchecked
    rcases hunchecked with rfl | rfl | rfl | rfl | rfl | rfl | rfl
    all_goals simp [put, setUnchecked, uncheckedTags,
    dtNeeded, dtPltrelsz, dtPltgot, dtHash, dtStrtab, dtSymtab, dtRela, dtRelasz,
    dtInit, dtFini, dtRpath, dtRel, dtRelsz, dtPltrel, dtJmprel, dtInitArray,
    dtFiniArray, dtInitArraysz, dtFiniArraysz, dtRunpath, dtFlags, dtRelrsz, dtRelr,
    dtGnuHash, dtVersym, dtRelacount, dtRelcount, dtFlags1, dtVerdef, dtVerdefnum,
    dtVerneed, dtVerneednum]
  · by_cases hchecked : tag ∈ checkedTags
    · rw [put, if_neg hunchecked]
      simp only [checkedTags, List.mem_cons, List.not_mem_nil, or_false] at hchecked
      rcases hchecked with rfl | rfl | rfl | rfl | rfl | rfl | rfl | rfl | rfl | rfl | rfl | rfl |
        rfl | rfl | rfl | rfl | rfl | rfl | rfl | rfl | rfl | rfl | rfl | rfl | rfl
      all_goals simp [set,
    dtNeeded, dtPltrelsz, dtPltgot, dtHash, dtStrtab, dtSymtab, dtRela, dtRelasz,
    dtInit, dtFini, dtRpath, dtRel, dtRelsz, dtPltrel, dtJmprel, dtInitArray,
    dtFiniArray, dtInitArraysz, dtFiniArraysz, dtRunpath, dtFlags, dtRelrsz, dtRelr,
    dtGnuHash, dtVersym, dtRelacount, dtRelcount, dtFlags1, dtVerdef, dtVerdefnum,
    dtVerneed, dtVerneednum]
    · rw [put, if_neg hunchecked]
      simp only [checkedTags, uncheckedTags, List.mem_cons, List.not_mem_nil, or_false,
        not_or] at hchecked hunchecked
      simp [set, hchecked, hunchecked]

theorem foldlM_store (es : List (DynEntry w)) (t : DynamicTags w) :
    es.foldlM (fun t e => t.store e.1 e.2) t =
      if ∃ e ∈ es, Unsound e then .error .fault else .ok (es.foldl put t) := by
  induction es generalizing t with
  | nil => simp [pure, Except.pure]
  | cons e es ih =>
      rw [List.foldlM_cons, store_eq]
      simp only [List.exists_mem_cons_iff, List.foldl_cons]
      by_cases hhead : Unsound e
      · rw [if_pos hhead, if_pos (.inl hhead)]
        rfl
      · rw [if_neg hhead]
        change es.foldlM (fun t e => t.store e.1 e.2) (t.put e) = _
        rw [ih]
        simp only [hhead, false_or]

end DynamicTags

/-- Entries that all stand in front of the first `DT_NULL` do not fill the
address space. -/
theorem DynamicAt.length_lt {m : Bytes w} {p : BitVec w} {es : List (DynEntry w)}
    (h : DynamicAt m p es) : es.length < 2 ^ w := by
  -- the entry `k` places on, and the terminator behind the last one
  have hplace : ∀ {es : List (DynEntry w)} {p : BitVec w}, DynamicAt m p es →
      (∀ k < es.length, (readWord m (p + BitVec.ofNat w (k * (2 * (w / 8))))).toNat ≠ dtNull) ∧
        (readWord m (p + BitVec.ofNat w (es.length * (2 * (w / 8))))).toNat = dtNull := by
    intro es
    induction es with
    | nil =>
        intro p h
        exact ⟨fun k hk => absurd hk (Nat.not_lt_zero k), by simpa [DynamicAt] using h⟩
    | cons e es ih =>
        rintro p ⟨hne, htag, -, hrest⟩
        obtain ⟨hentries, hend⟩ := ih hrest
        have hshift : ∀ k, p + BitVec.ofNat w ((k + 1) * (2 * (w / 8))) =
            p + BitVec.ofNat w (2 * (w / 8)) + BitVec.ofNat w (k * (2 * (w / 8))) := by
          intro k
          rw [Nat.succ_mul, Nat.add_comm, BitVec.ofNat_add, BitVec.add_assoc]
        constructor
        · intro k hk
          cases k with
          | zero => simpa [htag] using hne
          | succ k =>
              rw [hshift]
              exact hentries k (Nat.lt_of_succ_lt_succ hk)
        · rw [List.length_cons, hshift]
          exact hend
  obtain ⟨hentries, hend⟩ := hplace h
  by_contra hge
  have hback : es.length - 2 ^ w < es.length := by
    have hpos : 0 < 2 ^ w := Nat.two_pow_pos w
    omega
  apply hentries _ hback
  rw [← hend]
  -- a whole turn around the address space leads to the same place
  have hwrap : BitVec.ofNat w ((es.length - 2 ^ w) * (2 * (w / 8))) =
      BitVec.ofNat w (es.length * (2 * (w / 8))) := by
    apply BitVec.eq_of_toNat_eq
    rw [BitVec.toNat_ofNat, BitVec.toNat_ofNat]
    have hsplit : es.length * (2 * (w / 8)) =
        (es.length - 2 ^ w) * (2 * (w / 8)) + 2 ^ w * (2 * (w / 8)) := by
      rw [← Nat.add_mul]
      congr 1
      omega
    rw [hsplit, Nat.add_mul_mod_self_left]
  rw [hwrap]

theorem parseTags_eq {m : Bytes w} {fuel : Nat} {p : BitVec w} {es : List (DynEntry w)}
    (h : DynamicAt m p es) (hfuel : es.length < fuel) (t : DynamicTags w) :
    parseTags m fuel p t = es.foldlM (fun t e => t.store e.1 e.2) t := by
  induction es generalizing fuel p t with
  | nil =>
      obtain ⟨fuel, rfl⟩ := Nat.exists_eq_add_one_of_ne_zero (Nat.ne_of_gt hfuel)
      have hend : (readWord m p).toNat = dtNull := h
      rw [parseTags, if_pos hend]
      rfl
  | cons e es ih =>
      obtain ⟨fuel, rfl⟩ := Nat.exists_eq_add_one_of_ne_zero (Nat.ne_of_gt (Nat.zero_lt_of_lt hfuel))
      obtain ⟨hne, htag, hun, hrest⟩ := h
      rw [parseTags, List.foldlM_cons]
      simp only [htag, hun, if_neg hne]
      congr 1
      funext t
      exact ih hrest (Nat.lt_of_succ_lt_succ hfuel) t

/-! ## Permutations -/

/-- The tags that go with `DT_RELA`, and those that go with `DT_REL`. -/
def relaFamily : List Nat := [dtRela, dtRelasz, dtRelacount]
def relFamily : List Nat := [dtRel, dtRelsz, dtRelcount]

/-- The entries of a section that says everything once: only `DT_NEEDED` is
repeated, and there is one kind of relocation entries. -/
structure SaysOnce (es : List (DynEntry w)) : Prop where
  once : ((es.map Prod.fst).filter (· ≠ dtNeeded)).Nodup
  oneFamily : ∀ e ∈ es, ∀ e' ∈ es, e.1 ∈ relaFamily → e'.1 ∉ relFamily
  pltrelRela : ∀ e ∈ es, ∀ e' ∈ es, e.1 = dtPltrel → e'.1 ∈ relaFamily → e.2.toNat = dtRela
  pltrelRel : ∀ e ∈ es, ∀ e' ∈ es, e.1 = dtPltrel → e'.1 ∈ relFamily → e.2.toNat = dtRel

namespace SaysOnce

variable {es : List (DynEntry w)}

/-- Entries with the same tag are the same entry. -/
theorem unique (h : SaysOnce es) {e e' : DynEntry w} (he : e ∈ es) (he' : e' ∈ es)
    (htag : e.1 = e'.1) (hneeded : e.1 ≠ dtNeeded) : e = e' := by
  have hnodup : ((es.filter fun e => e.1 ≠ dtNeeded).map Prod.fst).Nodup := by
    have h := h.once
    rw [List.filter_map] at h
    exact h
  refine List.inj_on_of_nodup_map hnodup ?_ ?_ htag
  · exact List.mem_filter.mpr ⟨he, by simpa using hneeded⟩
  · exact List.mem_filter.mpr ⟨he', by simpa [← htag] using hneeded⟩

/-- A local that the entries of one tag write. -/
theorem single (h : SaysOnce es) {es' : List (DynEntry w)} (hperm : es.Perm es') {V : Type}
    (get : DynamicTags w → V) (tag : Nat) (value : BitVec w → V) (htag : tag ≠ dtNeeded)
    (hput : ∀ t tag' un, get (DynamicTags.put t (tag', un)) =
      if tag' = tag then value un else get t)
    (t : DynamicTags w) : get (es.foldl DynamicTags.put t) = get (es'.foldl DynamicTags.put t) := by
  have hreg : Register DynamicTags.put get (fun e => e.1 = tag) fun e => value e.2 :=
    fun t e => hput t e.1 e.2
  refine hreg.foldl_perm hperm (fun e he e' he' hw hw' => ?_) t
  have hsame : e = e' := h.unique he he' (hw.trans hw'.symm) (hw ▸ htag)
  rw [hsame]

/-- A local that two tags share, of which the section has one. -/
theorem shared (h : SaysOnce es) {es' : List (DynEntry w)} (hperm : es.Perm es') {V : Type}
    (get : DynamicTags w → V) (rela rel : Nat) (value : BitVec w → V)
    (hrela : rela ∈ relaFamily) (hrel : rel ∈ relFamily)
    (hput : ∀ t tag' un, get (DynamicTags.put t (tag', un)) =
      if tag' = rela ∨ tag' = rel then value un else get t)
    (t : DynamicTags w) : get (es.foldl DynamicTags.put t) = get (es'.foldl DynamicTags.put t) := by
  have hreg : Register DynamicTags.put get (fun e => e.1 = rela ∨ e.1 = rel) fun e => value e.2 :=
    fun t e => hput t e.1 e.2
  have hfamily : ∀ tag ∈ relaFamily ++ relFamily, tag ≠ dtNeeded := by decide
  refine hreg.foldl_perm hperm (fun e he e' he' hw hw' => ?_) t
  have hsame : e = e' := by
    rcases hw with hw | hw <;> rcases hw' with hw' | hw'
    · exact h.unique he he' (hw.trans hw'.symm) (hw ▸ hfamily _ (List.mem_append_left _ hrela))
    · exact absurd (hw' ▸ hrel) (h.oneFamily e he e' he' (hw ▸ hrela))
    · exact absurd (hw ▸ hrel) (h.oneFamily e' he' e he (hw' ▸ hrela))
    · exact h.unique he he' (hw.trans hw'.symm) (hw ▸ hfamily _ (List.mem_append_right _ hrel))
  rw [hsame]

/-- `DT_PLTREL` and the relocation entries say the same about their kind. -/
theorem isRela (h : SaysOnce es) {es' : List (DynEntry w)} (hperm : es.Perm es')
    (t : DynamicTags w) :
    (es.foldl DynamicTags.put t).isRela = (es'.foldl DynamicTags.put t).isRela := by
  have hreg : Register (DynamicTags.put (w := w)) DynamicTags.isRela
      (fun e => e.1 = dtPltrel ∨ e.1 = dtRela ∨ e.1 = dtRel) (fun e =>
        some (if e.1 = dtPltrel then decide (e.2.toNat = dtRela) else decide (e.1 = dtRela))) :=
    fun t e => congrArg DynamicTags.isRela (DynamicTags.put_eq t e.1 e.2)
  -- what an entry of either family makes of it, next to a `DT_PLTREL`
  have hagree : ∀ e ∈ es, ∀ e' ∈ es, e.1 = dtPltrel → e'.1 = dtRela ∨ e'.1 = dtRel →
      decide (e.2.toNat = dtRela) = decide (e'.1 = dtRela) := by
    intro e he e' he' hplt hw
    rcases hw with hw | hw
    · rw [h.pltrelRela e he e' he' hplt (by rw [hw]; decide), hw]
    · rw [h.pltrelRel e he e' he' hplt (by rw [hw]; decide), hw]
  refine hreg.foldl_perm hperm (fun e he e' he' hw hw' => ?_) t
  by_cases hsame : e.1 = e'.1
  · have hne : e.1 ≠ dtNeeded := by
      rcases hw with hw | hw | hw <;> rw [hw] <;> decide
    rw [h.unique he he' hsame hne]
  · rcases hw with hplt | hw
    · have hw' : e'.1 = dtRela ∨ e'.1 = dtRel :=
        hw'.resolve_left fun hplt' => hsame (hplt.trans hplt'.symm)
      have hne : e'.1 ≠ dtPltrel := fun hplt' => hsame (hplt.trans hplt'.symm)
      rw [if_pos hplt, if_neg hne, hagree e he e' he' hplt hw']
    · rcases hw' with hplt' | hw'
      · have hne : e.1 ≠ dtPltrel := fun hplt => hsame (hplt.trans hplt'.symm)
        rw [if_pos hplt', if_neg hne, hagree e' he' e he hplt' hw]
      · -- one entry of each family
        rcases hw with hw | hw <;> rcases hw' with hw' | hw'
        · exact absurd (hw.trans hw'.symm) hsame
        · exact absurd (by rw [hw']; decide) (h.oneFamily e he e' he' (by rw [hw]; decide))
        · exact absurd (by rw [hw]; decide) (h.oneFamily e' he' e he (by rw [hw']; decide))
        · exact absurd (hw.trans hw'.symm) hsame

end SaysOnce

/-- The needed libraries are collected in the order of their entries. -/
theorem neededLibs_foldl (es : List (DynEntry w)) (t : DynamicTags w) :
    (es.foldl DynamicTags.put t).neededLibs =
      t.neededLibs ++ (es.filter fun e => e.1 = dtNeeded).flatMap fun e => (nonZero e.2).toList := by
  induction es generalizing t with
  | nil => simp
  | cons e es ih =>
      rw [List.foldl_cons, ih, DynamicTags.put_eq, List.filter_cons]
      by_cases htag : e.1 = dtNeeded
      · simp [htag, List.append_assoc]
      · simp [htag]

/-- The loop fills the same locals whatever the order of the entries. -/
theorem foldl_put_perm {es es' : List (DynEntry w)} (h : SaysOnce es) (hperm : es.Perm es')
    (hneeded : (es.filter fun e => e.1 = dtNeeded) = es'.filter fun e => e.1 = dtNeeded)
    (t : DynamicTags w) : es.foldl DynamicTags.put t = es'.foldl DynamicTags.put t := by
  have hlibs : (es.foldl DynamicTags.put t).neededLibs =
      (es'.foldl DynamicTags.put t).neededLibs := by
    rw [neededLibs_foldl, neededLibs_foldl, hneeded]
  rw [DynamicTags.mk.injEq]
  exact ⟨h.single hperm DynamicTags.symtabOff dtSymtab id (by decide)
      (fun t tag un => congrArg DynamicTags.symtabOff (t.put_eq tag un)) t,
    h.single hperm DynamicTags.strtabOff dtStrtab id (by decide)
      (fun t tag un => congrArg DynamicTags.strtabOff (t.put_eq tag un)) t,
    h.single hperm DynamicTags.elfHashOff dtHash some (by decide)
      (fun t tag un => congrArg DynamicTags.elfHashOff (t.put_eq tag un)) t,
    h.single hperm DynamicTags.gnuHashOff dtGnuHash some (by decide)
      (fun t tag un => congrArg DynamicTags.gnuHashOff (t.put_eq tag un)) t,
    h.single hperm DynamicTags.gotOff dtPltgot nonZero (by decide)
      (fun t tag un => congrArg DynamicTags.gotOff (t.put_eq tag un)) t,
    h.single hperm DynamicTags.pltrelSize dtPltrelsz nonZero (by decide)
      (fun t tag un => congrArg DynamicTags.pltrelSize (t.put_eq tag un)) t,
    h.single hperm DynamicTags.pltrelOff dtJmprel nonZero (by decide)
      (fun t tag un => congrArg DynamicTags.pltrelOff (t.put_eq tag un)) t,
    h.shared hperm DynamicTags.relOff dtRela dtRel nonZero (by decide) (by decide)
      (fun t tag un => congrArg DynamicTags.relOff (t.put_eq tag un)) t,
    h.shared hperm DynamicTags.relSize dtRelasz dtRelsz nonZero (by decide) (by decide)
      (fun t tag un => congrArg DynamicTags.relSize (t.put_eq tag un)) t,
    h.shared hperm DynamicTags.relCount dtRelacount dtRelcount nonZero (by decide) (by decide)
      (fun t tag un => congrArg DynamicTags.relCount (t.put_eq tag un)) t,
    h.single hperm DynamicTags.relrOff dtRelr nonZero (by decide)
      (fun t tag un => congrArg DynamicTags.relrOff (t.put_eq tag un)) t,
    h.single hperm DynamicTags.relrSize dtRelrsz nonZero (by decide)
      (fun t tag un => congrArg DynamicTags.relrSize (t.put_eq tag un)) t,
    h.single hperm DynamicTags.initOff dtInit nonZero (by decide)
      (fun t tag un => congrArg DynamicTags.initOff (t.put_eq tag un)) t,
    h.single hperm DynamicTags.finiOff dtFini nonZero (by decide)
      (fun t tag un => congrArg DynamicTags.finiOff (t.put_eq tag un)) t,
    h.single hperm DynamicTags.initArrayOff dtInitArray nonZero (by decide)
      (fun t tag un => congrArg DynamicTags.initArrayOff (t.put_eq tag un)) t,
    h.single hperm DynamicTags.initArraySize dtInitArraysz nonZero (by decide)
      (fun t tag un => congrArg DynamicTags.initArraySize (t.put_eq tag un)) t,
    h.single hperm DynamicTags.finiArrayOff dtFiniArray nonZero (by decide)
      (fun t tag un => congrArg DynamicTags.finiArrayOff (t.put_eq tag un)) t,
    h.single hperm DynamicTags.finiArraySize dtFiniArraysz nonZero (by decide)
      (fun t tag un => congrArg DynamicTags.finiArraySize (t.put_eq tag un)) t,
    h.single hperm DynamicTags.versionIdsOff dtVersym some (by decide)
      (fun t tag un => congrArg DynamicTags.versionIdsOff (t.put_eq tag un)) t,
    h.single hperm DynamicTags.verneedOff dtVerneed some (by decide)
      (fun t tag un => congrArg DynamicTags.verneedOff (t.put_eq tag un)) t,
    h.single hperm DynamicTags.verneedNum dtVerneednum some (by decide)
      (fun t tag un => congrArg DynamicTags.verneedNum (t.put_eq tag un)) t,
    h.single hperm DynamicTags.verdefOff dtVerdef some (by decide)
      (fun t tag un => congrArg DynamicTags.verdefOff (t.put_eq tag un)) t,
    h.single hperm DynamicTags.verdefNum dtVerdefnum some (by decide)
      (fun t tag un => congrArg DynamicTags.verdefNum (t.put_eq tag un)) t,
    h.single hperm DynamicTags.rpathOff dtRpath some (by decide)
      (fun t tag un => congrArg DynamicTags.rpathOff (t.put_eq tag un)) t,
    h.single hperm DynamicTags.runpathOff dtRunpath some (by decide)
      (fun t tag un => congrArg DynamicTags.runpathOff (t.put_eq tag un)) t,
    h.single hperm DynamicTags.flags dtFlags id (by decide)
      (fun t tag un => congrArg DynamicTags.flags (t.put_eq tag un)) t,
    h.single hperm DynamicTags.flags1 dtFlags1 id (by decide)
      (fun t tag un => congrArg DynamicTags.flags1 (t.put_eq tag un)) t,
    h.isRela hperm t, hlibs⟩

namespace ElfDynamic

/-- What `ElfDynamic::new` returns, but for the address of the section. -/
def modPtr (dynamic : ElfDynamic w) : ElfDynamic w := { dynamic with dynPtr := 0 }

theorem new_eq (arch : Arch w) {m : Bytes w} (segs : ElfSegments w) {p : BitVec w}
    {es : List (DynEntry w)} (h : DynamicAt m p es) :
    new arch m segs p =
      (if ∃ e ∈ es, DynamicTags.Unsound e then .error .fault
        else .ok (es.foldl DynamicTags.put {})) >>= ofTags arch segs p := by
  unfold new
  rw [parseTags_eq h h.length_lt, DynamicTags.foldlM_store]

theorem ofTags_modPtr (arch : Arch w) (segs : ElfSegments w) (p p' : BitVec w)
    (t : DynamicTags w) :
    (ofTags arch segs p t).map modPtr = (ofTags arch segs p' t).map modPtr := by
  unfold ofTags
  cases checkRelType arch t with
  | error e => rfl
  | ok _ =>
  cases hashOff t with
  | error e => rfl
  | ok off =>
  cases versionTable segs.base t.verneedOff t.verneedNum with
  | error e => rfl
  | ok verneed =>
  cases versionTable segs.base t.verdefOff t.verdefNum with
  | error e => rfl
  | ok verdef =>
  cases versionIds segs.base t.versionIdsOff with
  | error e => rfl
  | ok versionIdx => rfl

/-- Sections with the same entries, in any order but that of `DT_NEEDED`, parse
alike, and what stands behind `DT_NULL` is not looked at. -/
theorem entry_order_irrelevant (arch : Arch w) (segs : ElfSegments w) {m m' : Bytes w}
    {p p' : BitVec w} {es es' : List (DynEntry w)} (h : DynamicAt m p es)
    (h' : DynamicAt m' p' es') (honce : SaysOnce es) (hperm : es.Perm es')
    (hneeded : (es.filter fun e => e.1 = dtNeeded) = es'.filter fun e => e.1 = dtNeeded) :
    (new arch m segs p).map modPtr = (new arch m' segs p').map modPtr ∧
      ∀ m'', DynamicAt m'' p es → new arch m'' segs p = new arch m segs p := by
  constructor
  · rw [new_eq arch segs h, new_eq arch segs h', foldl_put_perm honce hperm hneeded]
    have hsound : (∃ e ∈ es, DynamicTags.Unsound e) ↔ ∃ e ∈ es', DynamicTags.Unsound e := by
      simp only [hperm.mem_iff]
    by_cases hunsound : ∃ e ∈ es, DynamicTags.Unsound e
    · rw [if_pos hunsound, if_pos (hsound.mp hunsound)]
      rfl
    · rw [if_neg hunsound, if_neg fun h => hunsound (hsound.mpr h)]
      exact ofTags_modPtr arch segs p p' _
  · intro m'' h''
    rw [new_eq arch segs h, new_eq arch segs h'']

/-- The bytes of a section at address 0. -/
def dynamicBytes (es : List (DynEntry 64)) : Bytes 64 :=
  write (fun _ => 0) 0 (es.flatMap fun e => leBytes (BitVec.ofNat 64 e.1) ++ leBytes e.2)

/-- Entries as a linker may list them, and the same ones in another order. -/
def listed : List (DynEntry 64) :=
  [(dtStrtab, 0x100), (dtNeeded, 1), (dtRela, 0x300), (dtNeeded, 7), (dtHash, 0x200)]
def reordered : List (DynEntry 64) :=
  [(dtHash, 0x200), (dtRela, 0x300), (dtNeeded, 1), (dtStrtab, 0x100), (dtNeeded, 7)]

theorem reordered_entries_parse_alike :
    (new Arch.x86_64 (dynamicBytes listed) ⟨0x10000, 0, 0x1000⟩ 0).map modPtr =
      (new Arch.x86_64 (dynamicBytes reordered) ⟨0x10000, 0, 0x1000⟩ 0).map modPtr := by
  have hlisted : DynamicAt (dynamicBytes listed) 0 listed := by
    simp only [DynamicAt, listed]
    decide
  have hreordered : DynamicAt (dynamicBytes reordered) 0 reordered := by
    simp only [DynamicAt, reordered]
    decide
  have honce : SaysOnce listed :=
    { once := by decide, oneFamily := by decide, pltrelRela := by decide, pltrelRel := by decide }
  exact (entry_order_irrelevant Arch.x86_64 _ hlisted hreordered honce (by decide) (by decide)).1

end ElfDynamic

end ElfLoader
