import ElfLoader.Relocation.Run

/-! # Relative relocations

An entry of type `REL_RELATIVE` is applied by the relative pass, which goes over
the counted head of the table when there is no `DT_RELR`. The loop over the rest
has no branch for the type: an entry that is left to it is not applied.
-/

namespace ElfLoader

variable {w : Nat} {K P Q : Type}

def Event.isStored : Event w → Bool
  | .stored _ _ _ _ => true
  | _ => false

/-- The stores made for one entry. -/
def storesOf (ref : RelRef w) (es : List (Event w)) : List (Event w) :=
  (eventsOf ref es).filter Event.isStored

/-- `REL_RELATIVE` entries at the head of a table. -/
def leadingRelative (arch : Arch w) (rels : List (ElfRelType w)) : Nat :=
  (rels.takeWhile fun rel => rel.rType = arch.relRelative).length

/-- The head of the table, when the count stays within its relative entries. -/
theorem head_relative (arch : Arch w) {slice : RelSlice w} {count : Nat}
    (hcount : count ≤ leadingRelative arch slice.rels) :
    ((slice.refs .dyn).take count).head?.all
      (fun ref => ref.rel.rType = arch.relRelative) = true := by
  cases count with
  | zero => rfl
  | succ count =>
      rw [List.head?_take, if_neg (Nat.succ_ne_zero count), List.head?_eq_getElem?,
        RelSlice.refs_getElem?]
      unfold leadingRelative at hcount
      cases hrels : slice.rels with
      | nil => rfl
      | cons rel rels =>
          by_cases hty : rel.rType = arch.relRelative
          · simp [hty]
          · rw [hrels, List.takeWhile_cons_of_neg (by simpa using hty)] at hcount
            exact absurd hcount (Nat.not_succ_le_zero count)

section Applied

variable [CustomHasher]

/-- Split the tables, then relocate. -/
def DynamicData.relocate (proc : Process w K) (data : DynamicData w) (helper : RelocHelper w P Q)
    (lazy : Option Bool) (lazyScope : Option (SymbolLookup w)) (os : OsState w K) (pre : P)
    (post : Q) : EStateM.Result Halt (RelocState w K P Q) (LoadedCore w) :=
  match data.init proc.arch with
  | .ok image => image.run proc helper lazy lazyScope os pre post
  | .error h => .error h (.start os pre post)

/-- The entry was applied: one store of base plus addend at its place, and no
report of it as unhandled. -/
def AppliedOnce (proc : Process w K) (data : DynamicData w) (ref : RelRef w)
    (trace : List (Event w)) : Prop :=
  (∃ m, storesOf ref trace = [.stored ref m (data.core.base + ref.rel.rOffset)
      (data.core.base + ref.rel.addend proc.arch data.core.base m)]) ∧
    .unhandled ref ∉ trace

variable {proc : Process w K}

theorem init_ok {data : DynamicData w} {image : DynamicImage proc.arch}
    (h : data.init proc.arch = .ok image) : image.toDynamicData = data := by
  unfold DynamicData.init at h
  split at h
  · cases h
    rfl
  · cases h

section Entry

variable {image : DynamicImage proc.arch} {helper : RelocHelper w P Q}
variable {isLazy : Bool} {es : List (Event w)} {flags : List Bool} {x : Ending} {ref : RelRef w}

/-- The relative pass applies the entries of its part, and nothing else touches
them. -/
theorem RunEffect.events_of_relative (h : RunEffect proc image helper isLazy es flags x)
    {rels : List (RelRef w)} (hrelative : image.relocation.relative = .rel rels)
    (hhead : rels.head?.all (fun ref => ref.rel.rType = proc.arch.relRelative) = true)
    (href : ref ∈ rels) :
    ∃ m, eventsOf ref es = [.stored ref m (image.core.base + ref.rel.rOffset)
      (image.core.base + ref.rel.addend proc.arch image.core.base m)] := by
  have hdynrel := image.distinct.relative_dyn rels hrelative ref href
  have hpltrel : ref ∉ image.relocation.pltrel :=
    image.distinct.not_mem_plt (image.distinct.relative_table rels hrelative ref href)
  have hpass {rs : List (Event w)} {y : Ending}
      (hrel : RelativePass proc image image.relocation.relative rs y) :
      y = .done ∧ ∃ m, eventsOf ref rs = [.stored ref m (image.core.base + ref.rel.rOffset)
        (image.core.base + ref.rel.addend proc.arch image.core.base m)] := by
    rw [hrelative] at hrel
    cases hrel with
    | rel _ heffect =>
        exact ⟨rfl, heffect.events_of (image.distinct.relative_nodup rels hrelative) href⟩
    | refused hrefused =>
        rw [hhead] at hrefused
        cases hrefused
  cases h with
  | relative hrel => cases (hpass hrel).1
  | dynrel hrel hdyn =>
      rw [eventsOf_append, hdyn.eventsOf_eq_nil dynEffect_local hdynrel, List.append_nil]
      exact (hpass hrel).2
  | pltrel hrel hdyn hplt _ htail =>
      rw [eventsOf_append, eventsOf_append, eventsOf_append,
        hdyn.eventsOf_eq_nil dynEffect_local hdynrel,
        hplt.eventsOf_eq_nil pltEffect_local hpltrel, eventsOf_of_none htail, List.append_nil,
        List.append_nil, List.append_nil]
      exact (hpass hrel).2

/-- The loop over the rest makes no store for a relative entry. -/
theorem StepEffect.storesOf_relative {flags flags' : List Bool}
    (h : StepEffect proc image helper (DynEffect proc image helper) ref flags es flags' x)
    (hty : ref.rel.rType = proc.arch.relRelative) : es.filter Event.isStored = [] := by
  have hask {stage : Stage} {flags flags' : List Bool} {es : List (Event w)} {v : Verdict}
      (h : AskEffect stage ref flags es flags' v) : es.filter Event.isStored = [] := by
    cases h <;> rfl
  have hsymbol := proc.arch.not_mem_symbolTypes.2.1
  have hother := proc.arch.relative_ne
  simp only [Arch.symbolTypes, List.mem_cons, not_or] at hsymbol
  have hdefault {flags flags' : List Bool} {es : List (Event w)} {v : Verdict}
      (h : DynEffect proc image helper ref flags es flags' v) :
      es.filter Event.isStored = [] := by
    cases h with
    | addr h _ _ => rw [hty] at h; tauto
    | tls h _ _ _ => rw [hty] at h; tauto
    | irelative h => rw [hty] at h; tauto
    | copy => rfl
    | nothing => rfl
    | unresolved => rfl
    | unknown => rfl
    | stop => rfl
  cases h with
  | pre hpre => exact hask hpre
  | preStop hpre => exact hask hpre
  | taken hpre hdef => rw [List.filter_append, hask hpre, hdefault hdef, List.append_nil]
  | defaultStop hpre hdef => rw [List.filter_append, hask hpre, hdefault hdef, List.append_nil]
  | offered hpre hdef hpost =>
      rw [List.filter_append, List.filter_append, hask hpre, hdefault hdef]
      cases hpost with
      | taken hpost => exact hask hpost
      | stop hpost => exact hask hpost
      | unhandled hpost _ => rw [List.filter_append, hask hpost]; rfl

theorem RunEffect.storesOf_eq_nil (h : RunEffect proc image helper isLazy es flags x)
    (hty : ref.rel.rType = proc.arch.relRelative) (htable : ref.table = .dyn)
    (hrelative : ∀ rels, image.relocation.relative = .rel rels → ref ∉ rels) :
    storesOf ref es = [] := by
  unfold storesOf
  by_cases href : ref ∈ image.relocation.dynrel
  · rcases h.events_of_dynrel href with ⟨hnil, -⟩ | ⟨flags₁, flags₂, y, hstep, -⟩
    · rw [hnil]
      rfl
    · exact hstep.storesOf_relative hty
  · rw [h.eventsOf_eq_nil hrelative href (image.distinct.not_mem_plt htable)]
    rfl

end Entry

section Data

variable {data : DynamicData w} {helper : RelocHelper w P Q} {lazy : Option Bool}
variable {lazyScope : Option (SymbolLookup w)} {os : OsState w K} {pre : P} {post : Q}
variable {k : Nat} {rel : ElfRelType w}

theorem init_of_new {reloc : DynamicRelocation w}
    (h : DynamicRelocation.new proc.arch data.tables = .ok reloc) :
    ∃ image : DynamicImage proc.arch, data.init proc.arch = .ok image ∧
      image.toDynamicData = data ∧ image.relocation = reloc := by
  unfold DynamicData.init
  split
  · rename_i relocation hnew
    rw [h] at hnew
    cases hnew
    exact ⟨_, rfl, rfl, rfl⟩
  · rename_i e hnew
    rw [h] at hnew
    cases hnew

theorem relocate_counted
    (hcount : data.tables.relCount.getD 0 ≤
      leadingRelative proc.arch (data.tables.dynrel.getD .empty).rels)
    (hrel : (data.tables.dynrel.getD .empty).rels[k]? = some rel)
    (hrelr : data.tables.relr = none) (hk : k < data.tables.relCount.getD 0)
    (hfits : DynamicRelocation.Fits proc.arch data.tables) :
    AppliedOnce proc data ⟨.dyn, k, rel⟩
      (Exec.finalState (data.relocate proc helper lazy lazyScope os pre post)).trace := by
  obtain ⟨reloc, hnew⟩ := DynamicRelocation.new_of_fits hrelr hfits
  obtain ⟨image, hinit, rfl, rfl⟩ := init_of_new hnew
  have hrelative : image.relocation.relative = .rel
      (((image.tables.dynrel.getD .empty).refs .dyn).take (image.tables.relCount.getD 0)) := by
    rcases (DynamicRelocation.new_cases hnew).2 with ⟨relr, hsome, -, -⟩ | ⟨-, -, hrelative, -⟩
    · rw [hrelr] at hsome
      cases hsome
    · exact hrelative
  have href : ⟨.dyn, k, rel⟩ ∈
      ((image.tables.dynrel.getD .empty).refs .dyn).take (image.tables.relCount.getD 0) :=
    RelSlice.mem_take_refs.mpr ⟨hk, hrel⟩
  have hempty : image.relocation.isEmpty = false := by
    unfold DynamicRelocation.isEmpty
    rw [hrelative]
    dsimp only
    rw [List.isEmpty_eq_false_iff.mpr (List.ne_nil_of_mem href)]
    rfl
  obtain ⟨m, hevents⟩ := (run_effect image helper lazy lazyScope os pre post
    hempty).events_of_relative hrelative (head_relative proc.arch hcount) href
  unfold DynamicData.relocate
  rw [hinit]
  refine ⟨⟨m, ?_⟩, fun hmem => ?_⟩
  · unfold storesOf
    rw [hevents]
    rfl
  · have hmem' := mem_eventsOf.mpr ⟨hmem, rfl⟩
    rw [hevents] at hmem'
    simp at hmem'

/-- A store for a relative entry means that the entry is in the relative part. -/
theorem mem_relative_of_stored {image : DynamicImage proc.arch} {ref : RelRef w}
    (hty : ref.rel.rType = proc.arch.relRelative) (htable : ref.table = .dyn)
    (hstored : storesOf ref
      (Exec.finalState (image.run proc helper lazy lazyScope os pre post)).trace ≠ []) :
    ∃ rels, image.relocation.relative = .rel rels ∧ ref ∈ rels := by
  by_contra hnot
  apply hstored
  cases hempty : image.relocation.isEmpty with
  | true =>
      rw [run_of_empty image helper lazy lazyScope os pre post hempty]
      rfl
  | false =>
      refine (run_effect image helper lazy lazyScope os pre post hempty).storesOf_eq_nil hty
        htable fun rels hrels hmem => hnot ⟨rels, hrels, hmem⟩

theorem AppliedOnce.counted
    (hty : rel.rType = proc.arch.relRelative)
    (h : AppliedOnce proc data ⟨.dyn, k, rel⟩
      (Exec.finalState (data.relocate proc helper lazy lazyScope os pre post)).trace) :
    data.tables.relr = none ∧ k < data.tables.relCount.getD 0 ∧
      DynamicRelocation.Fits proc.arch data.tables := by
  obtain ⟨⟨m, hstores⟩, -⟩ := h
  have hstored : storesOf ⟨.dyn, k, rel⟩
      (Exec.finalState (data.relocate proc helper lazy lazyScope os pre post)).trace ≠ [] := by
    rw [hstores]
    nofun
  unfold DynamicData.relocate at hstored
  cases hinit : data.init proc.arch with
  | error e =>
      rw [hinit] at hstored
      exact absurd rfl hstored
  | ok image =>
      rw [hinit] at hstored
      dsimp only at hstored
      obtain rfl := init_ok hinit
      obtain ⟨rels, hrels, hmem⟩ := mem_relative_of_stored hty rfl hstored
      rcases (DynamicRelocation.new_cases image.relocation_eq).2 with
        ⟨relr, -, hrelr, -⟩ | ⟨hrelr, hfits, htake, -⟩
      · rw [hrelr] at hrels
        cases hrels
      · rw [htake] at hrels
        cases hrels
        exact ⟨hrelr, (RelSlice.mem_take_refs.mp hmem).1, hfits⟩

end Data

/-- Every relative entry of the table is applied exactly once exactly when there
is no `DT_RELR`, every one of them is in the counted head, and the tables can be
split. -/
theorem relative_applied_once_iff (data : DynamicData w) (helper : RelocHelper w P Q)
    (lazy : Option Bool) (lazyScope : Option (SymbolLookup w)) (os : OsState w K) (pre : P)
    (post : Q)
    (hcount : data.tables.relCount.getD 0 ≤
      leadingRelative proc.arch (data.tables.dynrel.getD .empty).rels) :
    (∀ k rel, (data.tables.dynrel.getD .empty).rels[k]? = some rel →
        rel.rType = proc.arch.relRelative →
        AppliedOnce proc data ⟨.dyn, k, rel⟩
          (Exec.finalState (data.relocate proc helper lazy lazyScope os pre post)).trace) ↔
      ∀ k rel, (data.tables.dynrel.getD .empty).rels[k]? = some rel →
        rel.rType = proc.arch.relRelative →
        data.tables.relr = none ∧ k < data.tables.relCount.getD 0 ∧
          DynamicRelocation.Fits proc.arch data.tables := by
  constructor
  · intro h k rel hrel hty
    exact (h k rel hrel hty).counted hty
  · intro h k rel hrel hty
    obtain ⟨hrelr, hk, hfits⟩ := h k rel hrel hty
    exact relocate_counted hcount hrel hrelr hk hfits

end Applied

section Sample

attribute [local instance] constantHasher

/-- An image whose `DT_RELA` table is one relative entry, with the given
`DT_RELACOUNT`. -/
def relativeData (relCount : Option Nat) : DynamicData 64 where
  core := refersToF
  lazy := false
  gotPlt := none
  tables :=
    { pltrel := none
      dynrel := some ⟨0x10800, [⟨0x900, 8, 0x40⟩]⟩
      relr := none
      relCount }
  relro := none
  initFn := none
  initArray := none
  neededLibs := []

theorem uncounted_relative_unhandled :
    (∃ e s', (relativeData none).relocate sampleProcess (plainHelper []) (some false) none
        emptyMemory () () = .error (.err e) s' ∧
        .unhandled ⟨.dyn, 0, ⟨0x900, 8, 0x40⟩⟩ ∈ s'.trace) ∧
      ¬ AppliedOnce sampleProcess (relativeData none) ⟨.dyn, 0, ⟨0x900, 8, 0x40⟩⟩
        (Exec.finalState ((relativeData none).relocate sampleProcess (plainHelper []) (some false)
          none emptyMemory () ())).trace := by
  have hrun : ∃ e s', (relativeData none).relocate sampleProcess (plainHelper []) (some false) none
      emptyMemory () () = .error (.err e) s' ∧
      .unhandled ⟨.dyn, 0, ⟨0x900, 8, 0x40⟩⟩ ∈ s'.trace :=
    ⟨_, _, rfl, by simp [RelocState.push]⟩
  refine ⟨hrun, fun h => ?_⟩
  obtain ⟨e, s', hrun, hmem⟩ := hrun
  rw [hrun] at h
  exact h.2 hmem

theorem counted_relative_applied :
    AppliedOnce sampleProcess (relativeData (some 1)) ⟨.dyn, 0, ⟨0x900, 8, 0x40⟩⟩
      (Exec.finalState ((relativeData (some 1)).relocate sampleProcess (plainHelper [])
        (some false) none emptyMemory () ())).trace := by
  refine (relative_applied_once_iff (relativeData (some 1)) (plainHelper []) (some false) none
    emptyMemory () () (by decide)).mpr ?_ 0 _ rfl (by decide)
  intro k rel hrel _
  have hk : k < 1 := (List.getElem?_eq_some_iff.mp hrel).1
  exact ⟨rfl, hk, by decide, by decide⟩

end Sample

end ElfLoader
