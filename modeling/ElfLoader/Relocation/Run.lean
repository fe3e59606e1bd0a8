import ElfLoader.Relocation.Effect
import ElfLoader.Relocation.Resolution

/-! # Whole runs of relocation

A run is the relative pass, the two loops and the tail. Entries of different
tables and positions are different references, so the events about one entry
are the events of its own iteration.
-/

namespace ElfLoader

variable {w : Nat} {K P Q : Type}

/-! ## Events about one entry -/

/-- The entry an event is about. -/
def Event.ref? : Event w → Option (RelRef w)
  | .asked _ ref => some ref
  | .answered _ ref _ => some ref
  | .stored ref _ _ _ => some ref
  | .copied ref _ _ _ => some ref
  | .rebased ref _ => some ref
  | .unhandled ref => some ref
  | .relr _ => none
  | .initCalled _ _ => none

/-- The events about one entry. -/
def eventsOf (ref : RelRef w) (es : List (Event w)) : List (Event w) :=
  es.filter fun e => e.ref? = some ref

theorem mem_eventsOf {ref : RelRef w} {es : List (Event w)} {e : Event w} :
    e ∈ eventsOf ref es ↔ e ∈ es ∧ e.ref? = some ref := by
  simp [eventsOf]

theorem eventsOf_append (ref : RelRef w) (es es' : List (Event w)) :
    eventsOf ref (es ++ es') = eventsOf ref es ++ eventsOf ref es' :=
  List.filter_append ..

/-- Every event of `es` is about `ref`. -/
def About (ref : RelRef w) (es : List (Event w)) : Prop :=
  ∀ e ∈ es, e.ref? = some ref

theorem About.append {ref : RelRef w} {es es' : List (Event w)} (h : About ref es)
    (h' : About ref es') : About ref (es ++ es') := by
  intro e he
  rcases List.mem_append.mp he with he | he
  · exact h e he
  · exact h' e he

theorem eventsOf_of_about {ref : RelRef w} {es : List (Event w)} (h : About ref es) :
    eventsOf ref es = es :=
  List.filter_eq_self.mpr (by simpa [About] using h)

theorem eventsOf_eq_nil {ref : RelRef w} {es : List (Event w)}
    (h : ∀ e ∈ es, e.ref? ≠ some ref) : eventsOf ref es = [] :=
  List.filter_eq_nil_iff.mpr (by simpa using h)

theorem eventsOf_of_none {ref : RelRef w} {es : List (Event w)} (h : ∀ e ∈ es, e.ref? = none) :
    eventsOf ref es = [] :=
  eventsOf_eq_nil fun e he heq => nomatch (h e he).symm.trans heq

theorem AskEffect.about {stage : Stage} {ref : RelRef w} {flags flags' : List Bool}
    {es : List (Event w)} {v : Verdict} (h : AskEffect stage ref flags es flags' v) :
    About ref es := by
  cases h <;> simp [About, Event.ref?]

section Loops

variable [CustomHasher]
variable {proc : Process w K} {image : DynamicImage proc.arch} {helper : RelocHelper w P Q}

theorem DynEffect.about {ref : RelRef w} {flags flags' : List Bool} {es : List (Event w)}
    {v : Verdict} (h : DynEffect proc image helper ref flags es flags' v) : About ref es := by
  cases h <;> simp [About, Event.ref?]

theorem PltEffect.about {isLazy : Bool} {ref : RelRef w} {flags flags' : List Bool}
    {es : List (Event w)} {v : Verdict}
    (h : PltEffect proc image helper isLazy ref flags es flags' v) : About ref es := by
  cases h <;> simp [About, Event.ref?]

theorem OfferEffect.about {ref : RelRef w} {flags flags' : List Bool} {es : List (Event w)}
    {x : Ending} (h : OfferEffect proc image helper ref flags es flags' x) : About ref es := by
  cases h with
  | taken hpost => exact hpost.about
  | stop hpost => exact hpost.about
  | unhandled hpost _ => exact hpost.about.append (by simp [About, Event.ref?])

/-- A default logic whose events are about its entry. -/
def Default.Local (D : Default w) : Prop :=
  ∀ {ref flags es flags' v}, D ref flags es flags' v → About ref es

theorem StepEffect.about {D : Default w} (hD : D.Local) {ref : RelRef w}
    {flags flags' : List Bool} {es : List (Event w)} {x : Ending}
    (h : StepEffect proc image helper D ref flags es flags' x) : About ref es := by
  cases h with
  | pre hpre => exact hpre.about
  | preStop hpre => exact hpre.about
  | taken hpre hdef => exact hpre.about.append (hD hdef)
  | defaultStop hpre hdef => exact hpre.about.append (hD hdef)
  | offered hpre hdef hpost => exact (hpre.about.append (hD hdef)).append hpost.about

theorem LoopEffect.about {D : Default w} (hD : D.Local) {refs : List (RelRef w)}
    {flags flags' : List Bool} {es : List (Event w)} {x : Ending}
    (h : LoopEffect proc image helper D refs flags es flags' x) :
    ∀ e ∈ es, ∃ ref ∈ refs, e.ref? = some ref := by
  induction h with
  | nil => nofun
  | step hstep _ ih =>
      intro e he
      rcases List.mem_append.mp he with he | he
      · exact ⟨_, List.mem_cons_self, hstep.about hD e he⟩
      · obtain ⟨ref, href, heq⟩ := ih e he
        exact ⟨ref, List.mem_cons_of_mem _ href, heq⟩
  | stop hstep => exact fun e he => ⟨_, List.mem_cons_self, hstep.about hD e he⟩

/-- What a loop did for one of its entries: nothing, when it stopped earlier, or
exactly one iteration. -/
theorem LoopEffect.events_of {D : Default w} (hD : D.Local) {refs : List (RelRef w)}
    {flags flags' : List Bool} {es : List (Event w)} {x : Ending}
    (h : LoopEffect proc image helper D refs flags es flags' x) (hnodup : refs.Nodup)
    {ref : RelRef w} (href : ref ∈ refs) :
    (eventsOf ref es = [] ∧ x ≠ .done) ∨
      ∃ flags₁ flags₂ y, StepEffect proc image helper D ref flags₁ (eventsOf ref es) flags₂ y ∧
        (y ≠ .done → x = y) := by
  induction h with
  | nil => cases href
  | @step r rest flags flags₁ _ es es' x hstep htail ih =>
      obtain ⟨hhead, hrest⟩ := List.nodup_cons.mp hnodup
      rw [eventsOf_append]
      rcases List.mem_cons.mp href with rfl | hmem
      · -- the head: the rest of the loop says nothing about it
        have hnil : eventsOf ref es' = [] := by
          refine eventsOf_eq_nil fun e he heq => hhead ?_
          obtain ⟨r, hr, heq'⟩ := htail.about hD e he
          rw [heq'] at heq
          cases heq
          exact hr
        rw [hnil, List.append_nil, eventsOf_of_about (hstep.about hD)]
        exact .inr ⟨_, _, _, hstep, fun hne => absurd rfl hne⟩
      · have hnil : eventsOf ref es = [] := by
          refine eventsOf_eq_nil fun e he heq => hhead ?_
          rw [hstep.about hD e he] at heq
          cases heq
          exact hmem
        rw [hnil, List.nil_append]
        exact ih hrest hmem
  | @stop r rest flags flags₁ es h hstep =>
      obtain ⟨hhead, hrest⟩ := List.nodup_cons.mp hnodup
      rcases List.mem_cons.mp href with rfl | hmem
      · rw [eventsOf_of_about (hstep.about hD)]
        exact .inr ⟨_, _, _, hstep, fun _ => rfl⟩
      · refine .inl ⟨eventsOf_eq_nil fun e he heq => hhead ?_, nofun⟩
        rw [hstep.about hD e he] at heq
        cases heq
        exact hmem
end Loops

/-! ## The relative pass -/

section Relative

variable [CustomHasher]
variable (proc : Process w K) (image : DynamicImage proc.arch)

/-- One store for each entry, in table order. -/
inductive RelativeEffect : List (RelRef w) → List (Event w) → Prop
  | nil : RelativeEffect [] []
  | cons {ref refs m es} (t : RelativeEffect refs es) :
      RelativeEffect (ref :: refs)
        (.stored ref m (image.core.base + ref.rel.rOffset)
          (image.core.base + ref.rel.addend proc.arch image.core.base m) :: es)

inductive RelativePass : RelativeRel w → List (Event w) → Ending → Prop
  | rel {rels es} (hhead : rels.head?.all (fun ref => ref.rel.rType = proc.arch.relRelative) = true)
      (h : RelativeEffect proc image rels es) : RelativePass (.rel rels) es .done
  | refused {rels h}
      (hhead : rels.head?.all (fun ref => ref.rel.rType = proc.arch.relRelative) = false) :
      RelativePass (.rel rels) [] (.stop h)
  | relr {words es} (h : ∀ e ∈ es, e.ref? = none) : RelativePass (.relr words) es .done

/-- A computation that returns and whose events are about no entry. -/
def Quiet (x : Reloc w K P Q Unit) : Prop :=
  ∀ s, ∃ es s', x s = .ok () s' ∧ Appends s es s' ∧ (∀ e ∈ es, e.ref? = none) ∧
    s'.dependencyFlags = s.dependencyFlags

end Relative

section Relative

variable [CustomHasher]
variable {proc : Process w K}

theorem Quiet.pure : Quiet (pure () : Reloc w K P Q Unit) :=
  fun s => ⟨[], s, rfl, (List.append_nil _).symm, nofun, rfl⟩

theorem Quiet.bind {x y : Reloc w K P Q Unit} (hx : Quiet x) (hy : Quiet y) :
    Quiet (x >>= fun _ => y) := by
  intro s
  obtain ⟨es, s₁, hrun, happ, hes, hflags⟩ := hx s
  obtain ⟨es', s₂, hrun', happ', hes', hflags'⟩ := hy s₁
  refine ⟨es ++ es', s₂, ?_, happ.trans happ', ?_, hflags'.trans hflags⟩
  · rw [Exec.bind_of_ok hrun, hrun']
  · intro e he
    rcases List.mem_append.mp he with he | he
    · exact hes e he
    · exact hes' e he

theorem relrWord_quiet (image : DynamicImage proc.arch) (addr : BitVec w) :
    Quiet (image.relrWord proc addr : Reloc w K P Q Unit) :=
  fun _ => ⟨[.relr addr], _, rfl, rfl, by simp [Event.ref?], rfl⟩

theorem relrBitmap_quiet (image : DynamicImage proc.arch) (relocAddr : BitVec w) (fuel : Nat)
    (bitmap : BitVec w) (idx : Nat) :
    Quiet (image.relrBitmap proc relocAddr fuel bitmap idx : Reloc w K P Q Unit) := by
  induction fuel generalizing bitmap idx with
  | zero => exact .pure
  | succ fuel ih =>
      unfold DynamicImage.relrBitmap
      split
      · dsimp only
        split
        · exact .bind (relrWord_quiet image _) (ih _ _)
        · exact ih _ _
      · exact .pure

theorem relrLoop_quiet (image : DynamicImage proc.arch) (words : List (BitVec w))
    (relocAddr : BitVec w) : Quiet (image.relrLoop proc words relocAddr : Reloc w K P Q Unit) := by
  induction words generalizing relocAddr with
  | nil => exact .pure
  | cons value words ih =>
      unfold DynamicImage.relrLoop
      split
      · exact .bind (relrWord_quiet image _) (ih _)
      · exact .bind (relrBitmap_quiet image _ _ _ _) (ih _)

theorem relativeStep_forM (image : DynamicImage proc.arch) (refs : List (RelRef w))
    (s : RelocState w K P Q) :
    ∃ es s', refs.forM (image.relativeStep proc) s = .ok () s' ∧ Appends s es s' ∧
      RelativeEffect proc image refs es ∧ s'.dependencyFlags = s.dependencyFlags := by
  induction refs generalizing s with
  | nil => exact ⟨[], s, rfl, (List.append_nil _).symm, .nil, rfl⟩
  | cons ref refs ih =>
      obtain ⟨s₁, hstep, happ, hflags⟩ : ∃ s₁, image.relativeStep proc ref s = .ok () s₁ ∧
          Appends s [.stored ref s.os.mem (image.core.base + ref.rel.rOffset)
            (image.core.base + ref.rel.addend proc.arch image.core.base s.os.mem)] s₁ ∧
          s₁.dependencyFlags = s.dependencyFlags := ⟨_, rfl, rfl, rfl⟩
      obtain ⟨es, s₂, hrest, happ', heffect, hflags'⟩ := ih s₁
      refine ⟨_, s₂, ?_, happ.trans happ', .cons heffect, hflags'.trans hflags⟩
      rw [Exec.forM_cons_apply, Exec.bind_of_ok hstep, hrest]

theorem relocateRelative_effect (image : DynamicImage proc.arch) (s : RelocState w K P Q) :
    ∃ es, Appends s es (Exec.finalState (image.relocateRelative proc s)) ∧
      RelativePass proc image image.relocation.relative es
        (ending (image.relocateRelative proc s)) ∧
      (Exec.finalState (image.relocateRelative proc s)).dependencyFlags = s.dependencyFlags := by
  unfold DynamicImage.relocateRelative
  cases image.relocation.relative with
  | rel rels =>
      dsimp only
      split
      · rename_i hhead
        obtain ⟨es, s', hrun, happ, heffect, hflags⟩ := relativeStep_forM image rels s
        rw [hrun]
        exact ⟨es, happ, .rel hhead heffect, hflags⟩
      · rename_i hhead
        exact ⟨[], (List.append_nil _).symm, .refused (Bool.eq_false_iff.mpr hhead), rfl⟩
  | relr words =>
      obtain ⟨es, s', hrun, happ, hes, hflags⟩ := relrLoop_quiet image words 0 s
      dsimp only
      rw [hrun]
      exact ⟨es, happ, .relr hes, hflags⟩

end Relative

/-! ## The passes in sequence -/

section Run

variable [CustomHasher]

/-- The state a relocation starts in. -/
def RelocState.start (os : OsState w K) (pre : P) (post : Q) : RelocState w K P Q where
  os := os
  pre := pre
  post := post
  dependencyFlags := []
  lazyScope := none
  isInit := false
  trace := []

variable (proc : Process w K) (image : DynamicImage proc.arch) (helper : RelocHelper w P Q)

/-- What a run of `relocate_impl` on an image with relocations can do, whatever
is known about the default logic of its two loops. -/
inductive RunOf (Dyn Plt : Default w) : List (Event w) → List Bool → Ending → Prop
  | relative {rs h} (hrel : RelativePass proc image image.relocation.relative rs (.stop h)) :
      RunOf Dyn Plt rs (List.replicate helper.scope.length false) (.stop h)
  | dynrel {rs ds flags h} (hrel : RelativePass proc image image.relocation.relative rs .done)
      (hdyn : LoopEffect proc image helper Dyn image.relocation.dynrel
        (List.replicate helper.scope.length false) ds flags (.stop h)) :
      RunOf Dyn Plt (rs ++ ds) flags (.stop h)
  | pltrel {rs ds ps ts flags₁ flags y x}
      (hrel : RelativePass proc image image.relocation.relative rs .done)
      (hdyn : LoopEffect proc image helper Dyn image.relocation.dynrel
        (List.replicate helper.scope.length false) ds flags₁ .done)
      (hplt : LoopEffect proc image helper Plt image.relocation.pltrel flags₁ ps flags y)
      (hend : y = .done ∨ y = x) (htail : ∀ e ∈ ts, e.ref? = none) :
      RunOf Dyn Plt (rs ++ ds ++ ps ++ ts) flags x

/-- What a run of `relocate_impl` on an image with relocations can do. -/
inductive RunEffect (isLazy : Bool) : List (Event w) → List Bool → Ending → Prop
  | relative {rs h} (hrel : RelativePass proc image image.relocation.relative rs (.stop h)) :
      RunEffect isLazy rs (List.replicate helper.scope.length false) (.stop h)
  | dynrel {rs ds flags h} (hrel : RelativePass proc image image.relocation.relative rs .done)
      (hdyn : LoopEffect proc image helper (DynEffect proc image helper) image.relocation.dynrel
        (List.replicate helper.scope.length false) ds flags (.stop h)) :
      RunEffect isLazy (rs ++ ds) flags (.stop h)
  | pltrel {rs ds ps ts flags₁ flags y x}
      (hrel : RelativePass proc image image.relocation.relative rs .done)
      (hdyn : LoopEffect proc image helper (DynEffect proc image helper) image.relocation.dynrel
        (List.replicate helper.scope.length false) ds flags₁ .done)
      (hplt : LoopEffect proc image helper (PltEffect proc image helper isLazy)
        image.relocation.pltrel flags₁ ps flags y)
      (hend : y = .done ∨ y = x) (htail : ∀ e ∈ ts, e.ref? = none) :
      RunEffect isLazy (rs ++ ds ++ ps ++ ts) flags x

end Run

section Run

variable [CustomHasher]
variable {proc : Process w K}

theorem applyRelro_frame (relro : ELFRelro w) (s : RelocState w K P Q) :
    (Exec.finalState (DynamicImage.applyRelro proc relro s)).trace = s.trace ∧
      (Exec.finalState (DynamicImage.applyRelro proc relro s)).dependencyFlags =
        s.dependencyFlags := by
  unfold DynamicImage.applyRelro
  dsimp only
  split
  · exact ⟨rfl, rfl⟩
  · exact ⟨rfl, rfl⟩

theorem afterPltrel_frame (image : DynamicImage proc.arch) (isLazy : Bool)
    (lazyScope : Option (LazyScope w)) (s : RelocState w K P Q) :
    (Exec.finalState (image.afterPltrel proc isLazy lazyScope s)).trace = s.trace ∧
      (Exec.finalState (image.afterPltrel proc isLazy lazyScope s)).dependencyFlags =
        s.dependencyFlags := by
  unfold DynamicImage.afterPltrel
  cases isLazy with
  | true =>
      cases image.relocation.pltrel.isEmpty with
      | true =>
          cases lazyScope with
          | none => exact ⟨rfl, rfl⟩
          | some scope => exact ⟨rfl, rfl⟩
      | false =>
          cases image.gotPlt with
          | none => exact ⟨rfl, rfl⟩
          | some got =>
              cases lazyScope with
              | none => exact ⟨rfl, rfl⟩
              | some scope => exact ⟨rfl, rfl⟩
  | false =>
      cases image.relro with
      | none => exact ⟨rfl, rfl⟩
      | some relro => exact applyRelro_frame relro s

theorem runEffect_iff {image : DynamicImage proc.arch} {helper : RelocHelper w P Q}
    {isLazy : Bool} {es : List (Event w)} {flags : List Bool} {x : Ending} :
    RunEffect proc image helper isLazy es flags x ↔
      RunOf proc image helper (DynEffect proc image helper) (PltEffect proc image helper isLazy)
        es flags x := by
  constructor
  · intro h
    cases h with
    | relative hrel => exact .relative hrel
    | dynrel hrel hdyn => exact .dynrel hrel hdyn
    | pltrel hrel hdyn hplt hend htail => exact .pltrel hrel hdyn hplt hend htail
  · intro h
    cases h with
    | relative hrel => exact .relative hrel
    | dynrel hrel hdyn => exact .dynrel hrel hdyn
    | pltrel hrel hdyn hplt hend htail => exact .pltrel hrel hdyn hplt hend htail

section Passes

variable {Dyn Plt : Default w} {isLazy : Bool}

theorem relocatePltrel_effect (image : DynamicImage proc.arch) (helper : RelocHelper w P Q)
    (hPlt : HasDefault (image.pltrelDefault proc helper isLazy) Plt)
    (lazyScope : Option (LazyScope w)) (s : RelocState w K P Q) :
    ∃ ps y, Appends s ps (Exec.finalState (image.relocatePltrel proc helper isLazy lazyScope s)) ∧
      LoopEffect proc image helper Plt image.relocation.pltrel s.dependencyFlags ps
        (Exec.finalState (image.relocatePltrel proc helper isLazy lazyScope s)).dependencyFlags y ∧
      (y = .done ∨ y = ending (image.relocatePltrel proc helper isLazy lazyScope s)) := by
  obtain ⟨ps, happ, hplt⟩ := loop_effect image helper hPlt image.relocation.pltrel s
  unfold DynamicImage.relocatePltrel
  cases hloop : image.relocation.pltrel.forM
      (image.relocStep proc helper (image.pltrelDefault proc helper isLazy)) s with
  | error h s₁ =>
      rw [hloop] at happ hplt
      rw [Exec.bind_of_error hloop]
      exact ⟨ps, .stop h, happ, hplt, .inr rfl⟩
  | ok _ s₁ =>
      rw [hloop] at happ hplt
      rw [Exec.bind_of_ok hloop]
      obtain ⟨htrace, hflags⟩ := afterPltrel_frame image isLazy lazyScope s₁
      refine ⟨ps, .done, htrace.trans happ, ?_, .inl rfl⟩
      rw [hflags]
      exact hplt

/-- The passes, from a state whose flags are cleared. -/
theorem passes_effect (image : DynamicImage proc.arch) (helper : RelocHelper w P Q)
    (hDyn : HasDefault (image.dynrelDefault proc helper) Dyn)
    (hPlt : HasDefault (image.pltrelDefault proc helper isLazy) Plt)
    (lazyScope : Option (LazyScope w)) {s : RelocState w K P Q}
    (hs : s.dependencyFlags = List.replicate helper.scope.length false) :
    ∃ es, Appends s es (Exec.finalState (image.passes proc helper isLazy lazyScope s)) ∧
      RunOf proc image helper Dyn Plt es
        (Exec.finalState (image.passes proc helper isLazy lazyScope s)).dependencyFlags
        (ending (image.passes proc helper isLazy lazyScope s)) := by
  unfold DynamicImage.passes
  obtain ⟨rs, happ, hrel, hflags⟩ := relocateRelative_effect image s
  rw [hs] at hflags
  cases h₁ : image.relocateRelative proc s with
  | error h s₁ =>
      rw [h₁] at happ hrel hflags
      rw [Exec.bind_of_error h₁]
      refine ⟨rs, happ, ?_⟩
      rw [hflags]
      exact .relative hrel
  | ok _ s₁ =>
      rw [h₁] at happ hrel hflags
      rw [Exec.bind_of_ok h₁]
      obtain ⟨ds, happ₁, hdyn⟩ := loop_effect image helper hDyn image.relocation.dynrel s₁
      rw [Exec.finalState_ok] at hflags
      rw [hflags] at hdyn
      change Appends s₁ ds (Exec.finalState (image.relocateDynrel proc helper s₁)) at happ₁
      change LoopEffect _ _ _ _ _ _ _
        (Exec.finalState (image.relocateDynrel proc helper s₁)).dependencyFlags
        (ending (image.relocateDynrel proc helper s₁)) at hdyn
      cases h₂ : image.relocateDynrel proc helper s₁ with
      | error h s₂ =>
          rw [h₂] at happ₁ hdyn
          rw [Exec.bind_of_error h₂]
          exact ⟨rs ++ ds, happ.trans happ₁, .dynrel hrel hdyn⟩
      | ok _ s₂ =>
          rw [h₂] at happ₁ hdyn
          rw [Exec.bind_of_ok h₂]
          obtain ⟨ps, y, happ₂, hplt, hend⟩ :=
            relocatePltrel_effect image helper hPlt lazyScope s₂
          cases h₃ : image.relocatePltrel proc helper isLazy lazyScope s₂ with
          | error h s₃ =>
              rw [h₃] at happ₂ hplt hend
              rw [Exec.bind_of_error h₃]
              refine ⟨rs ++ ds ++ ps ++ [], ?_, .pltrel hrel hdyn hplt hend nofun⟩
              rw [List.append_nil]
              exact (happ.trans happ₁).trans happ₂
          | ok _ s₃ =>
              rw [h₃] at happ₂ hplt hend
              rw [Exec.bind_of_ok h₃]
              have hfinish : Appends s₃ [.initCalled image.initFn image.initArray]
                  (Exec.finalState (image.finish proc s₃)) := rfl
              refine ⟨_, ((happ.trans happ₁).trans happ₂).trans hfinish, ?_⟩
              exact .pltrel hrel hdyn hplt hend (by simp [Event.ref?])

end Passes

theorem relocateImpl_of_empty (image : DynamicImage proc.arch) (helper : RelocHelper w P Q)
    (lazy : Option Bool) (lazyScope : Option (SymbolLookup w)) (s : RelocState w K P Q)
    (hempty : image.relocation.isEmpty = true) :
    image.relocateImpl proc helper lazy lazyScope s = .ok (LoadedCore.fromCore image.core) s := by
  unfold DynamicImage.relocateImpl
  rw [if_pos hempty]
  rfl

/-- The result of `relocate_impl` is that of the passes, with the dependencies
of the flags they left. -/
theorem relocateImpl_eq (image : DynamicImage proc.arch) (helper : RelocHelper w P Q)
    (lazy : Option Bool) (lazyScope : Option (SymbolLookup w)) (s : RelocState w K P Q)
    (hempty : image.relocation.isEmpty = false) :
    image.relocateImpl proc helper lazy lazyScope s =
      match image.passes proc helper (lazy.getD image.lazy)
          (image.makeLazyScope proc (lazy.getD image.lazy) helper.scope lazyScope)
          { s with dependencyFlags := List.replicate helper.scope.length false } with
      | .ok _ s' => .ok (LoadedCore.fromCoreDeps image.core
          (image.collectDeps proc helper.scope s'.dependencyFlags)) s'
      | .error h s' => .error h s' := by
  unfold DynamicImage.relocateImpl
  rw [if_neg (by rw [hempty]; exact Bool.false_ne_true), Exec.bind_of_ok (Exec.modify_apply _ s)]
  cases hp : image.passes proc helper (lazy.getD image.lazy)
      (image.makeLazyScope proc (lazy.getD image.lazy) helper.scope lazyScope)
      { s with dependencyFlags := List.replicate helper.scope.length false } with
  | ok _ s' =>
      rw [Exec.bind_of_ok hp]
      rfl
  | error h s' => rw [Exec.bind_of_error hp]

/-- Relocate an image from the start. -/
def DynamicImage.run (proc : Process w K) (image : DynamicImage proc.arch)
    (helper : RelocHelper w P Q) (lazy : Option Bool) (lazyScope : Option (SymbolLookup w))
    (os : OsState w K) (pre : P) (post : Q) :
    EStateM.Result Halt (RelocState w K P Q) (LoadedCore w) :=
  image.relocateImpl proc helper lazy lazyScope (RelocState.start os pre post)

theorem run_of_empty (image : DynamicImage proc.arch) (helper : RelocHelper w P Q)
    (lazy : Option Bool) (lazyScope : Option (SymbolLookup w)) (os : OsState w K) (pre : P)
    (post : Q) (hempty : image.relocation.isEmpty = true) :
    image.run proc helper lazy lazyScope os pre post =
      .ok (LoadedCore.fromCore image.core) (RelocState.start os pre post) :=
  relocateImpl_of_empty image helper lazy lazyScope _ hempty

theorem run_of (image : DynamicImage proc.arch) (helper : RelocHelper w P Q)
    {Dyn Plt : Default w} (lazy : Option Bool)
    (hDyn : HasDefault (image.dynrelDefault (K := K) (P := P) (Q := Q) proc helper) Dyn)
    (hPlt : HasDefault
      (image.pltrelDefault (K := K) (P := P) (Q := Q) proc helper (lazy.getD image.lazy)) Plt)
    (lazyScope : Option (SymbolLookup w)) (os : OsState w K) (pre : P) (post : Q)
    (hempty : image.relocation.isEmpty = false) :
    RunOf proc image helper Dyn Plt
      (Exec.finalState (image.run proc helper lazy lazyScope os pre post)).trace
      (Exec.finalState (image.run proc helper lazy lazyScope os pre post)).dependencyFlags
      (ending (image.run proc helper lazy lazyScope os pre post)) := by
  unfold DynamicImage.run
  rw [relocateImpl_eq image helper lazy lazyScope _ hempty]
  obtain ⟨es, happ, heffect⟩ := passes_effect image helper hDyn hPlt
    (image.makeLazyScope proc (lazy.getD image.lazy) helper.scope lazyScope)
    (s := { RelocState.start os pre post with
      dependencyFlags := List.replicate helper.scope.length false }) rfl
  generalize image.passes proc helper (lazy.getD image.lazy)
      (image.makeLazyScope proc (lazy.getD image.lazy) helper.scope lazyScope)
      { RelocState.start os pre post with
        dependencyFlags := List.replicate helper.scope.length false } = r at happ heffect ⊢
  -- the trace starts empty, so the appended events are the trace
  have htrace : (Exec.finalState r).trace = es := happ
  rw [← htrace] at heffect
  cases r with
  | ok _ s' => exact heffect
  | error h s' => exact heffect

theorem run_effect (image : DynamicImage proc.arch) (helper : RelocHelper w P Q)
    (lazy : Option Bool) (lazyScope : Option (SymbolLookup w)) (os : OsState w K) (pre : P)
    (post : Q) (hempty : image.relocation.isEmpty = false) :
    RunEffect proc image helper (lazy.getD image.lazy)
      (Exec.finalState (image.run proc helper lazy lazyScope os pre post)).trace
      (Exec.finalState (image.run proc helper lazy lazyScope os pre post)).dependencyFlags
      (ending (image.run proc helper lazy lazyScope os pre post)) :=
  runEffect_iff.mpr (run_of image helper lazy (dynrelDefault_effect image helper)
    (pltrelDefault_effect image helper _) lazyScope os pre post hempty)

theorem run_deps (image : DynamicImage proc.arch) (helper : RelocHelper w P Q)
    (lazy : Option Bool) (lazyScope : Option (SymbolLookup w)) (os : OsState w K) (pre : P)
    (post : Q) (hempty : image.relocation.isEmpty = false) {core : LoadedCore w}
    {s' : RelocState w K P Q}
    (hrun : image.run proc helper lazy lazyScope os pre post = .ok core s') :
    core.deps = image.collectDeps proc helper.scope s'.dependencyFlags := by
  unfold DynamicImage.run at hrun
  rw [relocateImpl_eq image helper lazy lazyScope _ hempty] at hrun
  split at hrun
  · cases hrun
    rfl
  · cases hrun

end Run

/-! ## What a run did for one entry -/

section Entries

variable [CustomHasher]
variable {proc : Process w K} {image : DynamicImage proc.arch} {helper : RelocHelper w P Q}
variable {isLazy : Bool} {es : List (Event w)} {flags : List Bool} {x : Ending}

theorem DynamicImage.distinct (image : DynamicImage proc.arch) : image.relocation.Distinct :=
  DynamicRelocation.new_distinct image.relocation_eq

theorem RelativeEffect.about {refs : List (RelRef w)} (h : RelativeEffect proc image refs es) :
    ∀ e ∈ es, ∃ ref ∈ refs, e.ref? = some ref := by
  induction h with
  | nil => nofun
  | cons _ ih =>
      intro e he
      rcases List.mem_cons.mp he with rfl | he
      · exact ⟨_, List.mem_cons_self, rfl⟩
      · obtain ⟨ref, href, heq⟩ := ih e he
        exact ⟨ref, List.mem_cons_of_mem _ href, heq⟩

theorem RelativeEffect.events_of {refs : List (RelRef w)}
    (h : RelativeEffect proc image refs es) (hnodup : refs.Nodup) {ref : RelRef w}
    (href : ref ∈ refs) :
    ∃ m, eventsOf ref es = [.stored ref m (image.core.base + ref.rel.rOffset)
      (image.core.base + ref.rel.addend proc.arch image.core.base m)] := by
  induction h with
  | nil => cases href
  | @cons r refs m es htail ih =>
      obtain ⟨hhead, hrest⟩ := List.nodup_cons.mp hnodup
      rw [← List.singleton_append, eventsOf_append]
      rcases List.mem_cons.mp href with rfl | hmem
      · refine ⟨m, ?_⟩
        rw [eventsOf_of_about (by simp [About, Event.ref?]), eventsOf_eq_nil, List.append_nil]
        intro e he heq
        obtain ⟨r, hr, heq'⟩ := htail.about e he
        rw [heq'] at heq
        cases heq
        exact hhead hr
      · obtain ⟨m', heq⟩ := ih hrest hmem
        refine ⟨m', ?_⟩
        rw [heq, eventsOf_eq_nil, List.nil_append]
        intro e he heq
        rw [List.mem_singleton.mp he] at heq
        cases heq
        exact hhead hmem

/-- The relative pass says nothing about an entry outside its part. -/
theorem RelativePass.eventsOf_eq_nil {relative : RelativeRel w}
    (h : RelativePass proc image relative es x) {ref : RelRef w}
    (href : ∀ rels, relative = .rel rels → ref ∉ rels) : eventsOf ref es = [] := by
  refine ElfLoader.eventsOf_eq_nil fun e he heq => ?_
  cases h with
  | rel _ heffect =>
      obtain ⟨r, hr, heq'⟩ := heffect.about e he
      rw [heq'] at heq
      cases heq
      exact href _ rfl hr
  | refused => cases he
  | relr hes =>
      rw [hes e he] at heq
      cases heq

theorem LoopEffect.eventsOf_eq_nil {D : Default w} (hD : D.Local) {refs : List (RelRef w)}
    {flags flags' : List Bool} (h : LoopEffect proc image helper D refs flags es flags' x)
    {ref : RelRef w} (href : ref ∉ refs) : eventsOf ref es = [] := by
  refine ElfLoader.eventsOf_eq_nil fun e he heq => href ?_
  obtain ⟨r, hr, heq'⟩ := h.about hD e he
  rw [heq'] at heq
  cases heq
  exact hr

theorem dynEffect_local : Default.Local (DynEffect proc image helper) :=
  DynEffect.about

theorem pltEffect_local : Default.Local (PltEffect proc image helper isLazy) :=
  PltEffect.about

section Run

variable {Dyn Plt : Default w}

/-- A run says nothing about an entry that is in no part. -/
theorem RunOf.eventsOf_eq_nil (h : RunOf proc image helper Dyn Plt es flags x)
    (hD : Dyn.Local) (hP : Plt.Local) {ref : RelRef w}
    (hrelative : ∀ rels, image.relocation.relative = .rel rels → ref ∉ rels)
    (hdynrel : ref ∉ image.relocation.dynrel) (hpltrel : ref ∉ image.relocation.pltrel) :
    eventsOf ref es = [] := by
  cases h with
  | relative hrel => exact hrel.eventsOf_eq_nil hrelative
  | dynrel hrel hdyn =>
      rw [eventsOf_append, hrel.eventsOf_eq_nil hrelative,
        hdyn.eventsOf_eq_nil hD hdynrel, List.append_nil]
  | pltrel hrel hdyn hplt _ htail =>
      rw [eventsOf_append, eventsOf_append, eventsOf_append, hrel.eventsOf_eq_nil hrelative,
        hdyn.eventsOf_eq_nil hD hdynrel,
        hplt.eventsOf_eq_nil hP hpltrel, eventsOf_of_none htail, List.append_nil,
        List.append_nil, List.append_nil]

/-- What a run did for an entry of the second part of the table: nothing, when
it stopped earlier, or exactly one iteration. -/
theorem RunOf.events_of_dynrel (h : RunOf proc image helper Dyn Plt es flags x)
    (hD : Dyn.Local) (hP : Plt.Local) {ref : RelRef w} (href : ref ∈ image.relocation.dynrel) :
    (eventsOf ref es = [] ∧ x ≠ .done) ∨
      ∃ flags₁ flags₂ y, StepEffect proc image helper Dyn ref flags₁
          (eventsOf ref es) flags₂ y ∧ (y ≠ .done → x = y) := by
  have hrelative : ∀ rels, image.relocation.relative = .rel rels → ref ∉ rels :=
    fun rels hrels hmem => image.distinct.relative_dyn rels hrels ref hmem href
  have hplt : ref ∉ image.relocation.pltrel :=
    image.distinct.not_mem_plt (image.distinct.dyn_table ref href)
  cases h with
  | relative hrel => exact .inl ⟨hrel.eventsOf_eq_nil hrelative, nofun⟩
  | dynrel hrel hdyn =>
      rw [eventsOf_append, hrel.eventsOf_eq_nil hrelative, List.nil_append]
      exact hdyn.events_of hD image.distinct.dyn_nodup href
  | pltrel hrel hdyn hloop _ htail =>
      rw [eventsOf_append, eventsOf_append, eventsOf_append, hrel.eventsOf_eq_nil hrelative,
        hloop.eventsOf_eq_nil hP hplt, eventsOf_of_none htail, List.nil_append,
        List.append_nil, List.append_nil]
      rcases hdyn.events_of hD image.distinct.dyn_nodup href with
        ⟨-, hne⟩ | ⟨flags₁, flags₂, y, hstep, hy⟩
      · exact absurd rfl hne
      · refine .inr ⟨flags₁, flags₂, y, hstep, fun hne => ?_⟩
        exact absurd (hy hne).symm hne

/-- What a run did for an entry of the PLT table. -/
theorem RunOf.events_of_pltrel (h : RunOf proc image helper Dyn Plt es flags x)
    (hD : Dyn.Local) (hP : Plt.Local) {ref : RelRef w} (href : ref ∈ image.relocation.pltrel) :
    (eventsOf ref es = [] ∧ x ≠ .done) ∨
      ∃ flags₁ flags₂ y, StepEffect proc image helper Plt ref
          flags₁ (eventsOf ref es) flags₂ y ∧ (y ≠ .done → x = y) := by
  have hrelative : ∀ rels, image.relocation.relative = .rel rels → ref ∉ rels :=
    fun rels hrels hmem =>
      image.distinct.not_mem_plt (image.distinct.relative_table rels hrels ref hmem) href
  have hdynrel : ref ∉ image.relocation.dynrel :=
    fun hmem => image.distinct.not_mem_plt (image.distinct.dyn_table ref hmem) href
  cases h with
  | relative hrel => exact .inl ⟨hrel.eventsOf_eq_nil hrelative, nofun⟩
  | dynrel hrel hdyn =>
      rw [eventsOf_append, hrel.eventsOf_eq_nil hrelative,
        hdyn.eventsOf_eq_nil hD hdynrel]
      exact .inl ⟨rfl, nofun⟩
  | pltrel hrel hdyn hloop hend htail =>
      rw [eventsOf_append, eventsOf_append, eventsOf_append, hrel.eventsOf_eq_nil hrelative,
        hdyn.eventsOf_eq_nil hD hdynrel, eventsOf_of_none htail, List.nil_append,
        List.nil_append, List.append_nil]
      rcases hloop.events_of hP image.distinct.plt_nodup href with
        ⟨hnil, hne⟩ | ⟨flags₁, flags₂, y, hstep, hy⟩
      · rcases hend with rfl | rfl
        · exact absurd rfl hne
        · exact .inl ⟨hnil, hne⟩
      · refine .inr ⟨flags₁, flags₂, y, hstep, fun hne => ?_⟩
        rcases hend with rfl | rfl
        · exact absurd (hy hne).symm hne
        · exact hy hne

end Run

theorem RunEffect.eventsOf_eq_nil (h : RunEffect proc image helper isLazy es flags x)
    {ref : RelRef w} (hrelative : ∀ rels, image.relocation.relative = .rel rels → ref ∉ rels)
    (hdynrel : ref ∉ image.relocation.dynrel) (hpltrel : ref ∉ image.relocation.pltrel) :
    eventsOf ref es = [] :=
  (runEffect_iff.mp h).eventsOf_eq_nil dynEffect_local pltEffect_local hrelative hdynrel hpltrel

theorem RunEffect.events_of_dynrel (h : RunEffect proc image helper isLazy es flags x)
    {ref : RelRef w} (href : ref ∈ image.relocation.dynrel) :
    (eventsOf ref es = [] ∧ x ≠ .done) ∨
      ∃ flags₁ flags₂ y, StepEffect proc image helper (DynEffect proc image helper) ref flags₁
          (eventsOf ref es) flags₂ y ∧ (y ≠ .done → x = y) :=
  (runEffect_iff.mp h).events_of_dynrel dynEffect_local pltEffect_local href

theorem RunEffect.events_of_pltrel (h : RunEffect proc image helper isLazy es flags x)
    {ref : RelRef w} (href : ref ∈ image.relocation.pltrel) :
    (eventsOf ref es = [] ∧ x ≠ .done) ∨
      ∃ flags₁ flags₂ y, StepEffect proc image helper (PltEffect proc image helper isLazy) ref
          flags₁ (eventsOf ref es) flags₂ y ∧ (y ≠ .done → x = y) :=
  (runEffect_iff.mp h).events_of_pltrel dynEffect_local pltEffect_local href

end Entries

section Sample

attribute [local instance] constantHasher

/-- A process whose memory calls succeed and change nothing. -/
def sampleProcess : Process 64 Unit where
  arch := .x86_64
  mmap :=
    { mmap := fun _ _ _ _ _ _ => pure (0, false)
      mmapAnonymous := fun _ _ _ _ => pure 0
      munmap := fun _ _ => pure ()
      mprotect := fun _ _ _ => pure ()
      mmapReserve := fun _ _ _ => pure 0 }
  ifunc := id
  dlRuntimeResolve := 0x5000
  coreAddr := fun _ => 0x6000

/-- Relocation with the handlers and lookups `()`. -/
def plainHelper (scope : List (LoadedCore 64)) : RelocHelper 64 Unit Unit where
  scope := scope
  preFind := fun _ => none
  postFind := fun _ => none
  preHandler := ⟨fun _ => pure none⟩
  postHandler := ⟨fun _ => pure none⟩

/-- A jump slot at `0x900` for symbol 1. -/
def slotRef : RelRef 64 := ⟨.plt, 0, ⟨0x900, 0x100000007, 0⟩⟩

/-- An image whose `DT_JMPREL` table is one jump slot for `f`. -/
def slotImage (core : ElfCore 64) : DynamicImage sampleProcess.arch where
  core
  lazy := false
  gotPlt := some 0x10a00
  tables :=
    { pltrel := some ⟨0x10800, [slotRef.rel]⟩
      dynrel := none
      relr := none
      relCount := none }
  relro := none
  initFn := none
  initArray := none
  neededLibs := [[108]]
  relocation :=
    { relative := .rel []
      pltrel := [slotRef]
      dynrel := [] }
  relocation_eq := rfl

/-- A module that refers to `f` without defining it. -/
def refersToF : ElfCore 64 := sampleCore 1 stbGlobal 0 0

def emptyMemory : OsState 64 Unit := ⟨fun _ => 0, ()⟩

end Sample

end ElfLoader
