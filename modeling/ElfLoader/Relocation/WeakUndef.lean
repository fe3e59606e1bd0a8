import ElfLoader.Relocation.Eager
import ElfLoader.Relocation.Resolution

/-! # Undefined weak symbols

`find_weak` gives a weak symbol that nobody defines a definition without a
symbol. The arms that ask for an address make 0 of it, those that ask for the
definition unwrap its symbol; and `find_weak` itself asserts that the value of
the entry is 0.
-/

namespace ElfLoader

open Exec

variable {w : Nat} {K P Q : Type}

section Weak

variable [CustomHasher]
variable (proc : Process w K) (image : DynamicImage proc.arch) (helper : RelocHelper w P Q)

/-- The symbol of the entry is weak and undefined, and no library of the scope
defines it. -/
structure WeakUndefined (ref : RelRef w) (sym : SymRef w) (info : SymbolInfo) : Prop where
  entry : image.core.symtab.symbolIdx ref.rel.rSymbol = .ok (sym, info)
  weak : sym.sym.isWeak = true
  undef : sym.sym.isUndef = true
  absent : ∀ lib ∈ helper.scope, lib.symtab.provided info = .ok none

/-- The address of the symbol is found without the assertion. -/
def Addressed (sym : SymRef w) (info : SymbolInfo) : Prop :=
  helper.preFind info.name ≠ none ∨ sym.sym.stValue = 0

/-- The default logic copes with the entry: it asks for no more than an address,
and the assertion holds or is not reached. -/
def Copes (ref : RelRef w) (sym : SymRef w) (info : SymbolInfo) : Prop :=
  (ref ∈ image.relocation.dynrel →
    ref.rel.rType ∉ [proc.arch.relDtpoff, proc.arch.relCopy] ∧
      (ref.rel.rType ∈ [proc.arch.relGot, proc.arch.relSymbolic] → Addressed helper sym info)) ∧
  (ref ∈ image.relocation.pltrel → ref.rel.rType = proc.arch.relJumpSlot →
    Addressed helper sym info)

/-- `Err` is returned. -/
def ReturnsErr (r : EStateM.Result Halt (RelocState w K P Q) (LoadedCore w)) : Prop :=
  ∃ e s', r = .error (.err e) s'

/-- An entry that the pre handler leaves to the default logic has a value stored
or is offered to the post handler, or `Err` is returned; and when the post handler
declines the entry, `Err` is returned. So the default logic does not panic at it. -/
structure StoredOrErr (ref : RelRef w)
    (r : EStateM.Result Halt (RelocState w K P Q) (LoadedCore w)) : Prop where
  settled : .answered .pre ref none ∈ (finalState r).trace →
    (∃ m a v, .stored ref m a v ∈ (finalState r).trace) ∨
      .asked .post ref ∈ (finalState r).trace ∨ ReturnsErr r
  refused : .answered .post ref none ∈ (finalState r).trace → ReturnsErr r

/-- What the default logic can make of such an entry. -/
inductive WeakEffect (copes : Prop) (ref : RelRef w) : List (Event w) → Verdict → Prop
  | stored {m a v} (h : copes) : WeakEffect copes ref [.stored ref m a v] .taken
  | declined (h : copes) : WeakEffect copes ref [] .declined
  | panics {m} (hn : ¬ copes) : WeakEffect copes ref [] (.stop (.panic m))

end Weak

section Known

variable {copes : Prop} {ref : RelRef w}

/-- What is known of a default logic: its events are about its entry, and what it
makes of `ref`. -/
def Knows (copes : Prop) (ref : RelRef w) : Default w := fun r _ es _ v =>
  About r es ∧ (r = ref → WeakEffect copes ref es v)

theorem knows_local : Default.Local (Knows copes ref) := fun h => h.1

theorem WeakEffect.about {es : List (Event w)} {v : Verdict} (h : WeakEffect copes ref es v) :
    About ref es := by
  cases h <;> simp [About, Event.ref?]

theorem AskEffect.not_unhandled {stage : Stage} {r : RelRef w} {flags flags' : List Bool}
    {es : List (Event w)} {v : Verdict} (h : AskEffect stage r flags es flags' v) :
    .unhandled ref ∉ es := by
  cases h <;> simp

end Known

section Search

variable [CustomHasher]
variable {proc : Process w K} {image : DynamicImage proc.arch} {helper : RelocHelper w P Q}
variable {ref : RelRef w} {sym : SymRef w} {info : SymbolInfo}

namespace WeakUndefined

theorem findSymdefImpl_eq (h : WeakUndefined proc image helper ref sym info) :
    findSymdefImpl image.core helper.scope sym info =
      if sym.sym.stValue = 0 then .ok (some ({ sym := none, lib := image.core }, none))
      else .error (.panic "assertion failed: dynsym.st_value() == 0") := by
  have hlocal : sym.sym.isLocal = false := by
    have hweak := h.weak
    simp only [ElfSymbol.isWeak, ElfSymbol.isLocal, decide_eq_true_eq] at hweak ⊢
    rw [hweak]
    rfl
  rw [findSymdefImpl_of_none image.core hlocal (firstProvider_eq_none_iff.mpr h.absent),
    findWeak_of_undef h.weak h.undef]
  split
  · rfl
  · rfl

theorem findDef_eq (h : WeakUndefined proc image helper ref sym info) :
    image.findDef proc helper ref =
      if sym.sym.stValue = 0 then .ok (some ({ sym := none, lib := image.core }, none))
      else .error (.panic "assertion failed: dynsym.st_value() == 0") := by
  rw [← h.findSymdefImpl_eq]
  exact findSymdef_eq h.entry

/-- An address is found, or the search panics. -/
theorem findAddr_cases (h : WeakUndefined proc image helper ref sym info) :
    (Addressed helper sym info ∧ ∃ v, image.findAddr proc helper ref = .ok (some (v, none))) ∨
      ¬ Addressed helper sym info ∧ ∃ m, image.findAddr proc helper ref = .error (.panic m) := by
  unfold Addressed DynamicImage.findAddr
  cases hpre : helper.preFind info.name with
  | some a => exact .inl ⟨.inl (by simp), a, findSymbolAddr_of_pre h.entry hpre⟩
  | none =>
      rw [findSymbolAddr_of_no_pre h.entry hpre, h.findSymdefImpl_eq]
      by_cases hzero : sym.sym.stValue = 0
      · rw [if_pos hzero]
        exact .inl ⟨.inr hzero, _, rfl⟩
      · rw [if_neg hzero]
        exact .inr ⟨fun h => h.elim (fun hne => hne rfl) hzero, _, rfl⟩

end WeakUndefined

/-! ### The default logic -/

variable {copes : Prop} {s : RelocState w K P Q}

theorem dynrelDefault_weak (h : WeakUndefined proc image helper ref sym info)
    (hty : ref.rel.rType ∈ proc.arch.symbolTypes)
    (hcopes : copes ↔ ref.rel.rType ∉ [proc.arch.relDtpoff, proc.arch.relCopy] ∧
      (ref.rel.rType ∈ [proc.arch.relGot, proc.arch.relSymbolic] → Addressed helper sym info)) :
    DefaultRun (fun r _ es _ v => WeakEffect copes r es v) ref s
      (image.dynrelDefault proc helper ref s) := by
  simp only [List.mem_cons, List.not_mem_nil, or_false, not_or] at hcopes
  unfold DynamicImage.dynrelDefault
  rw [bind_of_ok (get_apply s)]
  by_cases haddr : ref.rel.rType = proc.arch.relGot ∨ ref.rel.rType = proc.arch.relSymbolic
  · have hne := proc.arch.addr_type_ne haddr
    rw [if_pos haddr]
    rcases h.findAddr_cases with ⟨haddressed, v, hfind⟩ | ⟨hnot, m, hfind⟩
    · have hc : copes := hcopes.mpr ⟨⟨hne.2.2.2.1, hne.2.2.2.2.2⟩, fun _ => haddressed⟩
      rw [hfind, bind_of_ok (lift_ok _ s)]
      exact ⟨_, rfl, .stored hc⟩
    · rw [hfind]
      exact .nothing rfl (.panics fun hc => hnot ((hcopes.mp hc).2 haddr))
  rw [if_neg haddr]
  by_cases htls : ref.rel.rType = proc.arch.relDtpoff
  · have hnot : ¬ copes := fun hc => (hcopes.mp hc).1.1 htls
    rw [if_pos htls, h.findDef_eq]
    by_cases hzero : sym.sym.stValue = 0
    · rw [if_pos hzero]
      exact .nothing rfl (.panics hnot)
    · rw [if_neg hzero]
      exact .nothing rfl (.panics hnot)
  rw [if_neg htls]
  by_cases hcopy : ref.rel.rType = proc.arch.relCopy
  · have hnot : ¬ copes := fun hc => (hcopes.mp hc).1.2 hcopy
    rw [if_pos hcopy, h.findDef_eq]
    by_cases hzero : sym.sym.stValue = 0
    · rw [if_pos hzero, bind_of_ok (lift_ok _ s)]
      dsimp only
      rw [h.entry, bind_of_ok (lift_ok _ s)]
      exact .nothing rfl (.panics hnot)
    · rw [if_neg hzero]
      exact .nothing rfl (.panics hnot)
  rw [if_neg hcopy]
  -- a jump slot in this table is left to the post handler
  have hother := proc.arch.not_mem_symbolTypes
  have hirel : ref.rel.rType ≠ proc.arch.relIrelative := fun heq => hother.2.2 (heq ▸ hty)
  have hnone : ref.rel.rType ≠ relNone := fun heq => hother.1 (heq ▸ hty)
  rw [if_neg hirel, if_neg hnone]
  exact .nothing rfl (.declined (hcopes.mpr ⟨⟨htls, hcopy⟩, fun h => absurd h haddr⟩))

theorem pltrelDefault_weak (h : WeakUndefined proc image helper ref sym info)
    (hty : ref.rel.rType ∈ proc.arch.symbolTypes)
    (hcopes : copes ↔ (ref.rel.rType = proc.arch.relJumpSlot → Addressed helper sym info)) :
    DefaultRun (fun r _ es _ v => WeakEffect copes r es v) ref s
      (image.pltrelDefault proc helper false ref s) := by
  unfold DynamicImage.pltrelDefault
  rw [bind_of_ok (get_apply s)]
  by_cases hslot : ref.rel.rType = proc.arch.relJumpSlot
  · rw [if_pos hslot, if_neg Bool.false_ne_true]
    rcases h.findAddr_cases with ⟨haddressed, v, hfind⟩ | ⟨hnot, m, hfind⟩
    · rw [hfind, bind_of_ok (lift_ok _ s)]
      exact ⟨_, rfl, .stored (hcopes.mpr fun _ => haddressed)⟩
    · rw [hfind]
      exact .nothing rfl (.panics fun hc => hnot (hcopes.mp hc hslot))
  · have hirel : ref.rel.rType ≠ proc.arch.relIrelative :=
      fun heq => proc.arch.not_mem_symbolTypes.2.2 (heq ▸ hty)
    rw [if_neg hslot, if_neg hirel]
    exact .nothing rfl (.declined (hcopes.mpr fun h => absurd h hslot))

theorem HasDefault.knows {default : RelRef w → Reloc w K P Q Bool} {D : Default w}
    (h : HasDefault default D) (hD : D.Local)
    (hweak : ∀ s, DefaultRun (fun r _ es _ v => WeakEffect copes r es v) ref s (default ref s)) :
    HasDefault default (Knows copes ref) := by
  intro r s
  by_cases hr : r = ref
  · subst hr
    obtain ⟨ds, happ, heffect⟩ := hweak s
    exact ⟨ds, happ, heffect.about, fun _ => heffect⟩
  · obtain ⟨ds, happ, heffect⟩ := h r s
    exact ⟨ds, happ, hD heffect, fun heq => absurd heq hr⟩

/-! ### Iterations -/

/-- What an iteration of the entry did, when the pre handler left it to the
default logic. -/
theorem StepEffect.weak {flags flags' : List Bool} {es : List (Event w)} {x : Ending}
    (h : StepEffect proc image helper (Knows copes ref) ref flags es flags' x)
    (hmem : .answered .pre ref none ∈ es) :
    copes ∧ ((∃ m a v, .stored ref m a v ∈ es) ∨ .asked .post ref ∈ es) ∨
      ¬ copes ∧ (∀ m a v, .stored ref m a v ∉ es) ∧ .asked .post ref ∉ es ∧
        ∃ msg, x = .stop (.panic msg) := by
  cases h with
  | pre hpre => cases (hpre.answered_none hmem).2
  | preStop hpre => cases (hpre.answered_none hmem).2
  | taken hpre hdef =>
      cases hdef.2 rfl with
      | stored hc =>
          exact .inl ⟨hc, .inl ⟨_, _, _, List.mem_append_right _ List.mem_cons_self⟩⟩
  | defaultStop hpre hdef =>
      cases hdef.2 rfl with
      | panics hn =>
          rw [List.append_nil]
          refine .inr ⟨hn, fun m a v hstored => ?_, fun hasked => ?_, _, rfl⟩
          · cases hpre
            simp at hstored
          · cases hpre.asked_stage hasked
  | offered hpre hdef hpost =>
      cases hdef.2 rfl with
      | declined hc =>
          refine .inl ⟨hc, .inr (List.mem_append_right _ ?_)⟩
          cases hpost with
          | taken hpost => exact hpost.asked
          | stop hpost => exact hpost.asked
          | unhandled hpost _ => exact List.mem_append_left _ hpost.asked

/-- When the post handler declines the entry, the iteration says so. -/
theorem StepEffect.unhandled {flags flags' : List Bool} {es : List (Event w)} {x : Ending}
    (h : StepEffect proc image helper (Knows copes ref) ref flags es flags' x)
    (hmem : .answered .post ref none ∈ es) : .unhandled ref ∈ es := by
  have hdefault : ∀ {ds v}, WeakEffect copes ref ds v → .answered .post ref none ∉ ds := by
    intro ds v hdef
    cases hdef <;> simp
  cases h with
  | pre hpre => cases (hpre.answered_none hmem).1
  | preStop hpre => cases (hpre.answered_none hmem).1
  | taken hpre hdef =>
      rcases List.mem_append.mp hmem with hmem | hmem
      · cases (hpre.answered_none hmem).1
      · exact absurd hmem (hdefault (hdef.2 rfl))
  | defaultStop hpre hdef =>
      rcases List.mem_append.mp hmem with hmem | hmem
      · cases (hpre.answered_none hmem).1
      · exact absurd hmem (hdefault (hdef.2 rfl))
  | offered hpre hdef hpost =>
      rcases List.mem_append.mp hmem with hmem | hmem
      · rcases List.mem_append.mp hmem with hmem | hmem
        · cases (hpre.answered_none hmem).1
        · exact absurd hmem (hdefault (hdef.2 rfl))
      · cases hpost with
        | taken hpost => cases (hpost.answered_none hmem).2
        | stop hpost => cases (hpost.answered_none hmem).2
        | unhandled hpost _ => simp

/-! ### A refused entry is an error -/

theorem DynEffect.not_unhandled {r : RelRef w} {flags flags' : List Bool}
    {es : List (Event w)} {v : Verdict} (h : DynEffect proc image helper r flags es flags' v) :
    .unhandled ref ∉ es := by
  cases h <;> simp

theorem PltEffect.not_unhandled {isLazy : Bool} {r : RelRef w} {flags flags' : List Bool}
    {es : List (Event w)} {v : Verdict}
    (h : PltEffect proc image helper isLazy r flags es flags' v) : .unhandled ref ∉ es := by
  cases h <;> simp

/-- The run has recorded that nobody took the entry. -/
def Refused (ref : RelRef w) (s : RelocState w K P Q) : Prop := .unhandled ref ∈ s.trace

theorem surfaces_of_appends {α : Type} {x : Reloc w K P Q α}
    (h : ∀ s, ∃ es, Appends s es (finalState (x s)) ∧ .unhandled ref ∉ es) :
    Surfaces (Refused ref) Halt.IsErr x := by
  refine .of_frame fun s => ?_
  obtain ⟨es, happ, hes⟩ := h s
  unfold Refused
  rw [happ, List.mem_append]
  exact or_iff_left hes

theorem offerPost_surfaces (h : ∃ own, image.core.symtab.symbolIdx ref.rel.rSymbol = .ok own)
    (r : RelRef w) :
    Surfaces (Refused ref) Halt.IsErr
      (image.offerPost proc helper r : Reloc w K P Q Unit) := by
  unfold DynamicImage.offerPost
  refine Surfaces.bind ?_ fun opened => Surfaces.ite ?_ (.pure ())
  · refine surfaces_of_appends fun s => ?_
    obtain ⟨es, happ, hask⟩ := handlePost_effect helper
      { rel := r, lib := image.core, scope := helper.scope } s
    exact ⟨es, happ, hask.not_unhandled⟩
  · -- the entry is recorded and the error is thrown at once
    have hrun : ∀ s : RelocState w K P Q, ∃ x, (Reloc.record (.unhandled r) >>= fun _ =>
        Exec.lift (relocError proc.arch r.rel "Unhandled relocation" image.core) >>= fun e =>
          (throw (.err e) : Reloc w K P Q Unit)) s = .error x (s.push (.unhandled r)) ∧
        (r = ref → x.IsErr) := by
      intro s
      cases he : relocError proc.arch r.rel "Unhandled relocation" image.core with
      | ok e => exact ⟨.err e, rfl, fun _ => ⟨e, rfl⟩⟩
      | error x =>
          refine ⟨x, rfl, fun hr => ?_⟩
          obtain ⟨own, hown⟩ := h
          rw [hr, relocError, hown] at he
          split at he <;> cases he
    refine ⟨fun s hs => ?_, fun {s a s'} hs hok => ?_, fun {s e s'} hs herr hF => ?_⟩
    · obtain ⟨x, heq, -⟩ := hrun s
      rw [heq]
      exact List.mem_append_left _ hs
    · obtain ⟨x, heq, -⟩ := hrun s
      rw [heq] at hok
      cases hok
    · obtain ⟨x, heq, hx⟩ := hrun s
      rw [heq] at herr
      cases herr
      rcases List.mem_append.mp hF with hF | hF
      · exact absurd hF hs
      · rw [List.mem_singleton, Event.unhandled.injEq] at hF
        exact hx hF.symm

theorem relocStep_surfaces (h : ∃ own, image.core.symtab.symbolIdx ref.rel.rSymbol = .ok own)
    {default : RelRef w → Reloc w K P Q Bool} (r : RelRef w)
    (hdefault : Surfaces (Refused ref) Halt.IsErr (default r)) :
    Surfaces (Refused ref) Halt.IsErr (image.relocStep proc helper default r) := by
  unfold DynamicImage.relocStep
  refine Surfaces.bind ?_ fun _ => Surfaces.ite (Surfaces.bind hdefault fun _ =>
    Surfaces.ite (.pure ()) (offerPost_surfaces h r)) (.pure ())
  refine surfaces_of_appends fun s => ?_
  obtain ⟨es, happ, hask⟩ := handlePre_effect helper
    { rel := r, lib := image.core, scope := helper.scope } s
  exact ⟨es, happ, hask.not_unhandled⟩

variable (helper) in
theorem passes_surfaces (h : ∃ own, image.core.symtab.symbolIdx ref.rel.rSymbol = .ok own)
    (hrelative : ∀ rels, image.relocation.relative = .rel rels → ref ∉ rels) (isLazy : Bool)
    (lazyScope : Option (LazyScope w)) :
    Surfaces (Refused ref) Halt.IsErr
      (image.passes proc helper isLazy lazyScope : Reloc w K P Q Unit) := by
  unfold DynamicImage.passes
  refine Surfaces.bind ?_ fun _ => Surfaces.bind ?_ fun _ => Surfaces.bind ?_ fun _ => ?_
  · refine surfaces_of_appends fun s => ?_
    obtain ⟨es, happ, hpass, -⟩ := relocateRelative_effect image s
    refine ⟨es, happ, fun hmem => ?_⟩
    have hnil := hpass.eventsOf_eq_nil hrelative
    have hmem : .unhandled ref ∈ eventsOf ref es := mem_eventsOf.mpr ⟨hmem, rfl⟩
    rw [hnil] at hmem
    cases hmem
  · refine Surfaces.forM fun r _ => relocStep_surfaces h r (surfaces_of_appends fun s => ?_)
    obtain ⟨es, happ, hdyn⟩ := dynrelDefault_effect image helper r s
    exact ⟨es, happ, hdyn.not_unhandled⟩
  · unfold DynamicImage.relocatePltrel
    refine Surfaces.bind (Surfaces.forM fun r _ => relocStep_surfaces h r
      (surfaces_of_appends fun s => ?_)) fun _ => surfaces_of_appends fun s => ?_
    · obtain ⟨es, happ, hplt⟩ := pltrelDefault_effect image helper isLazy r s
      exact ⟨es, happ, hplt.not_unhandled⟩
    · refine ⟨[], ?_, List.not_mem_nil⟩
      unfold Appends
      rw [(afterPltrel_frame image isLazy lazyScope s).1, List.append_nil]
  · exact surfaces_of_appends fun s => ⟨[.initCalled image.initFn image.initArray], rfl, by simp⟩

variable (helper) in
theorem run_refused (h : ∃ own, image.core.symtab.symbolIdx ref.rel.rSymbol = .ok own)
    (hrelative : ∀ rels, image.relocation.relative = .rel rels → ref ∉ rels)
    (lazy : Option Bool) (lazyScope : Option (SymbolLookup w)) (os : OsState w K) (pre : P)
    (post : Q)
    (hmem : .unhandled ref ∈
      (finalState (image.run proc helper lazy lazyScope os pre post)).trace) :
    ∃ e s', image.run proc helper lazy lazyScope os pre post = .error (.err e) s' := by
  cases hempty : image.relocation.isEmpty with
  | true =>
      rw [run_of_empty image helper lazy lazyScope os pre post hempty] at hmem
      cases hmem
  | false =>
      unfold DynamicImage.run at hmem ⊢
      rw [relocateImpl_eq image helper lazy lazyScope _ hempty] at hmem ⊢
      have hpasses := passes_surfaces helper h hrelative (lazy.getD image.lazy)
        (image.makeLazyScope proc (lazy.getD image.lazy) helper.scope lazyScope)
      generalize hs : ({ RelocState.start os pre post with
        dependencyFlags := List.replicate helper.scope.length false } : RelocState w K P Q) = s at *
      have hstart : ¬ Refused ref s := by
        rw [← hs]
        exact List.not_mem_nil
      have hF : Refused ref (finalState (image.passes proc helper (lazy.getD image.lazy)
          (image.makeLazyScope proc (lazy.getD image.lazy) helper.scope lazyScope) s)) := by
        cases hrun : image.passes proc helper (lazy.getD image.lazy)
            (image.makeLazyScope proc (lazy.getD image.lazy) helper.scope lazyScope) s with
        | ok u s' =>
            rw [hrun] at hmem
            exact hmem
        | error x s' =>
            rw [hrun] at hmem
            exact hmem
      obtain ⟨x, s', heq, e, rfl⟩ := hpasses.stops hstart hF
      rw [heq]
      exact ⟨e, s', rfl⟩

/-- An undefined weak symbol is settled, by a stored value or by `Err`, exactly
when the default logic copes with the entry or does not get to see it. -/
theorem weak_settled_iff (image : DynamicImage proc.arch) (helper : RelocHelper w P Q)
    (lazyScope : Option (SymbolLookup w)) (os : OsState w K) (pre : P) (post : Q)
    (href : ref ∈ image.relocation.dynrel ∨ ref ∈ image.relocation.pltrel)
    (hty : ref.rel.rType ∈ proc.arch.symbolTypes)
    (h : WeakUndefined proc image helper ref sym info) :
    StoredOrErr ref (image.run proc helper (some false) lazyScope os pre post) ↔
      (.answered .pre ref none ∈
          (finalState (image.run proc helper (some false) lazyScope os pre post)).trace →
        Copes proc image helper ref sym info) := by
  have hnonempty : image.relocation.isEmpty = false := by
    cases hempty : image.relocation.isEmpty with
    | false => rfl
    | true =>
        unfold DynamicRelocation.isEmpty at hempty
        simp only [Bool.and_eq_true, List.isEmpty_iff] at hempty
        rw [hempty.1.2, hempty.2] at href
        simp at href
  have hrelative : ∀ rels, image.relocation.relative = .rel rels → ref ∉ rels := by
    intro rels hrels hmem
    rcases href with href | href
    · exact image.distinct.relative_dyn rels hrels ref hmem href
    · exact image.distinct.not_mem_plt (image.distinct.relative_table rels hrels ref hmem) href
  -- the entry stands in one of the two tables
  have hdisjoint : ref ∈ image.relocation.dynrel → ref ∉ image.relocation.pltrel :=
    fun hdyn => image.distinct.not_mem_plt (image.distinct.dyn_table ref hdyn)
  have hDyn : HasDefault (image.dynrelDefault (K := K) (P := P) (Q := Q) proc helper)
      (Knows (ref.rel.rType ∉ [proc.arch.relDtpoff, proc.arch.relCopy] ∧
        (ref.rel.rType ∈ [proc.arch.relGot, proc.arch.relSymbolic] →
          Addressed helper sym info)) ref) :=
    (dynrelDefault_effect image helper).knows dynEffect_local fun s =>
      dynrelDefault_weak h hty Iff.rfl
  have hPlt : HasDefault (image.pltrelDefault (K := K) (P := P) (Q := Q) proc helper false)
      (Knows (ref.rel.rType = proc.arch.relJumpSlot → Addressed helper sym info) ref) :=
    (pltrelDefault_effect image helper false).knows pltEffect_local fun s =>
      pltrelDefault_weak h hty Iff.rfl
  have hrun := run_of image helper (some false) hDyn hPlt lazyScope os pre post hnonempty
  have hrefused := run_refused helper ⟨_, h.entry⟩ hrelative (some false) lazyScope os
    pre post
  generalize image.run proc helper (some false) lazyScope os pre post = r at hrun hrefused ⊢
  -- the iteration of the entry, and what the default logic knows of it
  have hstep : eventsOf ref (finalState r).trace = [] ∨
      ∃ copes flags₁ flags₂ y, (copes ↔ Copes proc image helper ref sym info) ∧
        StepEffect proc image helper (Knows copes ref) ref flags₁
          (eventsOf ref (finalState r).trace) flags₂ y ∧ (y ≠ .done → ending r = y) := by
    rcases href with href | href
    · rcases hrun.events_of_dynrel knows_local knows_local href with
        ⟨hnil, -⟩ | ⟨flags₁, flags₂, y, hstep⟩
      · exact .inl hnil
      · refine .inr ⟨_, flags₁, flags₂, y, ⟨fun hc => ⟨fun _ => hc, ?_⟩, fun hc => hc.1 href⟩, hstep⟩
        exact fun hplt => absurd hplt (hdisjoint href)
    · rcases hrun.events_of_pltrel knows_local knows_local href with
        ⟨hnil, -⟩ | ⟨flags₁, flags₂, y, hstep⟩
      · exact .inl hnil
      · refine .inr ⟨_, flags₁, flags₂, y, ⟨fun hc => ⟨?_, fun _ => hc⟩, fun hc => hc.2 href⟩, hstep⟩
        exact fun hdyn => absurd href (hdisjoint hdyn)
  have hevent : ∀ e : Event w, e.ref? = some ref →
      (e ∈ (finalState r).trace ↔ e ∈ eventsOf ref (finalState r).trace) := by
    intro e he
    rw [mem_eventsOf]
    exact (and_iff_left he).symm
  rcases hstep with hnil | ⟨copes, flags₁, flags₂, y, hcopes, hstep, hy⟩
  · have hnot : ∀ e : Event w, e.ref? = some ref → e ∉ (finalState r).trace := by
      intro e he hmem
      rw [hevent e he, hnil] at hmem
      cases hmem
    refine iff_of_true ⟨fun hmem => ?_, fun hmem => ?_⟩ fun hmem => ?_
    all_goals exact absurd hmem (hnot _ rfl)
  · constructor
    · intro hsettled hmem
      rcases hstep.weak ((hevent _ rfl).mp hmem) with ⟨hc, -⟩ | ⟨-, hstored, hasked, msg, rfl⟩
      · exact hcopes.mp hc
      · -- the default logic panicked at the entry, and so did the run
        exfalso
        have hend := hy nofun
        rcases hsettled.settled hmem with ⟨m, a, v, h⟩ | h | ⟨e, s', rfl⟩
        · exact hstored m a v ((hevent _ rfl).mp h)
        · exact hasked ((hevent _ rfl).mp h)
        · cases hend
    · intro hc
      refine ⟨fun hmem => ?_, fun hmem => ?_⟩
      · rcases hstep.weak ((hevent _ rfl).mp hmem) with ⟨-, hdone⟩ | ⟨hn, -⟩
        · rcases hdone with ⟨m, a, v, hstored⟩ | hasked
          · exact .inl ⟨m, a, v, (hevent _ rfl).mpr hstored⟩
          · exact .inr (.inl ((hevent _ rfl).mpr hasked))
        · exact absurd (hcopes.mpr (hc hmem)) hn
      · exact hrefused ((hevent _ rfl).mpr (hstep.unhandled ((hevent _ rfl).mp hmem)))

end Search

section Sample

attribute [local instance] constantHasher

/-- A module that refers weakly to `f`; `value` is what the linker left in the entry. -/
def refersWeakly (value : BitVec 64) : ElfCore 64 := sampleCore 1 stbWeak 0 value

theorem refersWeakly_undefined (value : BitVec 64) :
    WeakUndefined sampleProcess (slotImage (refersWeakly value)) (plainHelper []) slotRef
      ⟨1, ⟨1, value, 8, 0x22, 0, 0⟩⟩ { name := [102], version := none } where
  entry := rfl
  weak := decide_eq_true (by decide : (0x22 : UInt8) >>> 4 = stbWeak)
  undef := rfl
  absent := fun lib hlib => absurd hlib List.not_mem_nil

/-- The linker left the address of a PLT entry in the undefined symbol. -/
theorem weak_with_plt_address_panics :
    WeakUndefined sampleProcess (slotImage (refersWeakly 0x40)) (plainHelper []) slotRef
        ⟨1, ⟨1, 0x40, 8, 0x22, 0, 0⟩⟩ { name := [102], version := none } ∧
      (∃ s', (slotImage (refersWeakly 0x40)).run sampleProcess (plainHelper []) (some false) none
        emptyMemory () () = .error (.panic "assertion failed: dynsym.st_value() == 0") s') ∧
      ¬ StoredOrErr slotRef ((slotImage (refersWeakly 0x40)).run sampleProcess (plainHelper [])
        (some false) none emptyMemory () ()) := by
  have hrun : ∃ s', (slotImage (refersWeakly 0x40)).run sampleProcess (plainHelper [])
      (some false) none emptyMemory () () =
        .error (.panic "assertion failed: dynsym.st_value() == 0") s' ∧
      s'.trace = [.asked .pre slotRef, .answered .pre slotRef none] := ⟨_, rfl, rfl⟩
  obtain ⟨s', heq, htrace⟩ := hrun
  refine ⟨refersWeakly_undefined 0x40, ⟨s', heq⟩, fun hsettled => ?_⟩
  have htrace' : (finalState ((slotImage (refersWeakly 0x40)).run sampleProcess (plainHelper [])
      (some false) none emptyMemory () ())).trace =
        [.asked .pre slotRef, .answered .pre slotRef none] := by
    rw [heq]
    exact htrace
  have hleft : .answered .pre slotRef none ∈ [Event.asked .pre slotRef,
      .answered .pre slotRef none] := by simp
  rw [← htrace'] at hleft
  rcases hsettled.settled hleft with ⟨m, a, v, h⟩ | h | ⟨e, s'', h⟩
  · rw [htrace'] at h
    simp at h
  · rw [htrace'] at h
    simp at h
  · rw [heq] at h
    cases h

theorem weak_with_value_zero_settled :
    StoredOrErr slotRef ((slotImage (refersWeakly 0)).run sampleProcess (plainHelper [])
      (some false) none emptyMemory () ()) :=
  (weak_settled_iff (slotImage (refersWeakly 0)) (plainHelper []) none emptyMemory () ()
    (.inr List.mem_cons_self) (by decide) (refersWeakly_undefined 0)).mpr
      fun _ => ⟨fun h => absurd h List.not_mem_nil, fun _ _ => .inr rfl⟩

end Sample

end ElfLoader
