import ElfLoader.Image.Lifetime
import ElfLoader.Relocation.Frame
import ElfLoader.Relocation.Run

/-! # Initialisation and finalisation

`finish` is the only place that sets `is_init` and calls the init handler. Until
it is reached, nothing of a relocation touches either; the destructor of the
module then decides by the flag.
-/

namespace ElfLoader

open Exec

variable {w : Nat} {K P Q : Type}

section Passes

variable [CustomHasher]

/-- The module has not been initialised. -/
structure Uninit (s : RelocState w K P Q) : Prop where
  flag : s.isInit = false
  trace : s.trace.filter Event.isInitCalled = []

theorem Uninit.push {s : RelocState w K P Q} (h : Uninit s) {e : Event w}
    (he : e.isInitCalled = false) : Uninit (s.push e) := by
  refine ⟨h.flag, ?_⟩
  rw [RelocState.push, List.filter_append, h.trace]
  simp [he]

/-- Nothing that the passes write shows in the flag or in the calls of init. -/
theorem untouched_uninit : Untouched (Uninit : RelocState w K P Q → Prop) where
  push := fun he h => h.push he
  update := fun _ _ _ _ h => ⟨h.flag, h.trace⟩

/-! ## The passes -/

namespace DynamicImage

variable (proc : Process w K) (image : DynamicImage proc.arch) (helper : RelocHelper w P Q)

theorem applyRelro_keeps (relro : ELFRelro w) :
    Keeps Uninit (applyRelro proc relro : Reloc w K P Q Unit) := by
  intro s h
  unfold applyRelro
  dsimp only
  split
  · exact ⟨h.flag, h.trace⟩
  · exact ⟨h.flag, h.trace⟩

theorem setScope_keeps (isSet : Bool) (lazyScope : Option (LazyScope w)) :
    Keeps Uninit (if isSet then
        match lazyScope with
        | some scope => modify fun s => { s with lazyScope := some scope }
        | none => pure ()
      else throw (.panic "lazy scope is not set") : Reloc w K P Q Unit) := by
  refine Keeps.ite ?_ (Keeps.throw _)
  cases lazyScope with
  | none => exact Keeps.pure ()
  | some scope => exact Keeps.modify fun _ h => ⟨h.flag, h.trace⟩

theorem afterPltrel_keeps (isLazy : Bool) (lazyScope : Option (LazyScope w)) :
    Keeps Uninit (afterPltrel proc image isLazy lazyScope : Reloc w K P Q Unit) := by
  unfold afterPltrel
  refine Keeps.ite ?_ ?_
  · -- the GOT entries of the trampoline, then the scope
    have hscope := setScope_keeps (K := K) (P := P) (Q := Q)
      (image.relocation.pltrel.isEmpty || lazyScope.isSome) lazyScope
    refine Keeps.ite ?_ hscope
    split
    · exact Keeps.bind (Reloc.modifyMem_keeps untouched_uninit _) fun _ => hscope
    · exact Keeps.bind (Keeps.throw _) fun _ => hscope
  · split
    · exact applyRelro_keeps proc _
    · exact Keeps.pure ()

theorem relocatePltrel_keeps (isLazy : Bool) (lazyScope : Option (LazyScope w)) :
    Keeps Uninit (relocatePltrel proc image helper isLazy lazyScope : Reloc w K P Q Unit) :=
  Keeps.bind (pltrelLoop_keeps untouched_uninit proc image helper isLazy) fun _ =>
    afterPltrel_keeps proc image _ _

/-! ## Whole runs -/

/-- The passes before `finish`. -/
def beforeFinish (isLazy : Bool) (lazyScope : Option (LazyScope w)) : Reloc w K P Q Unit := do
  relocateRelative proc image
  relocateDynrel proc image helper
  relocatePltrel proc image helper isLazy lazyScope

theorem passes_eq (isLazy : Bool) (lazyScope : Option (LazyScope w)) :
    (passes proc image helper isLazy lazyScope : Reloc w K P Q Unit) =
      (do beforeFinish proc image helper isLazy lazyScope; finish proc image) := by
  simp only [passes, beforeFinish, bind_assoc]

theorem beforeFinish_keeps (isLazy : Bool) (lazyScope : Option (LazyScope w)) :
    Keeps Uninit (beforeFinish proc image helper isLazy lazyScope : Reloc w K P Q Unit) :=
  Keeps.bind (relocateRelative_keeps untouched_uninit proc image) fun _ =>
    Keeps.bind (relocateDynrel_keeps untouched_uninit proc image helper) fun _ =>
      relocatePltrel_keeps proc image helper isLazy lazyScope

/-- The passes initialise the module exactly when they return. -/
theorem passes_init (isLazy : Bool) (lazyScope : Option (LazyScope w)) {s : RelocState w K P Q}
    (hs : Uninit s) :
    match passes proc image helper isLazy lazyScope s with
    | .ok _ s' => s'.isInit = true ∧
        s'.trace.filter Event.isInitCalled = [.initCalled image.initFn image.initArray]
    | .error _ s' => Uninit s' := by
  have hbefore := beforeFinish_keeps proc image helper isLazy lazyScope s hs
  rw [passes_eq]
  cases hrun : beforeFinish proc image helper isLazy lazyScope s with
  | error h s₁ =>
      rw [hrun] at hbefore
      rw [bind_of_error hrun]
      exact hbefore
  | ok _ s₁ =>
      rw [hrun] at hbefore
      rw [bind_of_ok hrun]
      have hfinish : finish proc image s₁ =
          .ok () (RelocState.push { s₁ with isInit := true }
            (.initCalled image.initFn image.initArray)) := rfl
      rw [hfinish]
      have htrace : s₁.trace.filter Event.isInitCalled = [] := hbefore.trace
      refine ⟨rfl, ?_⟩
      rw [RelocState.push, List.filter_append, htrace]
      rfl

/-- What becomes of the two handlers after a relocation, for every history of
the handles of the module: after `Ok` init was called once and fini is called
once, with the last handle; after an error neither is called. -/
structure HandlersOnce (fini : Option (BitVec w)) (finiArray : Option (List (BitVec w)))
    (result : EStateM.Result Halt (RelocState w K P Q) (LoadedCore w)) : Prop where
  ok : ∀ loaded s', result = .ok loaded s' →
    s'.trace.filter Event.isInitCalled = [.initCalled image.initFn image.initArray] ∧
      s'.isInit = true ∧
      ∀ handles ops handles' calls, 0 < handles.strong →
        CoreInner.history ⟨s'.isInit, fini, finiArray⟩ handles ops = some (handles', calls) →
        calls = if handles'.strong = 0 then [⟨fini, finiArray⟩] else []
  error : ∀ h s', result = .error h s' →
    s'.trace.filter Event.isInitCalled = [] ∧
      ∀ handles ops handles' calls, 0 < handles.strong →
        CoreInner.history ⟨s'.isInit, fini, finiArray⟩ handles ops = some (handles', calls) →
        calls = []

theorem run_handlersOnce (lazy : Option Bool) (lazyScope : Option (SymbolLookup w))
    (os : OsState w K) (pre : P) (post : Q) (fini : Option (BitVec w))
    (finiArray : Option (List (BitVec w))) (hempty : image.relocation.isEmpty = false) :
    HandlersOnce proc image fini finiArray
      (image.run proc helper lazy lazyScope os pre post) := by
  have hstart : Uninit { RelocState.start os pre post with
      dependencyFlags := List.replicate helper.scope.length false } := ⟨rfl, rfl⟩
  have hpasses := passes_init proc image helper (lazy.getD image.lazy)
    (image.makeLazyScope proc (lazy.getD image.lazy) helper.scope lazyScope) hstart
  rw [run, relocateImpl_eq image helper lazy lazyScope _ hempty]
  generalize passes proc image helper (lazy.getD image.lazy)
    (image.makeLazyScope proc (lazy.getD image.lazy) helper.scope lazyScope)
    { RelocState.start os pre post with
      dependencyFlags := List.replicate helper.scope.length false } = result at hpasses ⊢
  cases result with
  | ok u s₁ =>
      refine ⟨fun loaded s' heq => ?_, nofun⟩
      cases heq
      refine ⟨hpasses.2, hpasses.1, fun handles ops handles' calls hhandles hhistory => ?_⟩
      rw [CoreInner.history_calls hhandles hhistory, CoreInner.drop, if_pos hpasses.1]
  | error e s₁ =>
      refine ⟨nofun, fun h s' heq => ?_⟩
      cases heq
      refine ⟨hpasses.trace, fun handles ops handles' calls hhandles hhistory => ?_⟩
      have hdrop : CoreInner.drop ⟨s₁.isInit, fini, finiArray⟩ = [] := by
        rw [CoreInner.drop, hpasses.flag]
        rfl
      rw [CoreInner.history_calls hhandles hhistory, hdrop, ite_self]

/-- The handlers of an image run as they should exactly when the image has
something to relocate. -/
theorem handlers_once_iff (lazy : Option Bool) (lazyScope : Option (SymbolLookup w))
    (os : OsState w K) (pre : P) (post : Q) (fini : Option (BitVec w))
    (finiArray : Option (List (BitVec w))) :
    HandlersOnce proc image fini finiArray (image.run proc helper lazy lazyScope os pre post) ↔
      image.relocation.isEmpty = false := by
  constructor
  · intro honce
    rw [← Bool.not_eq_true]
    intro hempty
    have hinit := (honce.ok _ _ (run_of_empty image helper lazy lazyScope os pre post hempty)).2.1
    cases hinit
  · exact run_handlersOnce proc image helper lazy lazyScope os pre post fini finiArray

end DynamicImage

end Passes

section Sample

attribute [local instance] constantHasher

/-- An image with an init function and a fini function and nothing to relocate. -/
def quietImage : DynamicImage sampleProcess.arch where
  core := refersToF
  lazy := false
  gotPlt := none
  tables := { pltrel := none, dynrel := none, relr := none, relCount := none }
  relro := none
  initFn := some 0x10700
  initArray := none
  neededLibs := []
  relocation := { relative := .rel [], pltrel := [], dynrel := [] }
  relocation_eq := rfl

/-- Its relocation returns without having called the init handler, and its last
handle goes without a call of the fini handler. -/
theorem quiet_image_not_initialised :
    (∃ loaded s', quietImage.run sampleProcess (plainHelper []) none none emptyMemory () () =
        .ok loaded s' ∧ s'.trace = [] ∧
      CoreInner.history ⟨s'.isInit, some 0x10708#64, none⟩ ⟨1, 0⟩ [.drop] = some (⟨0, 0⟩, [])) ∧
      ¬ DynamicImage.HandlersOnce sampleProcess quietImage (some 0x10708) none
        (quietImage.run sampleProcess (plainHelper []) none none emptyMemory () ()) := by
  refine ⟨⟨_, _, rfl, rfl, rfl⟩, fun honce => ?_⟩
  have hinit := (honce.ok _ _ rfl).2.1
  cases hinit

end Sample

end ElfLoader
