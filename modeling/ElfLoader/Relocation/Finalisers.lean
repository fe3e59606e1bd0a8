import ElfLoader.Elf.DynamicSection
import ElfLoader.Relocation.Init
import ElfLoader.Relocation.Relr

/-! # The default handlers (`Loader::new`)

One closure is the init handler and the fini handler. It calls the function, then the
array from its first entry on, which is the order of initialisation.
-/

namespace ElfLoader

open Exec ByteMemory

variable {w : Nat} {K P Q : Type}

/-! ## Handlers -/

/-- `FnHandler`: the functions it calls, in order. -/
abbrev FnHandler (w : Nat) := Option (BitVec w) → Option (List (BitVec w)) → List (BitVec w)

/-- The closure `c_abi`. -/
def cAbi : FnHandler w := fun func funcArray => func.toList ++ funcArray.getD []

structure FnHandlers (w : Nat) where
  initFn : FnHandler w
  finiFn : FnHandler w

namespace FnHandlers

/-- The handlers of `Loader::new`. -/
def new : FnHandlers w := { initFn := cAbi, finiFn := cAbi }

variable (handlers : FnHandlers w)

/-- The functions that are called in a relocation. -/
def initCalls (trace : List (Event w)) : List (BitVec w) :=
  trace.flatMap fun
    | .initCalled initFn initArray => handlers.initFn initFn initArray
    | _ => []

/-- The functions that are called by the destructor of the module. -/
def finiCalls (calls : List (FiniCall w)) : List (BitVec w) :=
  calls.flatMap fun call => handlers.finiFn call.fini call.finiArray

/-- Only the calls of the init handler count. -/
theorem initCalls_filter (trace : List (Event w)) :
    handlers.initCalls trace = handlers.initCalls (trace.filter Event.isInitCalled) := by
  induction trace with
  | nil => rfl
  | cons e trace ih =>
      unfold initCalls at ih ⊢
      rw [List.flatMap_cons, ih]
      cases e with
      | initCalled initFn initArray => rfl
      | _ => rfl

end FnHandlers

/-! ## What the dynamic section says -/

/-- The functions of an array, read when it is used. -/
def fnArray (m : Bytes w) (array : Option (Slice w)) : Option (List (BitVec w)) :=
  array.map fun fns =>
    (List.range fns.count).map fun k => readWord m (fns.ptr + BitVec.ofNat w (k * (w / 8)))

namespace ElfDynamic

variable (dynamic : ElfDynamic w) (m : Bytes w)

/-- The order of initialisation. -/
def initialisers : List (BitVec w) :=
  dynamic.initFn.toList ++ (fnArray m dynamic.initArrayFn).getD []

/-- The functions of the other side, in the same order. -/
def finalisers : List (BitVec w) :=
  dynamic.finiFn.toList ++ (fnArray m dynamic.finiArrayFn).getD []

/-- What `State::init` leaves for the destructor of the module. -/
def coreInner (isInit : Bool) : CoreInner w where
  isInit
  fini := dynamic.finiFn
  finiArray := fnArray m dynamic.finiArrayFn

theorem finalisers_reverse : (dynamic.finalisers m).reverse =
    ((fnArray m dynamic.finiArrayFn).getD []).reverse ++ dynamic.finiFn.toList := by
  rw [finalisers, List.reverse_append]
  cases dynamic.finiFn with
  | none => rfl
  | some fini => rfl

end ElfDynamic

/-! ## The end of a module -/

/-- The functions a module calls when it ends. -/
theorem finiCalls_history {dynamic : ElfDynamic w} {m : Bytes w} {isInit : Bool}
    {handles handles' : RefCount.Counts} {ops : List RefCount.Op} {calls : List (FiniCall w)}
    (hhandles : 0 < handles.strong)
    (h : (dynamic.coreInner m isInit).history handles ops = some (handles', calls)) :
    FnHandlers.new.finiCalls calls =
      if handles'.strong = 0 ∧ isInit then dynamic.finalisers m else [] := by
  rw [CoreInner.history_calls hhandles h, CoreInner.drop]
  by_cases hzero : handles'.strong = 0
  · cases isInit with
    | false => simp [hzero, ElfDynamic.coreInner, FnHandlers.finiCalls]
    | true =>
        rw [if_pos hzero, if_pos (show (dynamic.coreInner m true).isInit = true from rfl),
          if_pos ⟨hzero, rfl⟩]
        exact List.append_nil _
  · rw [if_neg hzero, if_neg fun hboth => hzero hboth.1]
    rfl

/-- The end of a module with one owner. -/
theorem history_drop (inner : CoreInner w) :
    inner.history ⟨1, 0⟩ [.drop] = some (⟨0, 0⟩, inner.drop) := by
  change some (_, [inner.drop].flatten) = _
  rw [List.flatten_singleton]
  rfl

/-- When the finalisers are called backwards. -/
theorem fini_mirrored_iff {dynamic : ElfDynamic w} {m : Bytes w} {isInit : Bool} :
    (∀ handles ops handles' calls, 0 < handles.strong →
      (dynamic.coreInner m isInit).history handles ops = some (handles', calls) →
        FnHandlers.new.finiCalls calls =
          if handles'.strong = 0 then
            ((fnArray m dynamic.finiArrayFn).getD []).reverse ++ dynamic.finiFn.toList
          else []) ↔
      (if isInit then dynamic.finalisers m else []) = (dynamic.finalisers m).reverse := by
  rw [← ElfDynamic.finalisers_reverse]
  constructor
  · intro h
    have hone := h ⟨1, 0⟩ [.drop] _ _ Nat.one_pos (history_drop _)
    rw [finiCalls_history Nat.one_pos (history_drop _)] at hone
    cases isInit with
    | false => simpa using hone
    | true => simpa using hone
  · intro h handles ops handles' calls hhandles hhistory
    rw [finiCalls_history hhandles hhistory]
    by_cases hzero : handles'.strong = 0
    · rw [if_pos hzero, ← h]
      cases isInit with
      | false => simp
      | true => simp [hzero]
    · rw [if_neg hzero, if_neg fun hboth => hzero hboth.1]

section Order

variable [CustomHasher]

/-- What `State::init` leaves for the init handler. -/
structure DynamicImage.InitFrom {arch : Arch w} (image : DynamicImage arch)
    (dynamic : ElfDynamic w) (m : Bytes w) : Prop where
  initFn : image.initFn = dynamic.initFn
  initArray : image.initArray = fnArray m dynamic.initArrayFn

/-- The calls in a relocation that ends in `s'` and, with memory `m`, at the end of the
module. -/
structure Mirrored (handlers : FnHandlers w) (dynamic : ElfDynamic w)
    (s' : RelocState w K P Q) (m : Bytes w) : Prop where
  init : handlers.initCalls s'.trace = dynamic.initialisers s'.os.mem
  fini : ∀ handles ops handles' calls, 0 < handles.strong →
    (dynamic.coreInner m s'.isInit).history handles ops = some (handles', calls) →
      handlers.finiCalls calls =
        if handles'.strong = 0 then
          ((fnArray m dynamic.finiArrayFn).getD []).reverse ++ dynamic.finiFn.toList
        else []

namespace DynamicImage

variable {proc : Process w K} {image : DynamicImage proc.arch} {helper : RelocHelper w P Q}
  {dynamic : ElfDynamic w} {lazy : Option Bool} {lazyScope : Option (SymbolLookup w)}
  {os : OsState w K} {pre : P} {post : Q} {loaded : LoadedCore w} {s' : RelocState w K P Q}

/-- A relocation that returns calls the initialisers and sets the flag, unless there
was nothing to relocate. -/
theorem run_init (himage : image.InitFrom dynamic s'.os.mem)
    (hrun : image.run proc helper lazy lazyScope os pre post = .ok loaded s') :
    if image.relocation.isEmpty then FnHandlers.new.initCalls s'.trace = [] ∧ s'.isInit = false
    else FnHandlers.new.initCalls s'.trace = dynamic.initialisers s'.os.mem ∧
      s'.isInit = true := by
  cases hempty : image.relocation.isEmpty with
  | true =>
      rw [run_of_empty image helper lazy lazyScope os pre post hempty] at hrun
      cases hrun
      exact ⟨rfl, rfl⟩
  | false =>
      have hone := run_handlersOnce proc image helper lazy lazyScope os pre post none none hempty
      obtain ⟨htrace, hinit, -⟩ := hone.ok loaded s' hrun
      refine ⟨?_, hinit⟩
      rw [FnHandlers.initCalls_filter, htrace, himage.initFn, himage.initArray]
      exact List.append_nil _

/-- The default handlers do what the format asks of them when the finalisers read the
same backwards; with nothing to relocate there must be nothing to call. -/
theorem default_handlers_mirrored_iff (m : Bytes w) (himage : image.InitFrom dynamic s'.os.mem)
    (hrun : image.run proc helper lazy lazyScope os pre post = .ok loaded s') :
    Mirrored FnHandlers.new dynamic s' m ↔
      (image.relocation.isEmpty = true →
        dynamic.initialisers s'.os.mem = [] ∧ dynamic.finalisers m = []) ∧
      dynamic.finalisers m = (dynamic.finalisers m).reverse := by
  have hinit := run_init himage hrun
  have hsplit : Mirrored FnHandlers.new dynamic s' m ↔
      FnHandlers.new.initCalls s'.trace = dynamic.initialisers s'.os.mem ∧
        (if s'.isInit then dynamic.finalisers m else []) = (dynamic.finalisers m).reverse :=
    ⟨fun h => ⟨h.init, fini_mirrored_iff.mp h.fini⟩,
      fun h => ⟨h.1, fini_mirrored_iff.mpr h.2⟩⟩
  rw [hsplit]
  cases hempty : image.relocation.isEmpty with
  | true =>
      rw [hempty, if_pos rfl] at hinit
      rw [hinit.1, hinit.2]
      constructor
      · rintro ⟨hnone, hfini⟩
        have hnil := List.reverse_eq_nil_iff.mp hfini.symm
        exact ⟨fun _ => ⟨hnone.symm, hnil⟩, by rw [hnil]; rfl⟩
      · rintro ⟨hnone, -⟩
        obtain ⟨hinits, hfinis⟩ := hnone rfl
        rw [hinits, hfinis]
        exact ⟨rfl, rfl⟩
  | false =>
      rw [hempty, if_neg (by decide)] at hinit
      rw [hinit.1, hinit.2]
      simp

end DynamicImage

end Order

section Sample

attribute [local instance] constantHasher

/-- A dynamic section with `count` functions to call at the end, at the start of a page. -/
def finiDynamic (count : Nat) : ElfDynamic 64 where
  dynPtr := 0x10e00
  hashtab := .gnu 0x10200
  symtab := 0x10300
  strtab := 0x10400
  bindNow := true
  gotPlt := none
  initFn := none
  initArrayFn := none
  finiFn := none
  finiArrayFn := some { ptr := 0x1000, count }
  pltrel := none
  dynrel := none
  relr := some { ptr := 0x10800, count := 2 }
  relCount := none
  neededLibs := []
  versionIdx := none
  verneed := none
  verdef := none
  rpathOff := none
  runpathOff := none

/-- The first function is at address one. -/
def finiMemory : Bytes 64 := fun a => if a = 0x1000 then 1 else 0

theorem relrImage_initFrom (count : Nat) (m : Bytes 64) :
    relrImage.InitFrom (finiDynamic count) m := ⟨rfl, rfl⟩

theorem one_finaliser_mirrored :
    ∃ loaded s', relrImage.run sampleProcess (plainHelper []) none none emptyMemory () () =
        .ok loaded s' ∧
      (Mirrored FnHandlers.new (finiDynamic 1) s' finiMemory ↔
        (relrImage.relocation.isEmpty = true →
          (finiDynamic 1).initialisers s'.os.mem = [] ∧
            (finiDynamic 1).finalisers finiMemory = []) ∧
        (finiDynamic 1).finalisers finiMemory =
          ((finiDynamic 1).finalisers finiMemory).reverse) := by
  obtain ⟨loaded, s', hrun⟩ : ∃ loaded s', relrImage.run sampleProcess (plainHelper []) none none
      emptyMemory () () = .ok loaded s' := ⟨_, _, rfl⟩
  exact ⟨loaded, s', hrun, DynamicImage.default_handlers_mirrored_iff finiMemory
    (relrImage_initFrom 1 s'.os.mem) hrun⟩

/-- Two finalisers are called in their order. -/
theorem two_finalisers_in_order :
    ∃ loaded s', relrImage.run sampleProcess (plainHelper []) none none emptyMemory () () =
        .ok loaded s' ∧
      ¬ Mirrored FnHandlers.new (finiDynamic 2) s' finiMemory := by
  obtain ⟨loaded, s', hrun⟩ : ∃ loaded s', relrImage.run sampleProcess (plainHelper []) none none
      emptyMemory () () = .ok loaded s' := ⟨_, _, rfl⟩
  refine ⟨loaded, s', hrun, fun hmirrored => ?_⟩
  have hinit : s'.isInit = true :=
    (DynamicImage.run_init (relrImage_initFrom 2 s'.os.mem) hrun).2
  have hfini := fini_mirrored_iff.mp hmirrored.fini
  rw [hinit, if_pos rfl] at hfini
  exact absurd hfini (by decide)

end Sample

end ElfLoader
