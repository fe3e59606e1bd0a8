import ElfLoader.Image.Lifetime
import ElfLoader.Library.SharedHeap
import ElfLoader.Relocation.Deps

/-! # Modules that share their libraries (`src/image/common/core.rs`)

All modules of a process. A `LoadedCore` is two counted references, `core` before
`deps`, and the list behind `deps` holds further `LoadedCore`s: copies of members of
the scope it was relocated with. The last reference to a `CoreInner` runs its
destructor: the fini handler, then `Drop for ElfSegments`.
-/

namespace ElfLoader

open SharedHeap

section Process

variable {w : Nat} {K : Type} [CustomHasher]

/-- What is behind a counted reference: the record of a module, or the libraries of
one. `linked` is not part of the source: it is what the relocation of the module
returned. -/
inductive Shared (w : Nat) where
  | module (inner : CoreInner w) (segments : ElfSegments w) (linked : Option (LoadedCore w))
  | deps

/-- What the owner of a handle has: an image that is not relocated (`RawDylib`,
`RawExec`, `RawObject`), a module without its libraries, or a module with them. -/
inductive Grip (w : Nat) where
  | image (core : ElfCore w)
  | core (core : ElfCore w)
  | loaded (lib : LoadedCore w)

/-- The calls that destructors make. -/
inductive DropCall (w : Nat) where
  | fini (id : Nat) (call : FiniCall w)
  | munmap (id : Nat) (memory len : BitVec w)

namespace DropCall

/-- The module a call is about. -/
def id : DropCall w → Nat
  | .fini id _ => id
  | .munmap id _ _ => id

end DropCall

namespace Shared

def segments? : Shared w → Option (ElfSegments w)
  | .module _ segments _ => some segments
  | .deps => none

def linked? : Shared w → Option (LoadedCore w)
  | .module _ _ linked => linked
  | .deps => none

/-- `Drop for CoreInner` and then its fields, of which `segments` is the last. -/
def drop (id : Nat) : Shared w → List (DropCall w)
  | .module inner segments _ =>
      inner.drop.map (.fini id) ++ [.munmap id segments.memory segments.len]
  | .deps => []

end Shared

/-- The modules a `LoadedCore` holds on to: its own, its libraries', theirs. -/
inductive LoadedCore.Keeps : LoadedCore w → ElfCore w → Prop
  | own (lib : LoadedCore w) : Keeps lib lib.core
  | dep {lib d : LoadedCore w} {core : ElfCore w} (hd : d ∈ lib.deps) (h : Keeps d core) :
      Keeps lib core

namespace Grip

def owner : Grip w → ElfCore w
  | .image own => own
  | .core own => own
  | .loaded lib => lib.core

def Keeps : Grip w → ElfCore w → Prop
  | .image own, other => other = own
  | .core own, other => other = own
  | .loaded lib, other => lib.Keeps other

end Grip

abbrev Modules (w : Nat) := SharedHeap.State (Shared w) (Grip w)

namespace Modules

variable (s : Modules w)

def calls : List (DropCall w) := s.destroyed.flatMap fun entry => entry.2.drop entry.1

/-- The module was loaded, with this reservation. -/
def Loaded (id : Nat) (segments : ElfSegments w) : Prop :=
  ∃ cell, s.cells[id]? = some cell ∧ cell.data.segments? = some segments

/-- What relocation leaves in the place of an image: the flag of `finish`, and a
`LoadedCore` over a new list of libraries. -/
def link (k : Nat) (loaded : LoadedCore w) (isInit : Bool) (copies : List Nat) :
    Option (Modules w) := do
  match (← s.cells[loaded.core.id]?).data with
  | .module inner segments _ => do
      let s ← s.step (.update loaded.core.id (.module { inner with isInit } segments (some loaded)))
      s.step (.attach k .deps copies (.loaded loaded))
  | .deps => none

/-- The handles of the scope at the positions `ks`. -/
def Scope (ks : List Nat) (scope : List (LoadedCore w)) : Prop :=
  List.Forall₂ (fun k lib => ∃ refs, s.held[k]? = some { label := .loaded lib, refs }) ks scope

/-- The operations of safe code on the handles of loaded modules. -/
inductive Public : Op (Shared w) (Grip w) → Prop
  | clone {k lib refs} (h : s.held[k]? = some { label := .loaded lib, refs }) : Public (.clone k)
  /-- `lib.deps()[item].clone()` -/
  | deps {k lib refs} (h : s.held[k]? = some { label := .loaded lib, refs }) (item : Nat) :
      Public (.extract k 1 item)
  | give (t k : Nat) : Public (.give t k)
  | settle (t : Nat) : Public (.settle t)

/-- The operations that make a handle to a module without its libraries. -/
inductive Bare : Op (Shared w) (Grip w) → Prop
  /-- `core_ref().clone()`, `core()` -/
  | core {k handle} (h : s.held[k]? = some handle) : Bare (.first k (.core handle.label.owner))
  | clone {k own refs} (h : s.held[k]? = some { label := .core own, refs }) : Bare (.clone k)
  /-- `ElfCoreRef::upgrade` -/
  | upgrade {own : ElfCore w} (h : s.Loaded own.id own.segments) :
      Bare (.upgrade own.id (.core own))

end Modules

/-- The members of a scope that `relocate_impl` keeps, by position. -/
def DynamicImage.keptOf {arch : Arch w} (image : DynamicImage arch) (ks : List Nat)
    (scope : List (LoadedCore w)) (flags : List Bool) : List Nat :=
  (ks.zip (scope.zip flags)).filterMap fun entry =>
    if entry.2.2 || image.neededLibs.contains entry.2.1.name then some entry.1 else none

namespace Modules

variable (proc : Process w K)

/-- One step of the process: an image is loaded or relocated, a handle is copied, a
thread goes on giving one back. -/
inductive Step : Modules w → Modules w → Prop
  | load {s s'} (core : ElfCore w) (fini : Option (BitVec w))
      (finiArray : Option (List (BitVec w))) (hid : core.id = s.cells.length)
      (h : s.step (.alloc (.module { isInit := false, fini, finiArray } core.segments none)
        (.image core)) = some s') : Step s s'
  | relocate {s s' : Modules w} {P Q : Type} {k : Nat} {refs ks : List Nat}
      {image : DynamicImage proc.arch} {helper : RelocHelper w P Q} {lazy : Option Bool}
      {lazyScope : Option (SymbolLookup w)} {os : OsState w K} {pre : P} {post : Q}
      {loaded : LoadedCore w} {r : RelocState w K P Q}
      (hk : s.held[k]? = some { label := .image image.core, refs })
      (hscope : s.Scope ks helper.scope)
      (hrun : image.run proc helper lazy lazyScope os pre post = .ok loaded r)
      (h : s.link k loaded r.isInit (image.keptOf ks helper.scope r.dependencyFlags) = some s') :
      Step s s'
  /-- `RawObject::relocate_impl` ends with `LoadedCore::from_core` -/
  | relocateObject {s s' : Modules w} {k : Nat} {core : ElfCore w} {refs : List Nat}
      (hk : s.held[k]? = some { label := .image core, refs })
      (h : s.link k (.fromCore core) false [] = some s') : Step s s'
  | use {s s' : Modules w} {op : Op (Shared w) (Grip w)} (hop : s.Public op)
      (h : s.step op = some s') : Step s s'

/-- A step that may also make handles to modules without their libraries. -/
inductive AnyStep : Modules w → Modules w → Prop
  | step {s s' : Modules w} (h : Step proc s s') : AnyStep s s'
  | bare {s s' : Modules w} {op : Op (Shared w) (Grip w)} (hop : s.Bare op)
      (h : s.step op = some s') : AnyStep s s'

/-- What comes about in a process, whatever the order of steps of its threads. -/
def Reachable (s : Modules w) : Prop :=
  Relation.ReflTransGen (AnyStep proc) State.init s

end Modules

namespace Modules

/-! ## What the handles stand for -/

/-- A list of libraries. -/
def DepsAt (s : Modules w) (i : Nat) (deps : List (LoadedCore w)) : Prop :=
  ∃ cell, s.cells[i]? = some cell ∧ cell.data.segments? = none ∧
    cell.contents.map Handle.label = deps.map .loaded

/-- The references of a handle are those of what its owner takes it for. -/
inductive Coherent (s : Modules w) : Handle (Grip w) → Prop
  | image {own : ElfCore w} (h : s.Loaded own.id own.segments) :
      Coherent s { label := .image own, refs := [own.id] }
  | core {own : ElfCore w} (h : s.Loaded own.id own.segments) :
      Coherent s { label := .core own, refs := [own.id] }
  | loaded {lib : LoadedCore w} {i : Nat} (h : s.Loaded lib.core.id lib.core.segments)
      (hdeps : s.DepsAt i lib.deps) :
      Coherent s { label := .loaded lib, refs := [lib.core.id, i] }

structure Consistent (s : Modules w) : Prop where
  sound : s.Sound
  plain : ∀ (i : Nat) (cell : Cell (Shared w) (Grip w)), s.cells[i]? = some cell → cell.data.segments?.isSome →
    cell.contents = []
  held : ∀ h ∈ s.held, s.Coherent h
  contents : ∀ (i : Nat) (cell : Cell (Shared w) (Grip w)), s.cells[i]? = some cell →
    ∀ h ∈ cell.contents, s.Coherent h
  fresh : ∀ (i : Nat) (cell : Cell (Shared w) (Grip w)), s.cells[i]? = some cell →
    ∀ inner segments, cell.data = .module inner segments none → inner.isInit = false

/-- A record stands for the same reservation, and is the same or that of a module
that was relocated. -/
structure Follows (old new : Shared w) : Prop where
  segments : new.segments? = old.segments?
  linked : new = old ∨ new.linked?.isSome

/-- Cells keep what they were made from and the reservation they stand for. -/
def Grows (s s' : Modules w) : Prop :=
  ∀ (i : Nat) (cell : Cell (Shared w) (Grip w)), s.cells[i]? = some cell →
    ∃ cell', s'.cells[i]? = some cell' ∧ cell'.contents = cell.contents ∧
      Follows cell.data cell'.data

variable {proc : Process w K} {s s' s'' : Modules w} {op : Op (Shared w) (Grip w)}

theorem Follows.of_unlinked {old new : Shared w} (h : Follows old new) {inner : CoreInner w}
    {segments : ElfSegments w} (hnew : new = .module inner segments none) :
    old = .module inner segments none := by
  rcases h.linked with hsame | hsome
  · exact hsame ▸ hnew
  · rw [hnew] at hsome
    cases hsome

theorem Grows.trans (h : s.Grows s') (h' : s'.Grows s'') : s.Grows s'' := by
  intro i cell hi
  obtain ⟨cell', hi', hcontents, hsegments, hlinked⟩ := h i cell hi
  obtain ⟨cell'', hi'', hcontents', hsegments', hlinked'⟩ := h' i cell' hi'
  refine ⟨cell'', hi'', hcontents'.trans hcontents, hsegments'.trans hsegments, ?_⟩
  rcases hlinked' with hsame | hsome
  · rwa [hsame]
  · exact .inr hsome

theorem Loaded.mono {id : Nat} {segments : ElfSegments w} (h : s.Loaded id segments)
    (hgrows : s.Grows s') : s'.Loaded id segments := by
  obtain ⟨cell, hcell, hsegments⟩ := h
  obtain ⟨cell', hcell', -, hsame⟩ := hgrows id cell hcell
  exact ⟨cell', hcell', hsame.segments.trans hsegments⟩

theorem DepsAt.mono {i : Nat} {deps : List (LoadedCore w)} (h : s.DepsAt i deps)
    (hgrows : s.Grows s') : s'.DepsAt i deps := by
  obtain ⟨cell, hcell, hnone, hlabels⟩ := h
  obtain ⟨cell', hcell', hcontents, hsame⟩ := hgrows i cell hcell
  exact ⟨cell', hcell', hsame.segments.trans hnone, by rw [hcontents, hlabels]⟩

theorem Coherent.mono {handle : Handle (Grip w)} (h : s.Coherent handle) (hgrows : s.Grows s') :
    s'.Coherent handle := by
  cases h with
  | image h => exact .image (h.mono hgrows)
  | core h => exact .core (h.mono hgrows)
  | loaded h hdeps => exact .loaded (h.mono hgrows) (hdeps.mono hgrows)

/-- A step that does not write to a cell. -/
theorem grows_of_step (h : s.step op = some s') (hop : ∀ i data, op ≠ .update i data) :
    s.Grows s' := by
  intro i cell hi
  obtain ⟨cell', hi', hcontents, hdata | hupdate⟩ := State.step_cell h hi
  · exact ⟨cell', hi', hcontents, congrArg _ hdata, .inl hdata⟩
  · exact absurd hupdate (hop i cell'.data)

theorem Consistent.of_same (hs : s.Consistent) (hsound : s'.Sound) (hgrows : s.Grows s')
    (hcells : s'.cells.length = s.cells.length) (hheld : ∀ h ∈ s'.held, s'.Coherent h) :
    s'.Consistent := by
  have hold : ∀ (i : Nat) (cell' : Cell (Shared w) (Grip w)), s'.cells[i]? = some cell' →
      ∃ cell, s.cells[i]? = some cell ∧ cell'.contents = cell.contents ∧
        Follows cell.data cell'.data := by
    intro i cell' hi'
    have hlt := (List.getElem?_eq_some_iff.mp hi').1
    have hi := List.getElem?_eq_getElem (hcells ▸ hlt)
    obtain ⟨cell'', hi'', hsame⟩ := hgrows i _ hi
    rw [hi'] at hi''
    cases hi''
    exact ⟨_, hi, hsame⟩
  refine ⟨hsound, fun i cell' hi' hsome => ?_, hheld, fun i cell' hi' h hmem => ?_,
    fun i cell' hi' inner segments hdata => ?_⟩
  · obtain ⟨cell, hi, hcontents, hfollows⟩ := hold i cell' hi'
    rw [hcontents]
    exact hs.plain i cell hi (by rwa [← hfollows.segments])
  · obtain ⟨cell, hi, hcontents, -⟩ := hold i cell' hi'
    exact (hs.contents i cell hi h (hcontents ▸ hmem)).mono hgrows
  · obtain ⟨cell, hi, -, hfollows⟩ := hold i cell' hi'
    exact hs.fresh i cell hi inner segments (hfollows.of_unlinked hdata)

theorem Consistent.hold (hs : s.Consistent) (hstep : s.step op = some s')
    (hop : ∀ i data, op ≠ .update i data) {handle : Handle (Grip w)} (hs' : s' = s.hold handle)
    (hcoherent : s.Coherent handle) : s'.Consistent := by
  have hgrows := grows_of_step hstep hop
  refine hs.of_same (State.step_sound hs.sound hstep) hgrows ?_ fun h hmem => ?_
  · rw [hs', State.hold, retain_length]
  · rw [hs', State.hold] at hmem
    rcases List.mem_append.mp hmem with hmem | hmem
    · exact (hs.held h hmem).mono hgrows
    · cases List.mem_singleton.mp hmem
      exact hcoherent.mono hgrows

/-- A cell that is new: nothing, or copies of handles that were held. -/
theorem Consistent.grow (hs : s.Consistent) (hsound : s'.Sound) (hgrows : s.Grows s')
    {new : Cell (Shared w) (Grip w)} {cells : List (Cell (Shared w) (Grip w))}
    (hlen : cells.length = s.cells.length) (hcells : s'.cells = cells ++ [new])
    (hplain : new.data.segments?.isSome → new.contents = [])
    (hfresh : ∀ inner segments, new.data = .module inner segments none → inner.isInit = false)
    (hcontents : ∀ h ∈ new.contents, h ∈ s.held) (hheld : ∀ h ∈ s'.held, s'.Coherent h) :
    s'.Consistent := by
  have hcase : ∀ (i : Nat) (cell' : Cell (Shared w) (Grip w)), s'.cells[i]? = some cell' →
      cell' = new ∨ ∃ cell, s.cells[i]? = some cell ∧ cell'.contents = cell.contents ∧
        Follows cell.data cell'.data := by
    intro i cell' hi'
    rcases Nat.lt_or_ge i s.cells.length with hlt | hge
    · have hi := List.getElem?_eq_getElem hlt
      obtain ⟨cell'', hi'', hsame⟩ := hgrows i _ hi
      rw [hi'] at hi''
      cases hi''
      exact .inr ⟨_, hi, hsame⟩
    · rw [hcells, List.getElem?_append_right (by omega)] at hi'
      exact .inl (List.mem_singleton.mp (List.mem_of_getElem? hi'))
  refine ⟨hsound, fun i cell' hi' hsome => ?_, hheld, fun i cell' hi' h hmem => ?_,
    fun i cell' hi' inner segments hdata => ?_⟩
  · rcases hcase i cell' hi' with rfl | ⟨cell, hi, hsame, hfollows⟩
    · exact hplain hsome
    · rw [hsame]
      exact hs.plain i cell hi (by rwa [← hfollows.segments])
  · rcases hcase i cell' hi' with rfl | ⟨cell, hi, hsame, -⟩
    · exact (hs.held h (hcontents h hmem)).mono hgrows
    · exact (hs.contents i cell hi h (hsame ▸ hmem)).mono hgrows
  · rcases hcase i cell' hi' with rfl | ⟨cell, hi, -, hfollows⟩
    · exact hfresh inner segments hdata
    · exact hs.fresh i cell hi inner segments (hfollows.of_unlinked hdata)

end Modules

/-! ## Relocation -/

section Relocation

variable {proc : Process w K} {image : DynamicImage proc.arch} {P Q : Type}
  {helper : RelocHelper w P Q} {lazy : Option Bool} {lazyScope : Option (SymbolLookup w)}
  {os : OsState w K} {pre : P} {post : Q} {loaded : LoadedCore w} {r : RelocState w K P Q}

/-- The result of a relocation, also of one that had nothing to do. -/
theorem run_result (hrun : image.run proc helper lazy lazyScope os pre post = .ok loaded r) :
    loaded.core = image.core ∧
      loaded.deps = image.collectDeps proc helper.scope r.dependencyFlags := by
  cases hempty : image.relocation.isEmpty with
  | true =>
      rw [run_of_empty image helper lazy lazyScope os pre post hempty] at hrun
      cases hrun
      refine ⟨rfl, ?_⟩
      unfold DynamicImage.collectDeps
      rw [show (RelocState.start os pre post).dependencyFlags = [] from rfl, List.zip_nil_right]
      rfl
  | false =>
      refine ⟨?_, run_deps image helper lazy lazyScope os pre post hempty hrun⟩
      unfold DynamicImage.run at hrun
      rw [relocateImpl_eq image helper lazy lazyScope _ hempty] at hrun
      split at hrun
      · cases hrun
        rfl
      · cases hrun

/-- The copies that are kept are the dependencies. -/
theorem keptOf_labels {s : Modules w} {ks : List Nat} {scope : List (LoadedCore w)}
    (hscope : s.Scope ks scope) (flags : List Bool) {contents : List (Handle (Grip w))}
    (hpick : s.pick (image.keptOf ks scope flags) = some contents) :
    contents.map Handle.label = (image.collectDeps proc scope flags).map .loaded := by
  induction hscope generalizing flags contents with
  | nil =>
      cases hpick
      rfl
  | @cons k lib ks scope hk hrest ih =>
      cases flags with
      | nil =>
          cases hpick
          rfl
      | cons flag flags =>
          unfold DynamicImage.keptOf at hpick
          unfold DynamicImage.collectDeps
          rw [List.zip_cons_cons, List.zip_cons_cons, List.filterMap_cons] at hpick
          rw [List.zip_cons_cons, List.filterMap_cons]
          cases hkeep : (flag || image.neededLibs.contains lib.name) with
          | false =>
              simp only [hkeep, Bool.false_eq_true, if_false] at hpick ⊢
              exact ih flags hpick
          | true =>
              simp only [hkeep, if_true] at hpick ⊢
              obtain ⟨refs, hheld⟩ := hk
              unfold State.pick at hpick
              rw [List.mapM_cons, hheld] at hpick
              simp only [Option.bind_eq_bind, Option.bind_some, Option.bind_eq_some_iff,
                Option.pure_def, Option.some.injEq] at hpick
              obtain ⟨rest, hrest, rfl⟩ := hpick
              rw [List.map_cons, List.map_cons, ih flags hrest]
              rfl

end Relocation

namespace Modules

variable {proc : Process w K} {s s' : Modules w} {op : Op (Shared w) (Grip w)}

/-- What `link` does: a write to the record of the module, then a new list of
libraries whose reference joins the handle. -/
theorem link_spec {k : Nat} {loaded : LoadedCore w} {isInit : Bool} {copies : List Nat}
    (h : s.link k loaded isInit copies = some s') :
    ∃ cell inner segments linked s₁, s.cells[loaded.core.id]? = some cell ∧
      cell.data = .module inner segments linked ∧
      s.step (.update loaded.core.id (.module { inner with isInit } segments (some loaded))) =
        some s₁ ∧
      s₁.step (.attach k .deps copies (.loaded loaded)) = some s' := by
  unfold link at h
  simp only [Option.bind_eq_bind, Option.bind_eq_some_iff] at h
  obtain ⟨cell, hcell, hbranch⟩ := h
  split at hbranch
  · rename_i inner segments linked hdata
    obtain ⟨s₁, hupdate, hattach⟩ := Option.bind_eq_some_iff.mp hbranch
    exact ⟨cell, inner, segments, linked, s₁, hcell, hdata, hupdate, hattach⟩
  · cases hbranch

theorem held_of_update {i : Nat} {data : Shared w} (h : s.step (.update i data) = some s') :
    s'.held = s.held := by
  obtain ⟨cell, -, -, rfl⟩ := State.step_update h
  rfl

theorem length_of_update {i : Nat} {data : Shared w} (h : s.step (.update i data) = some s') :
    s'.cells.length = s.cells.length := by
  obtain ⟨cell, -, -, rfl⟩ := State.step_update h
  exact List.length_set ..

/-- A write that leaves the reservation as it is. -/
theorem grows_of_update {i : Nat} {data : Shared w} {cell : Cell (Shared w) (Grip w)}
    (hi : s.cells[i]? = some cell) (hdata : Follows cell.data data)
    (h : s.step (.update i data) = some s') : s.Grows s' := by
  intro j old hj
  obtain ⟨cell', hcell', hcontents, hsame | hupdate⟩ := State.step_cell h hj
  · exact ⟨cell', hcell', hcontents, congrArg _ hsame, .inl hsame⟩
  · cases hupdate
    rw [hi] at hj
    cases hj
    exact ⟨cell', hcell', hcontents, hdata⟩

theorem Consistent.link (hs : s.Consistent) {k : Nat} {loaded : LoadedCore w} {isInit : Bool}
    {copies refs : List Nat} (hk : s.held[k]? = some { label := .image loaded.core, refs })
    (hlabels : ∀ contents, s.pick copies = some contents →
      contents.map Handle.label = loaded.deps.map .loaded)
    (h : s.link k loaded isInit copies = some s') : s'.Consistent := by
  obtain ⟨cell, inner, segments, linked, s₁, hcell, hdata, hupdate, hattach⟩ := link_spec h
  have hgrows₁ := grows_of_update hcell ⟨by rw [hdata]; rfl, .inr rfl⟩ hupdate
  have hheld₁ := held_of_update hupdate
  have hcons := hs.of_same (State.step_sound hs.sound hupdate) hgrows₁ (length_of_update hupdate)
    fun h hmem => (hs.held h (hheld₁ ▸ hmem)).mono hgrows₁
  have hs' := State.step_sound hcons.sound hattach
  have hgrows := grows_of_step hattach nofun
  obtain ⟨handle, contents, hheld, hpick, rfl⟩ := State.step_attach.mp hattach
  have hhandle : handle = { label := .image loaded.core, refs } := by
    rw [hheld₁, hk] at hheld
    exact (Option.some.inj hheld).symm
  have hown := (hs.held _ (List.mem_of_getElem? hk)).mono (hgrows₁.trans hgrows)
  refine hcons.grow hs' hgrows (retain_length _ _) rfl nofun nofun (State.pick_mem hpick)
    fun h hmem => ?_
  rcases List.mem_or_eq_of_mem_set hmem with hmem | rfl
  · exact (hcons.held h hmem).mono hgrows
  · rw [hhandle]
    cases hown with
    | image hloaded =>
        refine .loaded hloaded ⟨_, State.getElem?_new _ _, rfl, hlabels contents ?_⟩
        rwa [State.pick, hheld₁] at hpick

theorem Consistent.loaded_of (hs : s.Consistent) {handle : Handle (Grip w)}
    (h : handle ∈ s.held) : s.Loaded handle.label.owner.id handle.label.owner.segments := by
  cases hs.held handle h with
  | image hloaded => exact hloaded
  | core hloaded => exact hloaded
  | loaded hloaded _ => exact hloaded

theorem consistent_init : Consistent (State.init : Modules w) where
  sound := State.init_sound
  plain := nofun
  held := nofun
  contents := nofun
  fresh := nofun

theorem Consistent.public (hs : s.Consistent) (hop : s.Public op) (h : s.step op = some s') :
    s'.Consistent := by
  cases hop with
  | clone hk =>
      obtain ⟨handle, hk', hs'⟩ := State.step_clone.mp h
      exact hs.hold h nofun hs' (hs.held handle (List.mem_of_getElem? hk'))
  | deps hk item =>
      obtain ⟨handle, i, cell, copied, hk', hi, hcell, hitem, hs'⟩ := State.step_extract.mp h
      exact hs.hold h nofun hs' (hs.contents i cell hcell copied (List.mem_of_getElem? hitem))
  | give t k =>
      have hgrows := grows_of_step h nofun
      obtain ⟨handle, hk, hs'⟩ := State.step_give.mp h
      refine hs.of_same (State.step_sound hs.sound h) hgrows (by rw [hs']) fun other hmem => ?_
      rw [hs'] at hmem
      exact (hs.held other (List.mem_of_mem_eraseIdx hmem)).mono hgrows
  | settle t =>
      have hgrows := grows_of_step h nofun
      obtain ⟨i, rest, cell, -, -, hcells, hheld, -⟩ := State.step_settle h
      refine hs.of_same (State.step_sound hs.sound h) hgrows ?_ fun other hmem => ?_
      · rw [hcells, List.length_set]
      · rw [hheld] at hmem
        exact (hs.held other hmem).mono hgrows

theorem Consistent.bare (hs : s.Consistent) (hop : s.Bare op) (h : s.step op = some s') :
    s'.Consistent := by
  cases hop with
  | @core k handle hk =>
      obtain ⟨handle', i, hk', hi, hs'⟩ := State.step_first.mp h
      rw [hk] at hk'
      cases hk'
      refine hs.hold h nofun hs' ?_
      have howner := hs.loaded_of (List.mem_of_getElem? hk)
      cases hs.held handle (List.mem_of_getElem? hk) with
      | image _ =>
          cases hi
          exact .core howner
      | core _ =>
          cases hi
          exact .core howner
      | loaded _ _ =>
          cases hi
          exact .core howner
  | clone hk =>
      obtain ⟨handle, hk', hs'⟩ := State.step_clone.mp h
      exact hs.hold h nofun hs' (hs.held handle (List.mem_of_getElem? hk'))
  | upgrade hloaded =>
      rcases State.step_upgrade h with rfl | ⟨-, hs'⟩
      · exact hs
      · exact hs.hold h nofun hs' (.core hloaded)

theorem Consistent.step (hs : s.Consistent) (h : Step proc s s') : s'.Consistent := by
  cases h with
  | load core fini finiArray hid h =>
      have hgrows := grows_of_step h nofun
      have hsound := State.step_sound hs.sound h
      cases h
      refine hs.grow hsound hgrows rfl rfl (fun _ => rfl) (fun _ _ hdata => ?_) nofun
        fun other hmem => ?_
      · cases hdata
        rfl
      rcases List.mem_append.mp hmem with hmem | hmem
      · exact (hs.held other hmem).mono hgrows
      · cases List.mem_singleton.mp hmem
        rw [← hid]
        exact .image ⟨_, hid ▸ List.getElem?_concat_length, rfl⟩
  | relocate hk hscope hrun h =>
      obtain ⟨hcore, hdeps⟩ := run_result hrun
      refine hs.link (by rw [hcore]; exact hk) (fun contents hpick => ?_) h
      rw [hdeps]
      exact keptOf_labels hscope _ hpick
  | relocateObject hk h =>
      refine hs.link hk (fun contents hpick => ?_) h
      cases hpick
      rfl
  | use hop h => exact hs.public hop h

theorem Reachable.consistent (h : Reachable proc s) : s.Consistent := by
  induction h with
  | refl => exact consistent_init
  | tail _ hstep ih =>
      cases hstep with
      | step h => exact ih.step h
      | bare hop h => exact ih.bare hop h

end Modules

/-! ## What stays mapped -/

namespace Modules

variable {proc : Process w K} {s s' : Modules w} {handle : Handle (Grip w)} {id : Nat}
  {segments : ElfSegments w}

theorem Consistent.reach_of_lib (hs : s.Consistent) {lib : LoadedCore w} {core : ElfCore w}
    (hkeeps : lib.Keeps core) (hcoherent : s.Coherent handle) (hlabel : handle.label = .loaded lib) :
    ∃ r ∈ handle.refs, s.Reach r core.id := by
  induction hkeeps generalizing handle with
  | own lib =>
      cases hcoherent with
      | image _ => cases hlabel
      | core _ => cases hlabel
      | loaded _ _ =>
          cases hlabel
          exact ⟨_, List.mem_cons_self, .refl⟩
  | dep hd _ ih =>
      cases hcoherent with
      | image _ => cases hlabel
      | core _ => cases hlabel
      | loaded _ hdeps =>
          cases hlabel
          obtain ⟨cell, hcell, -, hlabels⟩ := hdeps
          obtain ⟨item, hitem, hlabel⟩ := List.mem_map.mp
            (hlabels ▸ List.mem_map_of_mem (f := Grip.loaded) hd)
          obtain ⟨r, hr, hreach⟩ := ih (hs.contents _ _ hcell item hitem) hlabel
          refine ⟨_, List.mem_cons_of_mem _ List.mem_cons_self, .head ⟨cell, hcell, ?_⟩ hreach⟩
          exact mem_refsOf.mpr ⟨item, hitem, hr⟩

/-- What a handle keeps can be reached from its references. -/
theorem Consistent.reach_of_keeps (hs : s.Consistent) {core : ElfCore w}
    (hcoherent : s.Coherent handle) (hkeeps : handle.label.Keeps core) :
    ∃ r ∈ handle.refs, s.Reach r core.id := by
  cases hcoherent with
  | image _ =>
      cases hkeeps
      exact ⟨_, List.mem_cons_self, .refl⟩
  | core _ =>
      cases hkeeps
      exact ⟨_, List.mem_cons_self, .refl⟩
  | loaded h hdeps => exact hs.reach_of_lib hkeeps (.loaded h hdeps) rfl

/-- A module that can be reached from the references of a handle is kept by it. -/
theorem Consistent.keeps_of_reach (hs : s.Consistent) (hl : s.Loaded id segments) {r : Nat}
    (hreach : s.Reach r id) (hcoherent : s.Coherent handle) (hr : r ∈ handle.refs) :
    ∃ core, handle.label.Keeps core ∧ core.id = id := by
  induction hreach using Relation.ReflTransGen.head_induction_on generalizing handle with
  | refl =>
      cases hcoherent with
      | image _ => exact ⟨_, rfl, (List.mem_singleton.mp hr).symm⟩
      | core _ => exact ⟨_, rfl, (List.mem_singleton.mp hr).symm⟩
      | @loaded lib i _ hdeps =>
          rcases List.mem_cons.mp hr with rfl | hr
          · exact ⟨_, .own lib, rfl⟩
          · -- a list of libraries is no module
            cases List.mem_singleton.mp hr
            obtain ⟨cell, hcell, hnone, -⟩ := hdeps
            obtain ⟨cell', hcell', hsome⟩ := hl
            rw [hcell] at hcell'
            cases hcell'
            rw [hnone] at hsome
            cases hsome
  | @head r r₁ hpoints _ ih =>
      obtain ⟨cell, hcell, hmem⟩ := hpoints
      obtain ⟨item, hitem, hr₁⟩ := mem_refsOf.mp hmem
      have hmodule : ∀ {segs : ElfSegments w}, ¬ s.Loaded r segs := by
        rintro segs ⟨cell', hcell', hsome⟩
        rw [hcell] at hcell'
        cases hcell'
        rw [hs.plain r cell hcell (by rw [hsome]; rfl)] at hitem
        cases hitem
      cases hcoherent with
      | image hloaded =>
          cases List.mem_singleton.mp hr
          exact absurd hloaded hmodule
      | core hloaded =>
          cases List.mem_singleton.mp hr
          exact absurd hloaded hmodule
      | @loaded lib i hloaded hdeps =>
          rcases List.mem_cons.mp hr with rfl | hr
          · exact absurd hloaded hmodule
          · cases List.mem_singleton.mp hr
            obtain ⟨cell', hcell', -, hlabels⟩ := hdeps
            rw [hcell] at hcell'
            cases hcell'
            obtain ⟨d, hd, hlabel⟩ := List.mem_map.mp
              (hlabels ▸ List.mem_map_of_mem (f := Handle.label) hitem)
            obtain ⟨core, hkeeps, hid⟩ := ih (hs.contents _ _ hcell item hitem) hr₁
            rw [← hlabel] at hkeeps
            exact ⟨core, .dep hd hkeeps, hid⟩

/-- The memory of the module has not been unmapped. -/
def Mapped (s : Modules w) (id : Nat) : Prop := ∀ memory len, .munmap id memory len ∉ s.calls

theorem drop_id {id : Nat} {shared : Shared w} {call : DropCall w} (h : call ∈ shared.drop id) :
    call.id = id := by
  cases shared with
  | deps => cases h
  | module inner segments linked =>
      rcases List.mem_append.mp h with h | h
      · obtain ⟨fini, -, rfl⟩ := List.mem_map.mp h
        rfl
      · cases List.mem_singleton.mp h
        rfl

theorem Consistent.not_alive_of_call (hs : s.Consistent) {call : DropCall w}
    (h : call ∈ s.calls) : ¬ s.alive call.id := by
  obtain ⟨entry, hentry, hmem⟩ := List.mem_flatMap.mp h
  rw [drop_id hmem]
  exact ((hs.sound.dead entry.1).mp (List.mem_map_of_mem hentry)).2

theorem Consistent.mapped_of_alive (hs : s.Consistent) (halive : s.alive id) : s.Mapped id :=
  fun _ _ hcall => absurd halive (hs.not_alive_of_call hcall)

theorem Consistent.mapped_iff_alive (hs : s.Consistent) (hl : s.Loaded id segments) :
    s.Mapped id ↔ s.alive id := by
  obtain ⟨cell, hcell, hsegments⟩ := hl
  constructor
  · intro hmapped
    by_contra halive
    have hlt := (List.getElem?_eq_some_iff.mp hcell).1
    obtain ⟨⟨i, shared⟩, hentry, rfl⟩ := List.mem_map.mp ((hs.sound.dead id).mpr ⟨hlt, halive⟩)
    have hfinal := hs.sound.final _ hentry
    rw [hcell, Option.map_some] at hfinal
    cases hfinal
    cases hdata : cell.data with
    | deps =>
        rw [hdata] at hsegments
        cases hsegments
    | module inner segs linked =>
        have hdrop : .munmap i segs.memory segs.len ∈ cell.data.drop i := by
          rw [hdata]
          exact List.mem_append_right _ List.mem_cons_self
        exact hmapped segs.memory segs.len (List.mem_flatMap.mpr ⟨_, hentry, hdrop⟩)
  · exact hs.mapped_of_alive

/-- The handles reach the modules that they keep. -/
theorem Consistent.reach_held_iff (hs : s.Consistent) (hl : s.Loaded id segments) :
    (∃ r ∈ refsOf s.held, s.Reach r id) ↔
      ∃ handle ∈ s.held, ∃ core, handle.label.Keeps core ∧ core.id = id := by
  constructor
  · rintro ⟨r, hr, hreach⟩
    obtain ⟨handle, hheld, hr⟩ := mem_refsOf.mp hr
    exact ⟨handle, hheld, hs.keeps_of_reach hl hreach (hs.held handle hheld) hr⟩
  · rintro ⟨handle, hheld, core, hkeeps, rfl⟩
    obtain ⟨r, hr, hreach⟩ := hs.reach_of_keeps (hs.held handle hheld) hkeeps
    exact ⟨r, mem_refsOf.mpr ⟨handle, hheld, hr⟩, hreach⟩

/-- In every state of a process, whatever its threads do in which order, the memory
of a module is mapped exactly as long as a handle keeps the module or a thread has a
reference left from which it can be reached. -/
theorem mapped_iff_kept (h : Reachable proc s) (hl : s.Loaded id segments) :
    s.Mapped id ↔ (∃ handle ∈ s.held, ∃ core, handle.label.Keeps core ∧ core.id = id) ∨
      ∃ r ∈ s.threads.flatten, s.Reach r id := by
  have hs := h.consistent
  rw [hs.mapped_iff_alive hl, hs.sound.alive_iff_reach, ← hs.reach_held_iff hl]
  simp only [State.roots, List.mem_append, or_and_right, exists_or]

theorem Reachable.settles (h : Reachable proc s) (hsettles : s.Settles s') :
    Reachable proc s' := by
  induction hsettles with
  | refl => exact h
  | tail _ hstep ih =>
      obtain ⟨t, hstep⟩ := hstep
      exact ih.tail (.step (.use (.settle t) hstep))

theorem filter_calls {entries : List (Nat × Shared w)} (hnodup : (entries.map Prod.fst).Nodup)
    (id : Nat) :
    ((entries.flatMap fun entry => entry.2.drop entry.1).filter fun call => call.id = id) =
      match entries.find? fun entry => entry.1 = id with
      | some entry => entry.2.drop id
      | none => [] := by
  induction entries with
  | nil => rfl
  | cons entry entries ih =>
      rw [List.map_cons, List.nodup_cons] at hnodup
      rw [List.flatMap_cons, List.filter_append, ih hnodup.2, List.find?_cons]
      by_cases hid : entry.1 = id
      · subst hid
        have hrest : entries.find? (fun other => other.1 = entry.1) = none := by
          rw [List.find?_eq_none]
          intro other hother hsame
          exact hnodup.1 (of_decide_eq_true hsame ▸ List.mem_map_of_mem hother)
        rw [hrest, List.append_nil, decide_eq_true rfl,
          List.filter_eq_self.mpr fun call hcall => decide_eq_true (drop_id hcall)]
      · have hfirst : (entry.2.drop entry.1).filter (fun call => call.id = id) = [] := by
          rw [List.filter_eq_nil_iff]
          intro call hcall hsame
          exact hid ((drop_id hcall).symm.trans (of_decide_eq_true hsame))
        rw [hfirst, decide_eq_false hid, List.nil_append]

/-- The destructor calls about a module: none while it is mapped. Afterwards the fini
handler once if the module was initialised, then one `munmap` of its reservation; and
only a relocation that returned has initialised it. -/
theorem module_calls (h : Reachable proc s) {cell : Cell (Shared w) (Grip w)}
    {inner : CoreInner w} {linked : Option (LoadedCore w)} (hcell : s.cells[id]? = some cell)
    (hdata : cell.data = .module inner segments linked) :
    (s.Mapped id → (s.calls.filter fun call => call.id = id) = []) ∧
      (¬ s.Mapped id → (s.calls.filter fun call => call.id = id) =
        inner.drop.map (.fini id) ++ [.munmap id segments.memory segments.len]) ∧
      (linked = none → inner.isInit = false) := by
  have hs := h.consistent
  have hl : s.Loaded id segments := ⟨cell, hcell, by rw [hdata]; rfl⟩
  have hcalls := filter_calls hs.sound.once id
  rw [hs.mapped_iff_alive hl]
  refine ⟨fun halive => ?_, fun hdead => ?_, ?_⟩
  · rw [calls, hcalls]
    have hnone : s.destroyed.find? (fun entry => entry.1 = id) = none := by
      rw [List.find?_eq_none]
      intro entry hentry hid
      refine ((hs.sound.dead id).mp ?_).2 halive
      exact of_decide_eq_true hid ▸ List.mem_map_of_mem hentry
    rw [hnone]
  · have hlt := (List.getElem?_eq_some_iff.mp hcell).1
    obtain ⟨entry, hentry, hid⟩ := List.mem_map.mp ((hs.sound.dead id).mpr ⟨hlt, hdead⟩)
    have hsome : (s.destroyed.find? fun entry => entry.1 = id).isSome := by
      rw [List.find?_isSome]
      exact ⟨entry, hentry, decide_eq_true hid⟩
    obtain ⟨found, hfound⟩ := Option.isSome_iff_exists.mp hsome
    have hmem := List.mem_of_find?_eq_some hfound
    have hfinal := hs.sound.final found hmem
    have hfoundId := List.find?_some hfound
    rw [of_decide_eq_true hfoundId, hcell, Option.map_some, hdata] at hfinal
    rw [calls, hcalls, hfound]
    dsimp only
    rw [← Option.some.inj hfinal]
    rfl
  · rintro rfl
    exact hs.fresh id cell hcell inner segments hdata

section Bound

variable {image : DynamicImage proc.arch} {P Q : Type} {helper : RelocHelper w P Q}
  {lazy : Option Bool} {lazyScope : Option (SymbolLookup w)} {os : OsState w K} {pre : P} {post : Q}
  {loaded : LoadedCore w} {r : RelocState w K P Q} {handle : Handle (Grip w)}

theorem Consistent.alive_of_keeps (hs : s.Consistent) (hheld : handle ∈ s.held) {core : ElfCore w}
    (hkeeps : handle.label.Keeps core) : s.alive core.id := by
  obtain ⟨r, hr, hreach⟩ := hs.reach_of_keeps (hs.held handle hheld) hkeeps
  exact hs.sound.alive_of_reach
    (hs.sound.alive_of_root (List.mem_append_left _ (mem_refsOf.mpr ⟨handle, hheld, hr⟩))) hreach

/-- A definition that was used belongs to the module or to one of its libraries. -/
theorem keeps_of_use (hrun : image.run proc helper lazy lazyScope os pre post = .ok loaded r)
    {e : Event w} (he : e ∈ r.trace) {lib : LoadedCore w}
    (huses : UsesDefinition proc image helper e lib) :
    ∃ core, loaded.Keeps core ∧ core.id = lib.core.id := by
  by_cases hself : lib.core.id = image.core.id
  · exact ⟨loaded.core, .own loaded, by rw [(run_result hrun).1, hself]⟩
  · refine ⟨lib.core, .dep ?_ (.own lib), rfl⟩
    cases hempty : image.relocation.isEmpty with
    | true =>
        rw [run_of_empty image helper lazy lazyScope os pre post hempty] at hrun
        cases hrun
        cases he
    | false =>
        have heffect := run_effect image helper lazy lazyScope os pre post hempty
        rw [hrun] at heffect
        obtain ⟨flags, -, hfollow, hmem, -⟩ := heffect.loops
        obtain ⟨i, ref, hlib, hneeds, href, hentry⟩ := huses.needs hself
        have hlen : r.dependencyFlags.length = helper.scope.length := by
          rw [← List.length_replicate (n := helper.scope.length) (a := false), ← hfollow.length]
          rfl
        rw [run_deps image helper lazy lazyScope os pre post hempty hrun]
        exact mem_collectDeps hlib hlen
          (.inl (hfollow.covers e (hmem e he ref href hentry) i hneeds))

/-- A lookup takes the libraries of a lazy scope that exist for all of them. -/
theorem lookup_of_alive {ifunc : BitVec w → BitVec w} {alive : Nat → Bool} {scope : LazyScope w}
    (halive : ∀ lib ∈ scope.libs, alive lib.id = true) (name : Name) :
    scope.lookup ifunc alive name = scope.lookup ifunc (fun _ => true) name := by
  unfold LazyScope.lookup
  cases scope.customScope.bind (· name) with
  | some sym => rfl
  | none =>
      refine Search.findFirst_congr fun lib hlib => ?_
      rw [halive lib hlib]

theorem dlFixup_of_alive {alive : Nat → Bool} {idx : Nat} {r : RelocState w K P Q}
    (halive : ∀ scope, r.lazyScope = some scope → ∀ lib ∈ scope.libs, alive lib.id = true) :
    image.dlFixup proc alive idx r = image.dlFixup proc (fun _ => true) idx r := by
  unfold DynamicImage.dlFixup
  cases image.fixupEntry proc idx with
  | error e => rfl
  | ok rela =>
      rw [Exec.bind_of_ok (Exec.lift_ok rela r), Exec.bind_of_ok (Exec.lift_ok rela r)]
      split
      · cases image.core.symtab.symbolIdx rela.rSymbol with
        | error e => rfl
        | ok found =>
            rw [Exec.bind_of_ok (Exec.lift_ok found r), Exec.bind_of_ok (Exec.lift_ok found r)]
            dsimp only
            rw [Exec.bind_of_ok (Exec.get_apply r), Exec.bind_of_ok (Exec.get_apply r)]
            cases hscope : r.lazyScope with
            | none => rfl
            | some scope =>
                dsimp only
                rw [lookup_of_alive (halive scope hscope)]
      · rfl

/-- While a handle to a module is held, the memory of every module whose definitions
its relocation used is mapped, and a lazy binding without a custom scope finds what it
would find if nothing had ever been dropped. -/
theorem bound_modules_stay (h : Reachable proc s) (hheld : handle ∈ s.held)
    (hlabel : handle.label = .loaded loaded)
    (hrun : image.run proc helper lazy lazyScope os pre post = .ok loaded r) :
    (∀ e ∈ r.trace, ∀ lib, UsesDefinition proc image helper e lib → s.Mapped lib.core.id) ∧
      (lazy.getD image.lazy = true → lazyScope = none →
        ∀ calls r', image.dlFixups proc calls r = .ok () r' → ∀ idx,
          image.dlFixup proc (fun i => decide (s.alive i)) idx r' =
            image.dlFixup proc (fun _ => true) idx r') := by
  have hs := h.consistent
  have hkept : ∀ core, loaded.Keeps core → s.alive core.id := fun core hkeeps =>
    hs.alive_of_keeps hheld (by rwa [hlabel])
  refine ⟨fun e he lib huses => ?_, fun hlazy hcustom calls r' hcalls idx => ?_⟩
  · obtain ⟨core, hkeeps, hid⟩ := keeps_of_use hrun he huses
    exact hs.mapped_of_alive (hid ▸ hkept core hkeeps)
  · subst hcustom
    refine dlFixup_of_alive fun scope hscope lib hlib => decide_eq_true ?_
    cases hempty : image.relocation.isEmpty with
    | true =>
        rw [run_of_empty image helper lazy none os pre post hempty] at hrun
        cases hrun
        rw [dlFixups_lazyScope hcalls] at hscope
        cases hscope
    | false =>
        rw [dlFixups_lazyScope hcalls, run_lazyScope hlazy hempty hrun] at hscope
        cases hscope
        obtain ⟨member, hmember, rfl⟩ := List.mem_map.mp hlib
        obtain ⟨hin, hneeded⟩ := List.mem_filter.mp hmember
        exact hkept member.core
          (.dep (needed_mem_deps hempty hrun hin hneeded) (.own member))

end Bound

/-- Steps without handles to modules apart from their libraries. -/
theorem reachable_of_steps (h : Relation.ReflTransGen (Step proc) State.init s) :
    Reachable proc s := by
  induction h with
  | refl => exact .refl
  | tail _ hstep ih => exact ih.tail (.step hstep)

end Modules

end Process

namespace Modules

section Sample

attribute [local instance] constantHasher

/-- A library that defines `f`. -/
def library : ElfCore 64 := { (definesF none).core with id := 0 }

/-- A module that refers to it. -/
def user : ElfCore 64 := { refersToF with id := 2 }

def linkedUser : LoadedCore 64 := .fromCoreDeps user [.fromCore library]

/-- The four cells after both are relocated, with their counts. -/
def sampleCells (library_ libraryDeps user_ userDeps : Nat) : List (Cell (Shared 64) (Grip 64)) :=
  [⟨library_, [], .module ⟨false, none, none⟩ library.segments (some (.fromCore library))⟩,
    ⟨libraryDeps, [], .deps⟩,
    ⟨user_, [], .module ⟨true, some 0x10040, none⟩ user.segments (some linkedUser)⟩,
    ⟨userDeps, [⟨.loaded (.fromCore library), [0, 1]⟩], .deps⟩]

def linkedModules : Modules 64 where
  cells := sampleCells 2 2 1 1
  held := [⟨.loaded (.fromCore library), [0, 1]⟩, ⟨.loaded linkedUser, [2, 3]⟩]
  threads := []
  destroyed := []

/-- A thread has started to give the handle to the library back. -/
def givingLibrary : Modules 64 where
  cells := sampleCells 2 2 1 1
  held := [⟨.loaded linkedUser, [2, 3]⟩]
  threads := [[0, 1]]
  destroyed := []

def userOnly : Modules 64 where
  cells := sampleCells 1 1 1 1
  held := [⟨.loaded linkedUser, [2, 3]⟩]
  threads := [[]]
  destroyed := []

/-- Everything has been given back. -/
def nothingLeft : Modules 64 where
  cells := sampleCells 0 0 0 0
  held := []
  threads := [[]]
  destroyed := [2, 3, 0, 1].filterMap fun i =>
    ((sampleCells 0 0 0 0)[i]?).map fun cell => (i, cell.data)

theorem linkedModules_steps : Relation.ReflTransGen (Step sampleProcess) State.init linkedModules := by
  refine .head (.load library none none rfl rfl) ?_
  refine .head (@Step.relocateObject _ _ _ sampleProcess _ _ 0 library _ rfl rfl) ?_
  refine .head (.load user (some 0x10040) none rfl rfl) ?_
  refine .head (@Step.relocate _ _ _ sampleProcess _ _ _ _ 1 _ [0] (slotImage user)
    (plainHelper [.fromCore library]) (some false) none emptyMemory () () _ _ rfl
    (.cons ⟨_, rfl⟩ .nil) rfl rfl) ?_
  exact .refl

theorem givingLibrary_steps : Relation.ReflTransGen (Step sampleProcess) State.init givingLibrary :=
  linkedModules_steps.tail (.use (.give 0 0) rfl)

theorem userOnly_steps : Relation.ReflTransGen (Step sampleProcess) State.init userOnly := by
  refine givingLibrary_steps.trans (.head (.use (.settle 0) rfl) ?_)
  exact .single (.use (.settle 0) rfl)

theorem nothingLeft_steps : Relation.ReflTransGen (Step sampleProcess) State.init nothingLeft := by
  refine userOnly_steps.trans (.head (.use (.give 0 0) rfl) ?_)
  refine .head (.use (.settle 0) rfl) (.head (.use (.settle 0) rfl) ?_)
  exact .head (.use (.settle 0) rfl) (.single (.use (.settle 0) rfl))

theorem nothingLeft_calls :
    nothingLeft.calls =
      [.fini 2 ⟨some 0x10040, none⟩, .munmap 2 0x10000 0x1000] ++
        .munmap library.id 0x20000 0x1000 :: [] := rfl

/-- The library stays mapped for the module that keeps it. -/
theorem library_mapped_for_user : userOnly.Mapped 0 := by
  have hloaded : userOnly.Loaded 0 library.segments := ⟨_, rfl, rfl⟩
  refine (mapped_iff_kept (reachable_of_steps userOnly_steps) hloaded).mpr ?_
  exact .inl ⟨_, List.mem_cons_self, library, .dep List.mem_cons_self (.own _), rfl⟩

theorem user_calls :
    (nothingLeft.calls.filter fun call => call.id = 2) =
      [.fini 2 ⟨some 0x10040, none⟩, .munmap 2 0x10000 0x1000] := by
  have hcell : nothingLeft.cells[2]? =
      some ⟨0, [], .module ⟨true, some 0x10040, none⟩ user.segments (some linkedUser)⟩ := rfl
  refine (module_calls (reachable_of_steps nothingLeft_steps) hcell rfl).2.1 fun hmapped => ?_
  refine hmapped 0x10000 0x1000 ?_
  rw [nothingLeft_calls]
  simp

/-- The slot of the user was bound to the library, which is mapped. -/
theorem bound_library_mapped :
    ∃ r, (slotImage user).run sampleProcess (plainHelper [.fromCore library]) (some false) none
      emptyMemory () () = .ok linkedUser r ∧ userOnly.Mapped (LoadedCore.fromCore library).core.id := by
  obtain ⟨r, hrun, htrace⟩ : ∃ r,
      (slotImage user).run sampleProcess (plainHelper [.fromCore library]) (some false) none
          emptyMemory () () = .ok linkedUser r ∧
        r.trace = [.asked .pre slotRef, .answered .pre slotRef none,
          .stored slotRef emptyMemory.mem 0x10900 0x20100, .initCalled none none] :=
    ⟨_, rfl, rfl⟩
  refine ⟨r, hrun, (bound_modules_stay (reachable_of_steps userOnly_steps) List.mem_cons_self rfl
    hrun).1 (.stored slotRef emptyMemory.mem 0x10900 0x20100) ?_ (.fromCore library) ?_⟩
  · rw [htrace]
    simp
  · have hsym : (slotImage user).core.symtab.symbolIdx slotRef.rel.rSymbol =
        .ok (⟨1, ⟨1, 0, 8, 0x12, 0, 0⟩⟩, { name := [102], version := none }) := by
      rw [show slotRef.rel.rSymbol = 1 by decide]
      rfl
    exact .addr (.inr List.mem_cons_self) (.inr (.inr rfl)) hsym rfl rfl
      (firstProvider_eq_some_iff.mpr ⟨[], [], rfl, rfl, rfl, nofun⟩)

end Sample

end Modules

end ElfLoader
