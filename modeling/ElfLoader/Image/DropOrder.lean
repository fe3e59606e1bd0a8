import ElfLoader.Image.Sharing

/-! # The order of destructors

As long as nobody takes a module apart from its libraries, every reference to the
record of a relocated module comes with one to its list of libraries, and the record
is given back first. So a module is finalised and unmapped before any library it is
linked with.
-/

namespace ElfLoader

open SharedHeap

namespace Modules

section Order

variable {w : Nat} {K : Type} [CustomHasher]

/-- What comes about without handles to modules apart from their libraries. -/
def SafelyReachable (proc : Process w K) (s : Modules w) : Prop :=
  Relation.ReflTransGen (Step proc) State.init s

/-- What the relocation of a module returned, if it has returned. -/
def LinkedAs (s : Modules w) (id : Nat) (linked : Option (LoadedCore w)) : Prop :=
  ∃ cell, s.cells[id]? = some cell ∧ cell.data.segments?.isSome ∧ cell.data.linked? = linked

def imageId? (handle : Handle (Grip w)) : Option Nat :=
  match handle.label with
  | .image own => some own.id
  | _ => none

/-- The modules that are not relocated yet and can be. -/
def images (s : Modules w) : List Nat := s.held.filterMap imageId?

/-- What stands together among the references a thread gives back. -/
inductive Piece (s : Modules w) : List Nat → Prop
  | module {lib : LoadedCore w} {i : Nat} (h : s.LinkedAs lib.core.id (some lib))
      (hdeps : s.DepsAt i lib.deps) : Piece s [lib.core.id, i]
  | deps {i : Nat} {deps : List (LoadedCore w)} (h : s.DepsAt i deps) : Piece s [i]
  | image {id : Nat} (h : s.LinkedAs id none) (hout : id ∉ s.images) : Piece s [id]

/-- A handle is to an image that is not relocated, or to a module with what its
relocation returned. -/
inductive Whole (s : Modules w) : Handle (Grip w) → Prop
  | image {own : ElfCore w} (h : s.LinkedAs own.id none) :
      Whole s { label := .image own, refs := [own.id] }
  | loaded {lib : LoadedCore w} {i : Nat} (h : s.LinkedAs lib.core.id (some lib))
      (hdeps : s.DepsAt i lib.deps) : Whole s { label := .loaded lib, refs := [lib.core.id, i] }

structure Ordered (s : Modules w) : Prop where
  consistent : s.Consistent
  held : ∀ h ∈ s.held, s.Whole h
  contents : ∀ (i : Nat) (cell : Cell (Shared w) (Grip w)), s.cells[i]? = some cell →
    ∀ h ∈ cell.contents, s.Whole h ∧ imageId? h = none
  images : s.images.Nodup
  threads : ∀ refs ∈ s.threads, ∃ pieces : List (List Nat), refs = pieces.flatten ∧
    ∀ piece ∈ pieces, s.Piece piece

variable {proc : Process w K} {s s' : Modules w} {op : Op (Shared w) (Grip w)}
  {handle : Handle (Grip w)} {id : Nat} {lib : LoadedCore w}

/-- The records of a module apart, nothing is written. -/
def KeepsLinked (s s' : Modules w) (except : Option Nat) : Prop :=
  ∀ id linked, s.LinkedAs id linked → some id ≠ except → s'.LinkedAs id linked

theorem keepsLinked_of_step (h : s.step op = some s') (hop : ∀ i data, op ≠ .update i data) :
    s.KeepsLinked s' none := by
  rintro id linked ⟨cell, hcell, hsome, hlinked⟩ -
  obtain ⟨cell', hcell', -, hdata | hupdate⟩ := State.step_cell h hcell
  · exact ⟨cell', hcell', by rwa [hdata], by rwa [hdata]⟩
  · exact absurd hupdate (hop id cell'.data)

theorem LinkedAs.unique {linked linked' : Option (LoadedCore w)} (h : s.LinkedAs id linked)
    (h' : s.LinkedAs id linked') : linked = linked' := by
  obtain ⟨cell, hcell, -, rfl⟩ := h
  obtain ⟨cell', hcell', -, rfl⟩ := h'
  rw [hcell] at hcell'
  cases hcell'
  rfl

theorem Whole.mono (h : s.Whole handle) (hgrows : s.Grows s') {except : Option Nat}
    (hlinked : s.KeepsLinked s' except) (hne : some handle.label.owner.id ≠ except) :
    s'.Whole handle := by
  cases h with
  | image h => exact .image (hlinked _ _ h hne)
  | loaded h hdeps => exact .loaded (hlinked _ _ h hne) (hdeps.mono hgrows)

theorem imageId?_owner (h : imageId? handle = some id) : handle.label.owner.id = id := by
  unfold imageId? at h
  split at h
  · rename_i hlabel
    cases h
    rw [hlabel]
    rfl
  · cases h

theorem Coherent.whole {refs : List Nat} (h : s.Coherent { label := .loaded lib, refs })
    (hlinked : s.LinkedAs lib.core.id (some lib)) :
    s.Whole { label := .loaded lib, refs } := by
  cases h with
  | loaded _ hdeps => exact .loaded hlinked hdeps

theorem Piece.mono {piece : List Nat} (h : s.Piece piece) (hgrows : s.Grows s')
    {except : Option Nat} (hlinked : s.KeepsLinked s' except)
    (hne : ∀ id linked, s.LinkedAs id linked → some id = except → linked = none ∧ id ∈ s.images)
    (himages : ∀ id ∈ s'.images, id ∈ s.images ∨ s.cells.length ≤ id) : s'.Piece piece := by
  cases h with
  | module h hdeps =>
      refine .module (hlinked _ _ h fun heq => ?_) (hdeps.mono hgrows)
      cases (hne _ _ h heq).1
  | deps h => exact .deps (h.mono hgrows)
  | image h hout =>
      refine .image (hlinked _ _ h fun heq => hout (hne _ _ h heq).2) fun hin => ?_
      obtain ⟨cell, hcell, -⟩ := h
      rcases himages _ hin with hin | hge
      · exact hout hin
      · have hlt := (List.getElem?_eq_some_iff.mp hcell).1
        omega

/-- References that consist of pieces. -/
def Pieces (s : Modules w) (refs : List Nat) : Prop :=
  ∃ pieces : List (List Nat), refs = pieces.flatten ∧ ∀ piece ∈ pieces, s.Piece piece

theorem Pieces.cons {piece refs : List Nat} (hpiece : s.Piece piece) (h : s.Pieces refs) :
    s.Pieces (piece ++ refs) := by
  obtain ⟨pieces, rfl, hall⟩ := h
  exact ⟨piece :: pieces, rfl, List.forall_mem_cons.mpr ⟨hpiece, hall⟩⟩

/-- The first reference: of a module with its libraries next, of a list of libraries,
or of an image. -/
theorem Pieces.head {i : Nat} {rest : List Nat} (h : s.Pieces (i :: rest)) :
    (∃ lib j rest', i = lib.core.id ∧ rest = j :: rest' ∧ s.LinkedAs i (some lib) ∧
        s.DepsAt j lib.deps) ∨
      (∃ deps, s.DepsAt i deps) ∨ s.LinkedAs i none := by
  obtain ⟨pieces, hflat, hall⟩ := h
  induction pieces with
  | nil => cases hflat
  | cons piece pieces ih =>
      cases hall piece List.mem_cons_self with
      | module hlinked hdeps =>
          cases hflat
          exact .inl ⟨_, _, _, rfl, rfl, hlinked, hdeps⟩
      | deps hdeps =>
          cases hflat
          exact .inr (.inl ⟨_, hdeps⟩)
      | image hlinked _ =>
          cases hflat
          exact .inr (.inr hlinked)

theorem Pieces.tail {i : Nat} {rest : List Nat} (h : s.Pieces (i :: rest)) : s.Pieces rest := by
  obtain ⟨pieces, hflat, hall⟩ := h
  cases pieces with
  | nil => cases hflat
  | cons piece pieces =>
      have hrest := fun piece hmem => hall piece (List.mem_cons_of_mem _ hmem)
      cases hall piece List.mem_cons_self with
      | module _ hdeps =>
          cases hflat
          exact Pieces.cons (.deps hdeps) ⟨pieces, rfl, hrest⟩
      | deps _ =>
          cases hflat
          exact ⟨pieces, rfl, hrest⟩
      | image _ _ =>
          cases hflat
          exact ⟨pieces, rfl, hrest⟩

/-- Whole handles that are no images are pieces. -/
theorem Pieces.of_handles {handles : List (Handle (Grip w))}
    (h : ∀ handle ∈ handles, s.Whole handle ∧ imageId? handle = none) {rest : List Nat}
    (hrest : s.Pieces rest) : s.Pieces (refsOf handles ++ rest) := by
  induction handles with
  | nil => exact hrest
  | cons handle handles ih =>
      obtain ⟨hfirst, hothers⟩ := List.forall_mem_cons.mp h
      rw [refsOf, List.flatMap_cons, List.append_assoc]
      refine Pieces.cons ?_ (ih hothers)
      obtain ⟨hwhole, hnone⟩ := hfirst
      cases hwhole with
      | image _ => cases hnone
      | loaded hlinked hdeps => exact .module hlinked hdeps

/-- What a step keeps that writes to no record. -/
theorem Ordered.of_step (hs : s.Ordered) (hcons : s'.Consistent) (h : s.step op = some s')
    (hop : ∀ i data, op ≠ .update i data)
    (himages : ∀ id ∈ s'.images, id ∈ s.images ∨ s.cells.length ≤ id) (hnodup : s'.images.Nodup)
    (hheld : ∀ h ∈ s'.held, s.Whole h ∨ s'.Whole h)
    (hnew : ∀ (i : Nat) (cell : Cell (Shared w) (Grip w)), s.cells.length ≤ i →
      s'.cells[i]? = some cell → ∀ h ∈ cell.contents, s'.Whole h ∧ imageId? h = none)
    (hthreads : ∀ refs ∈ s'.threads, s.Pieces refs ∨ s'.Pieces refs) : s'.Ordered := by
  have hgrows := grows_of_step h hop
  have hlinked := keepsLinked_of_step h hop
  refine ⟨hcons, fun h hmem => ?_, fun i cell' hi' h hmem => ?_, hnodup, fun refs hmem => ?_⟩
  · rcases hheld h hmem with hwhole | hwhole
    · exact hwhole.mono hgrows hlinked nofun
    · exact hwhole
  · rcases Nat.lt_or_ge i s.cells.length with hlt | hge
    · have hi := List.getElem?_eq_getElem hlt
      obtain ⟨cell'', hi'', hcontents, -⟩ := hgrows i _ hi
      rw [hi'] at hi''
      cases hi''
      obtain ⟨hwhole, hnone⟩ := hs.contents i _ hi h (hcontents ▸ hmem)
      exact ⟨hwhole.mono hgrows hlinked nofun, hnone⟩
    · exact hnew i cell' hge hi' h hmem
  · rcases hthreads refs hmem with hpieces | hpieces
    · obtain ⟨pieces, rfl, hall⟩ := hpieces
      exact ⟨pieces, rfl, fun piece hpiece =>
        (hall piece hpiece).mono hgrows hlinked (fun _ _ _ => nofun) himages⟩
    · exact hpieces

/-- A copy of a handle that is no image. -/
theorem Ordered.hold (hs : s.Ordered) (hcons : s'.Consistent) (h : s.step op = some s')
    (hop : ∀ i data, op ≠ .update i data) (hs' : s' = s.hold handle) (hwhole : s.Whole handle)
    (hnone : imageId? handle = none) : s'.Ordered := by
  have himages : s'.images = s.images := by
    rw [hs', Modules.images, State.hold, List.filterMap_append, List.filterMap_cons_none hnone,
      List.filterMap_nil, List.append_nil]
    rfl
  refine hs.of_step hcons h hop (fun id hid => .inl (himages ▸ hid)) (himages ▸ hs.images)
    (fun other hmem => ?_) (fun i cell hge hi => ?_) fun refs hmem => .inl ?_
  · rw [hs', State.hold] at hmem
    rcases List.mem_append.mp hmem with hmem | hmem
    · exact .inl (hs.held other hmem)
    · cases List.mem_singleton.mp hmem
      exact .inl hwhole
  · have hlt := (List.getElem?_eq_some_iff.mp hi).1
    rw [hs', State.hold, retain_length] at hlt
    omega
  · rw [hs'] at hmem
    exact hs.threads refs hmem

theorem Whole.lt (h : s.Whole handle) (himage : imageId? handle = some id) :
    id < s.cells.length := by
  cases h with
  | image h =>
      cases himage
      obtain ⟨cell, hcell, -⟩ := h
      exact (List.getElem?_eq_some_iff.mp hcell).1
  | loaded _ _ => cases himage

theorem images_eraseIdx {handles : List (Handle (Grip w))} {k : Nat}
    (hnodup : (handles.filterMap imageId?).Nodup) (hk : handles[k]? = some handle)
    (himage : imageId? handle = some id) : id ∉ (handles.eraseIdx k).filterMap imageId? := by
  induction handles generalizing k with
  | nil => cases hk
  | cons first handles ih =>
      cases k with
      | zero =>
          cases hk
          rw [List.filterMap_cons_some himage, List.nodup_cons] at hnodup
          exact hnodup.1
      | succ k =>
          rw [List.eraseIdx_cons_succ]
          have hmem : id ∈ handles.filterMap imageId? :=
            List.mem_filterMap.mpr ⟨handle, List.mem_of_getElem? hk, himage⟩
          cases hfirst : imageId? first with
          | none =>
              rw [List.filterMap_cons_none hfirst] at hnodup ⊢
              exact ih hnodup hk
          | some other =>
              rw [List.filterMap_cons_some hfirst] at hnodup ⊢
              rw [List.nodup_cons] at hnodup
              intro hin
              rcases List.mem_cons.mp hin with rfl | hin
              · exact hnodup.1 hmem
              · exact ih hnodup.2 hk hin

theorem Ordered.public (hs : s.Ordered) (hop : s.Public op) (h : s.step op = some s') :
    s'.Ordered := by
  have hcons := hs.consistent.public hop h
  cases hop with
  | clone hk =>
      obtain ⟨handle, hk', hs'⟩ := State.step_clone.mp h
      rw [hk] at hk'
      cases hk'
      exact hs.hold hcons h nofun hs' (hs.held _ (List.mem_of_getElem? hk)) rfl
  | deps hk item =>
      obtain ⟨handle, i, cell, copied, hk', hi, hcell, hitem, hs'⟩ := State.step_extract.mp h
      obtain ⟨hwhole, hnone⟩ := hs.contents i cell hcell copied (List.mem_of_getElem? hitem)
      exact hs.hold hcons h nofun hs' hwhole hnone
  | give t k =>
      obtain ⟨handle, hk, hs'⟩ := State.step_give.mp h
      have himages : s'.images = (s.held.eraseIdx k).filterMap imageId? := by rw [hs']; rfl
      have hsub : s'.images.Sublist s.images := by
        rw [himages]
        exact (List.eraseIdx_sublist _ _).filterMap _
      -- the references of the handle are a piece of their own
      have hpiece : s'.Piece handle.refs := by
        have hgrows := grows_of_step h nofun
        have hlinked := keepsLinked_of_step h nofun
        cases (hs.held handle (List.mem_of_getElem? hk)).mono hgrows hlinked nofun with
        | image hlinked =>
            exact .image hlinked (himages ▸ images_eraseIdx hs.images hk rfl)
        | loaded hlinked hdeps => exact .module hlinked hdeps
      have hmono : ∀ refs, s.Pieces refs → s'.Pieces refs := by
        rintro refs ⟨pieces, rfl, hall⟩
        exact ⟨pieces, rfl, fun piece hmem => (hall piece hmem).mono (grows_of_step h nofun)
          (keepsLinked_of_step h nofun) (fun _ _ _ => nofun) fun id hid => .inl (hsub.subset hid)⟩
      refine hs.of_step hcons h nofun (fun id hid => .inl (hsub.subset hid))
        (hs.images.sublist hsub) (fun other hmem => .inl ?_) (fun i cell hge hi => ?_)
        fun refs hmem => .inr ?_
      · rw [hs'] at hmem
        exact hs.held other (List.mem_of_mem_eraseIdx hmem)
      · rw [hs'] at hi
        have hlt := (List.getElem?_eq_some_iff.mp hi).1
        dsimp only at hlt
        omega
      · rw [hs'] at hmem
        dsimp only [State.push] at hmem
        split at hmem
        · rename_i ht
          rcases List.mem_or_eq_of_mem_set hmem with hmem | rfl
          · exact hmono refs (hs.threads refs hmem)
          · exact .cons hpiece (hmono _ (hs.threads _ (List.getElem_mem ht)))
        · rcases List.mem_append.mp hmem with hmem | hmem
          · exact hmono refs (hs.threads refs hmem)
          · cases List.mem_singleton.mp hmem
            rw [← List.append_nil handle.refs]
            exact .cons hpiece ⟨[], rfl, nofun⟩
  | settle t =>
      obtain ⟨i, rest, cell, ht, hi, hcells, hheld, hcase⟩ := State.step_settle h
      have himages : s'.images = s.images := by rw [Modules.images, hheld]; rfl
      have htail := (show s.Pieces (i :: rest) from hs.threads _ (List.mem_of_getElem? ht)).tail
      refine hs.of_step hcons h nofun (fun id hid => .inl (himages ▸ hid)) (himages ▸ hs.images)
        (fun other hmem => .inl ?_) (fun j cell hge hj => ?_) fun refs hmem => .inl ?_
      · rw [hheld] at hmem
        exact hs.held other hmem
      · have hlt := (List.getElem?_eq_some_iff.mp hj).1
        rw [hcells, List.length_set] at hlt
        omega
      · rcases hcase with ⟨-, hthreads, -⟩ | ⟨-, hthreads, -⟩
        · rw [hthreads] at hmem
          rcases List.mem_or_eq_of_mem_set hmem with hmem | rfl
          · exact hs.threads refs hmem
          · exact .of_handles (hs.contents i cell hi) htail
        · rw [hthreads] at hmem
          rcases List.mem_or_eq_of_mem_set hmem with hmem | rfl
          · exact hs.threads refs hmem
          · exact htail

theorem ordered_init : Ordered (State.init : Modules w) where
  consistent := consistent_init
  held := nofun
  contents := nofun
  images := List.nodup_nil
  threads := nofun

theorem images_set {handles : List (Handle (Grip w))} {k : Nat} {new : Handle (Grip w)}
    (hnew : imageId? new = none) :
    ((handles.set k new).filterMap imageId?).Sublist (handles.filterMap imageId?) := by
  induction handles generalizing k with
  | nil => exact List.Sublist.refl _
  | cons first handles ih =>
      cases k with
      | zero =>
          rw [List.set_cons_zero, List.filterMap_cons_none hnew, List.filterMap_cons]
          split
          · exact List.Sublist.refl _
          · exact List.sublist_cons_self _ _
      | succ k =>
          rw [List.set_cons_succ, List.filterMap_cons, List.filterMap_cons]
          split
          · exact ih
          · exact ih.cons_cons _

theorem images_set_not_mem {handles : List (Handle (Grip w))} {k : Nat}
    {new : Handle (Grip w)} (hnew : imageId? new = none)
    (hnodup : (handles.filterMap imageId?).Nodup) (hk : handles[k]? = some handle)
    (himage : imageId? handle = some id) : id ∉ (handles.set k new).filterMap imageId? := by
  intro hmem
  obtain ⟨other, hother, hid⟩ := List.mem_filterMap.mp hmem
  obtain ⟨j, hj⟩ := List.mem_iff_getElem?.mp hother
  by_cases hne : j = k
  · subst hne
    rw [List.getElem?_set_self (List.getElem?_eq_some_iff.mp hk).1] at hj
    cases hj
    rw [hnew] at hid
    cases hid
  · rw [List.getElem?_set_ne (Ne.symm hne)] at hj
    have hout := images_eraseIdx hnodup hk himage
    refine hout (List.mem_filterMap.mpr ⟨other, ?_, hid⟩)
    exact List.mem_eraseIdx_iff_getElem?.mpr ⟨j, hne, hj⟩

theorem Ordered.load (hs : s.Ordered) {own : ElfCore w} {inner : CoreInner w}
    (hid : own.id = s.cells.length)
    (h : s.step (.alloc (.module inner own.segments none) (.image own)) = some s')
    (hcons : s'.Consistent) : s'.Ordered := by
  have hstep := h
  cases h
  have hnew : (s.cells ++ [(⟨1, [], .module inner own.segments none⟩ :
      Cell (Shared w) (Grip w))])[own.id]? = some ⟨1, [], .module inner own.segments none⟩ :=
    hid ▸ List.getElem?_concat_length
  have himages : Modules.images { s with
      cells := s.cells ++ [{ strong := 1, contents := [], data := .module inner own.segments none }]
      held := s.held ++ [{ label := .image own, refs := [s.cells.length] }] } =
        s.images ++ [own.id] := List.filterMap_append
  refine hs.of_step hcons hstep nofun (fun id hmem => ?_) ?_ (fun other hmem => ?_)
    (fun i cell hge hi => ?_) fun refs hmem => .inl (hs.threads refs hmem)
  · rw [himages] at hmem
    rcases List.mem_append.mp hmem with hmem | hmem
    · exact .inl hmem
    · exact .inr (by rw [List.mem_singleton.mp hmem, hid])
  · rw [himages, List.nodup_append]
    refine ⟨hs.images, List.nodup_singleton _, fun id hmem other hother => ?_⟩
    rw [List.mem_singleton.mp hother, hid]
    obtain ⟨handle, hheld, himage⟩ := List.mem_filterMap.mp hmem
    exact Nat.ne_of_lt ((hs.held handle hheld).lt himage)
  · rcases List.mem_append.mp hmem with hmem | hmem
    · exact .inl (hs.held other hmem)
    · cases List.mem_singleton.mp hmem
      rw [← hid]
      exact .inr (.image ⟨_, hnew, rfl, rfl⟩)
  · rw [List.getElem?_append_right hge] at hi
    cases List.mem_singleton.mp (List.mem_of_getElem? hi)
    nofun

/-- An image becomes a module; the records of all others are left alone. -/
theorem Ordered.link (hs : s.Ordered) {k : Nat} {loaded : LoadedCore w} {isInit : Bool}
    {copies refs : List Nat} (hk : s.held[k]? = some { label := .image loaded.core, refs })
    (hlabels : ∀ contents, s.pick copies = some contents →
      contents.map Handle.label = loaded.deps.map .loaded)
    (h : s.link k loaded isInit copies = some s') : s'.Ordered := by
  have hcons := hs.consistent.link hk hlabels h
  obtain ⟨cell, inner, segments, linked, s₁, hcell, hdata, hupdate, hattach⟩ := link_spec h
  have hgrows₁ := grows_of_update hcell ⟨by rw [hdata]; rfl, .inr rfl⟩ hupdate
  have hgrows := hgrows₁.trans (grows_of_step hattach (by simp))
  have hlinked₂ := keepsLinked_of_step hattach (by simp)
  obtain ⟨cell', hcell', hne, hs₁⟩ := State.step_update hupdate
  rw [hcell] at hcell'
  cases hcell'
  obtain ⟨handle, contents, hheld, hpick, hs'⟩ := State.step_attach.mp hattach
  have hheld₁ : s₁.held = s.held := by rw [hs₁]
  rw [State.pick, hheld₁] at hpick
  have himageId : imageId? ({ label := .image loaded.core, refs } : Handle (Grip w)) =
      some loaded.core.id := rfl
  have hownImage : loaded.core.id ∈ s.images :=
    List.mem_filterMap.mpr ⟨_, List.mem_of_getElem? hk, himageId⟩
  have hown : s.LinkedAs loaded.core.id none := by
    cases hs.held _ (List.mem_of_getElem? hk) with
    | image h => exact h
  -- the write is to the record of the image only
  have hlinked : s.KeepsLinked s' (some loaded.core.id) := by
    rintro id other ⟨old, hold, hsome, hother⟩ hid
    refine hlinked₂ id other ⟨old, ?_, hsome, hother⟩ (by simp)
    rw [hs₁]
    exact (List.getElem?_set_ne fun heq => hid (by rw [heq])).trans hold
  have hnewLinked : s'.LinkedAs loaded.core.id (some loaded) := by
    refine hlinked₂ _ _ ⟨{ cell with data := .module { inner with isInit } segments (some loaded) },
      ?_, rfl, rfl⟩ (by simp)
    rw [hs₁]
    exact List.getElem?_set_self (List.getElem?_eq_some_iff.mp hcell).1
  have hlen : s₁.cells.length = s.cells.length := length_of_update hupdate
  set new : Handle (Grip w) := { label := .loaded loaded, refs := handle.refs ++ [s₁.cells.length] }
  have himages : s'.images = (s.held.set k new).filterMap imageId? := by
    rw [hs', ← hheld₁]
    rfl
  have hsub : s'.images.Sublist s.images := by
    rw [himages]
    exact images_set rfl
  -- handles other than the image are to other modules, or to it as it is now
  have hwhole : ∀ other, s.Whole other → other.label.owner.id ≠ loaded.core.id →
      s'.Whole other := fun other hother hid =>
    hother.mono hgrows hlinked fun heq => hid (Option.some.inj heq)
  have hloadedNe : ∀ other, s.Whole other → imageId? other = none →
      other.label.owner.id ≠ loaded.core.id := by
    intro other hother hnone hid
    cases hother with
    | image _ => cases hnone
    | loaded hlib _ =>
        rw [show (Grip.loaded _).owner.id = _ from rfl] at hid
        cases (hid ▸ hlib).unique hown
  refine ⟨hcons, fun other hmem => ?_, fun i old hi other hmem => ?_, hs.images.sublist hsub,
    fun refs hmem => ?_⟩
  · rw [hs', hheld₁] at hmem
    rcases List.mem_or_eq_of_mem_set hmem with hin | heq
    · refine hwhole other (hs.held other hin) fun hid => ?_
      cases himage : imageId? other with
      | none => exact hloadedNe other (hs.held other hin) himage hid
      | some o =>
          have ho : o = loaded.core.id := (imageId?_owner himage).symm.trans hid
          refine images_set_not_mem (rfl : imageId? new = none) hs.images hk himageId ?_
          exact List.mem_filterMap.mpr ⟨other, hmem, ho ▸ himage⟩
    · rw [heq]
      refine (hcons.held new ?_).whole hnewLinked
      rw [hs', hheld₁]
      exact heq ▸ hmem
  · rcases Nat.lt_or_ge i s.cells.length with hlt | hge
    · obtain ⟨cell'', hi'', hcontents, -⟩ := hgrows i _ (List.getElem?_eq_getElem hlt)
      rw [hi] at hi''
      cases hi''
      obtain ⟨hother, hnone⟩ := hs.contents i _ (List.getElem?_eq_getElem hlt) other
        (hcontents ▸ hmem)
      exact ⟨hwhole other hother (hloadedNe other hother hnone), hnone⟩
    · rw [hs', List.getElem?_append_right (by rw [retain_length, hlen]; exact hge)] at hi
      cases List.mem_singleton.mp (List.mem_of_getElem? hi)
      obtain ⟨d, -, hd⟩ := List.mem_map.mp
        (hlabels contents hpick ▸ List.mem_map_of_mem (f := Handle.label) hmem)
      have hnone : imageId? other = none := by
        rw [imageId?, ← hd]
      have hother := hs.held other (State.pick_mem hpick other hmem)
      exact ⟨hwhole other hother (hloadedNe other hother hnone), hnone⟩
  · rw [hs', hs₁] at hmem
    obtain ⟨pieces, rfl, hall⟩ := hs.threads refs hmem
    refine ⟨pieces, rfl, fun piece hpiece => (hall piece hpiece).mono hgrows hlinked ?_
      fun id hid => .inl (hsub.subset hid)⟩
    intro id other hother heq
    cases heq
    exact ⟨hother.unique hown, hownImage⟩

theorem Ordered.step (hs : s.Ordered) (h : Step proc s s') : s'.Ordered := by
  have hcons := hs.consistent.step h
  cases h with
  | load core fini finiArray hid h => exact hs.load hid h hcons
  | relocate hk hscope hrun h =>
      obtain ⟨hcore, hdeps⟩ := run_result hrun
      refine hs.link (by rw [hcore]; exact hk) (fun contents hpick => ?_) h
      rw [hdeps]
      exact keptOf_labels hscope _ hpick
  | relocateObject hk h =>
      refine hs.link hk (fun contents hpick => ?_) h
      cases hpick
      rfl
  | use hop h => exact hs.public hop h

theorem SafelyReachable.ordered (h : SafelyReachable proc s) : s.Ordered := by
  induction h with
  | refl => exact ordered_init
  | tail _ hstep ih => exact ih.step hstep

/-! ## Libraries outlive what is linked with them -/

/-- What a list of libraries keeps is alive with it. -/
theorem Consistent.alive_of_deps (hs : s.Consistent) {i : Nat} {deps : List (LoadedCore w)}
    (hi : s.alive i) (hdeps : s.DepsAt i deps) {d : LoadedCore w} (hd : d ∈ deps)
    {core : ElfCore w} (hkeeps : d.Keeps core) : s.alive core.id := by
  obtain ⟨cell, hcell, -, hlabels⟩ := hdeps
  obtain ⟨item, hitem, hlabel⟩ := List.mem_map.mp
    (hlabels ▸ List.mem_map_of_mem (f := Grip.loaded) hd)
  obtain ⟨r, hr, hreach⟩ := hs.reach_of_lib hkeeps (hs.contents _ _ hcell item hitem) hlabel
  refine hs.sound.alive_of_reach (hs.sound.alive_of_points hi ⟨cell, hcell, ?_⟩) hreach
  exact mem_refsOf.mpr ⟨item, hitem, hr⟩

theorem DepsAt.not_linked {i : Nat} {deps : List (LoadedCore w)}
    {linked : Option (LoadedCore w)} (h : s.DepsAt i deps) : ¬ s.LinkedAs i linked := by
  rintro ⟨cell', hcell', hsome, -⟩
  obtain ⟨cell, hcell, hnone, -⟩ := h
  rw [hcell] at hcell'
  cases hcell'
  rw [hnone] at hsome
  cases hsome

/-- A handle with a reference to a linked module has one to its list of libraries. -/
theorem Whole.partner (h : s.Whole handle) (hid : id ∈ handle.refs)
    (hlinked : s.LinkedAs id (some lib)) :
    id = lib.core.id ∧ ∃ i ∈ handle.refs, s.DepsAt i lib.deps := by
  cases h with
  | image hnone =>
      cases List.mem_singleton.mp hid
      cases hnone.unique hlinked
  | loaded hlib hdeps =>
      rcases List.mem_cons.mp hid with rfl | hid
      · cases hlib.unique hlinked
        exact ⟨rfl, _, List.mem_cons_of_mem _ List.mem_cons_self, hdeps⟩
      · cases List.mem_singleton.mp hid
        exact absurd hlinked hdeps.not_linked

theorem Piece.partner {piece : List Nat} (h : s.Piece piece) (hid : id ∈ piece)
    (hlinked : s.LinkedAs id (some lib)) :
    id = lib.core.id ∧ ∃ i ∈ piece, s.DepsAt i lib.deps := by
  cases h with
  | image hnone _ =>
      cases List.mem_singleton.mp hid
      cases hnone.unique hlinked
  | deps hdeps =>
      cases List.mem_singleton.mp hid
      exact absurd hlinked hdeps.not_linked
  | module hlib hdeps =>
      exact (Whole.loaded hlib hdeps).partner hid hlinked

/-- A linked module that is alive: so is its list of libraries. -/
theorem Ordered.partner (hs : s.Ordered) (halive : s.alive id)
    (hlinked : s.LinkedAs id (some lib)) :
    id = lib.core.id ∧ ∃ i, s.alive i ∧ s.DepsAt i lib.deps := by
  have hsound := hs.consistent.sound
  rcases List.mem_append.mp (hsound.alive_iff.mp halive) with hroot | hcell
  · rcases List.mem_append.mp hroot with hheld | hthread
    · obtain ⟨handle, hhandle, hid⟩ := mem_refsOf.mp hheld
      obtain ⟨hown, i, hi, hdeps⟩ := (hs.held handle hhandle).partner hid hlinked
      exact ⟨hown, i, hsound.alive_of_root (List.mem_append_left _
        (mem_refsOf.mpr ⟨handle, hhandle, hi⟩)), hdeps⟩
    · obtain ⟨refs, hrefs, hid⟩ := List.mem_flatten.mp hthread
      obtain ⟨pieces, rfl, hall⟩ := hs.threads refs hrefs
      obtain ⟨piece, hpiece, hid⟩ := List.mem_flatten.mp hid
      obtain ⟨hown, i, hi, hdeps⟩ := (hall piece hpiece).partner hid hlinked
      exact ⟨hown, i, hsound.alive_of_root (List.mem_append_right _ (List.mem_flatten.mpr
        ⟨_, hrefs, List.mem_flatten.mpr ⟨piece, hpiece, hi⟩⟩)), hdeps⟩
  · obtain ⟨refs, hrefs, hid⟩ := List.mem_flatten.mp hcell
    obtain ⟨cell, hmem, rfl⟩ := List.mem_map.mp hrefs
    obtain ⟨j, hj⟩ := List.mem_iff_getElem?.mp hmem
    have howns := hid
    unfold Cell.owns at hid
    split at hid
    · cases hid
    · rename_i hne
      obtain ⟨item, hitem, hid⟩ := mem_refsOf.mp hid
      obtain ⟨hown, i, hi, hdeps⟩ := (hs.contents j cell hj item hitem).1.partner hid hlinked
      refine ⟨hown, i, hsound.alive_of_points (i := j) ?_ ⟨cell, hj, ?_⟩, hdeps⟩
      · rw [State.alive, State.strongAt_of_getElem? hj]
        omega
      · exact mem_refsOf.mpr ⟨item, hitem, hi⟩

/-- As long as a relocated module is alive, everything it is linked with is. -/
theorem Ordered.alive_of_linked (hs : s.Ordered) (halive : s.alive id)
    (hlinked : s.LinkedAs id (some lib)) {core : ElfCore w} (hkeeps : lib.Keeps core) :
    s.alive core.id := by
  obtain ⟨hown, i, hi, hdeps⟩ := hs.partner halive hlinked
  cases hkeeps with
  | own => exact hown ▸ halive
  | dep hd hkeeps => exact hs.consistent.alive_of_deps hi hdeps hd hkeeps

/-- A step that makes destructor calls destroys one cell, and makes them about it. -/
theorem calls_of_step (h : Step proc s s') :
    s'.calls = s.calls ∨ ∃ (i : Nat) (cell : Cell (Shared w) (Grip w)),
      s.cells[i]? = some cell ∧ s.alive i ∧ s'.calls = s.calls ++ cell.data.drop i ∧
        ∀ j, j ≠ i → (s'.alive j ↔ s.alive j) := by
  have hsame : s'.destroyed = s.destroyed → s'.calls = s.calls := fun heq => by
    rw [calls, calls, heq]
  have hlink : ∀ {k loaded isInit copies}, s.link k loaded isInit copies = some s' →
      s'.destroyed = s.destroyed := by
    intro k loaded isInit copies h
    obtain ⟨cell, inner, segments, linked, s₁, -, -, hupdate, hattach⟩ := link_spec h
    rw [State.destroyed_of_step hattach (by simp), State.destroyed_of_step hupdate (by simp)]
  cases h with
  | load core fini finiArray hid h => exact .inl (hsame (State.destroyed_of_step h (by simp)))
  | relocate hk hscope hrun h => exact .inl (hsame (hlink h))
  | relocateObject hk h => exact .inl (hsame (hlink h))
  | use hop h =>
      cases hop with
      | clone hk => exact .inl (hsame (State.destroyed_of_step h (by simp)))
      | deps hk item => exact .inl (hsame (State.destroyed_of_step h (by simp)))
      | give t k => exact .inl (hsame (State.destroyed_of_step h (by simp)))
      | settle t =>
          obtain ⟨i, rest, cell, -, hi, hcells, -, hcase⟩ := State.step_settle h
          rcases hcase with ⟨hone, -, hgone⟩ | ⟨-, -, hgone⟩
          · refine .inr ⟨i, cell, hi, ?_, ?_, fun j hj => ?_⟩
            · rw [State.alive, State.strongAt_of_getElem? hi]
              omega
            · rw [calls, calls, hgone, List.flatMap_append, List.flatMap_singleton]
            · rw [State.alive, State.alive, State.strongAt_set hi cell.data hcells,
                if_neg hj]
          · exact .inl (hsame hgone)

/-- Only a write to the record of a module links it. -/
theorem LinkedAs.back (h : s.step op = some s') (hlinked : s'.LinkedAs id (some lib))
    (hupdate : ∀ data, op ≠ .update id data)
    (halloc : ∀ data label, op = .alloc data label → data.linked? = none)
    (hattach : ∀ k data copies label, op = .attach k data copies label → data.segments? = none) :
    s.LinkedAs id (some lib) := by
  obtain ⟨cell, hcell, hsome, hlib⟩ := hlinked
  rcases Nat.lt_or_ge id s.cells.length with hlt | hge
  · have hid := List.getElem?_eq_getElem hlt
    obtain ⟨cell', hcell', -, hdata | hop⟩ := State.step_cell h hid
    · rw [hcell] at hcell'
      cases hcell'
      exact ⟨_, hid, by rwa [← hdata], by rwa [← hdata]⟩
    · exact absurd hop (hupdate _)
  · rcases State.step_new_cell h hcell hge with ⟨label, hop⟩ | ⟨k, copies, label, hop⟩
    · rw [halloc _ _ hop] at hlib
      cases hlib
    · rw [hattach _ _ _ _ hop] at hsome
      cases hsome

theorem LinkedAs.back_of_public (hop : s.Public op) (h : s.step op = some s')
    (hlinked : s'.LinkedAs id (some lib)) : s.LinkedAs id (some lib) := by
  cases hop with
  | clone hk => exact hlinked.back h (fun _ => nofun) (fun _ _ => nofun) fun _ _ _ _ => nofun
  | deps hk item => exact hlinked.back h (fun _ => nofun) (fun _ _ => nofun) fun _ _ _ _ => nofun
  | give t k => exact hlinked.back h (fun _ => nofun) (fun _ _ => nofun) fun _ _ _ _ => nofun
  | settle t => exact hlinked.back h (fun _ => nofun) (fun _ _ => nofun) fun _ _ _ _ => nofun

/-- The module that `link` links is alive: the new handle refers to it. -/
theorem LinkedAs.back_of_link {k : Nat} {loaded : LoadedCore w} {isInit : Bool}
    {copies : List Nat} (h : s.link k loaded isInit copies = some s') (hcons : s'.Consistent)
    (hlinked : s'.LinkedAs id (some lib)) : s.LinkedAs id (some lib) ∨ s'.alive id := by
  obtain ⟨cell, inner, segments, linked, s₁, hcell, -, hupdate, hattach⟩ := link_spec h
  by_cases hid : id = loaded.core.id
  · obtain ⟨handle, contents, hk, -, hs'⟩ := State.step_attach.mp hattach
    have hheld : ({ label := .loaded loaded, refs := handle.refs ++ [s₁.cells.length] } :
        Handle (Grip w)) ∈ s'.held := by
      rw [hs']
      exact List.mem_set (List.getElem?_eq_some_iff.mp hk).1 _
    have hrefs : loaded.core.id ∈ handle.refs ++ [s₁.cells.length] := by
      generalize handle.refs ++ [s₁.cells.length] = refs at hheld
      cases hcons.held _ hheld with
      | loaded _ _ => exact List.mem_cons_self
    right
    rw [hid]
    exact hcons.sound.alive_of_root
      (List.mem_append_left _ (mem_refsOf.mpr ⟨_, hheld, hrefs⟩))
  · left
    have hlinked₁ : Modules.LinkedAs s₁ id (some lib) := by
      refine hlinked.back hattach (fun _ => nofun) (fun _ _ => nofun) fun _ _ _ _ hop => ?_
      cases hop
      rfl
    refine hlinked₁.back hupdate (fun _ hop => ?_) (fun _ _ => nofun) fun _ _ _ _ => nofun
    cases hop
    exact hid rfl

/-- A module that is linked after a step was linked before, or it is alive. -/
theorem linked_before (h : Step proc s s') (hcons : s'.Consistent)
    (hlinked : s'.LinkedAs id (some lib)) : s.LinkedAs id (some lib) ∨ s'.alive id := by
  cases h with
  | load core fini finiArray hid h =>
      left
      refine hlinked.back h (fun _ => nofun) (fun _ _ hop => ?_) fun _ _ _ _ => nofun
      cases hop
      rfl
  | relocate hk hscope hrun h => exact hlinked.back_of_link h hcons
  | relocateObject hk h => exact hlinked.back_of_link h hcons
  | use hop h => exact .inl (hlinked.back_of_public hop h)

theorem Ordered.unmapped_of_dead (hs : s.Ordered) {linked : Option (LoadedCore w)}
    (h : s.LinkedAs id linked) (hdead : ¬ s.alive id) :
    ∃ memory len, .munmap id memory len ∈ s.calls := by
  obtain ⟨cell, hcell, hsome, -⟩ := h
  obtain ⟨segments, hsegments⟩ := Option.isSome_iff_exists.mp hsome
  by_contra hnone
  refine hdead ((hs.consistent.mapped_iff_alive ⟨cell, hcell, hsegments⟩).mp ?_)
  intro memory len hmem
  exact hnone ⟨memory, len, hmem⟩

omit [CustomHasher] in
/-- A call stands in the first part of a list or in the second. -/
theorem split_calls {α : Type} {xs ys before after : List α} {x : α}
    (h : xs ++ ys = before ++ x :: after) :
    (∃ pre, before = xs ++ pre ∧ ys = pre ++ x :: after) ∨
      ∃ post, xs = before ++ x :: post ∧ after = post ++ ys := by
  rcases List.append_eq_append_iff.mp h with hleft | ⟨post, hxs, hrest⟩
  · exact .inl hleft
  · cases post with
    | nil => exact .inl ⟨[], by rw [hxs, List.append_nil, List.append_nil], hrest.symm⟩
    | cons first post =>
        rw [List.cons_append, List.cons.injEq] at hrest
        obtain ⟨rfl, hafter⟩ := hrest
        exact .inr ⟨post, hxs, hafter⟩

/-- In every history in which no module is taken apart from its libraries, the
memory of a library is unmapped only after every module that is linked with it has
been finalised and unmapped. -/
theorem libraries_unmapped_later (h : SafelyReachable proc s) (hlinked : s.LinkedAs id (some lib))
    {core : ElfCore w} (hkeeps : lib.Keeps core) (hne : core.id ≠ id)
    {before after : List (DropCall w)} {memory len : BitVec w}
    (hcalls : s.calls = before ++ .munmap core.id memory len :: after) :
    (∃ memory' len', .munmap id memory' len' ∈ before) ∧ ∀ call ∈ after, call.id ≠ id := by
  induction h generalizing before after with
  | refl => cases List.append_ne_nil_of_right_ne_nil before (List.cons_ne_nil _ _) hcalls.symm
  | @tail s s' hrun hstep ih =>
      have hs := SafelyReachable.ordered hrun
      have hs' := hs.step hstep
      have hcall : .munmap core.id memory len ∈ s'.calls :=
        hcalls ▸ List.mem_append_right _ List.mem_cons_self
      have hunmapped : ¬ s'.alive core.id := hs'.consistent.not_alive_of_call hcall
      have hdead : ¬ s'.alive id := fun halive =>
        hunmapped (hs'.alive_of_linked halive hlinked hkeeps)
      have hbefore := (linked_before hstep hs'.consistent hlinked).resolve_right hdead
      rcases calls_of_step hstep with hsame | ⟨i, cell, hi, halive, hmore, hothers⟩
      · exact ih hbefore (hsame ▸ hcalls)
      · rcases split_calls (hmore ▸ hcalls) with ⟨pre, hpre, hdrop⟩ | ⟨post, hpost, hafter⟩
        · -- the library goes in this step, so the module has gone before
          have hi' : core.id = i := by
            have hmem : DropCall.munmap core.id memory len ∈ cell.data.drop i :=
              hdrop ▸ List.mem_append_right _ List.mem_cons_self
            exact drop_id hmem
          have hgone : ¬ s.alive id := by
            rwa [← hothers id fun heq => hne (hi'.trans heq.symm)]
          obtain ⟨memory', len', hmem⟩ := hs.unmapped_of_dead hbefore hgone
          refine ⟨⟨memory', len', hpre ▸ List.mem_append_left _ hmem⟩, fun call hcall => ?_⟩
          have hmem' : call ∈ cell.data.drop i :=
            hdrop ▸ List.mem_append_right _ (List.mem_cons_of_mem _ hcall)
          have hcall' : call.id = i := drop_id hmem'
          rw [hcall', ← hi']
          exact hne
        · -- it has gone before; nothing about the module can come now
          obtain ⟨⟨memory', len', hmem⟩, hlater⟩ := ih hbefore hpost
          refine ⟨⟨memory', len', hmem⟩, fun call hcall => ?_⟩
          rw [hafter] at hcall
          rcases List.mem_append.mp hcall with hcall | hcall
          · exact hlater call hcall
          · rw [drop_id hcall]
            rintro rfl
            have hmem' : .munmap i memory' len' ∈ s.calls := hpost ▸ List.mem_append_left _ hmem
            exact hs.consistent.not_alive_of_call hmem' halive

end Order

section Sample

attribute [local instance] constantHasher

/-- The library goes after the module that was bound to it. -/
theorem library_unmapped_after_user :
    nothingLeft.calls =
        [.fini 2 ⟨some 0x10040, none⟩, .munmap 2 0x10000 0x1000] ++
          .munmap library.id 0x20000 0x1000 :: [] ∧
      ∃ memory len, DropCall.munmap 2 memory len ∈
        [DropCall.fini 2 ⟨some 0x10040, none⟩, DropCall.munmap 2 (0x10000 : BitVec 64) 0x1000] := by
  have hlinked : LinkedAs nothingLeft 2 (some linkedUser) :=
    ⟨⟨0, [], .module ⟨true, some 0x10040, none⟩ user.segments (some linkedUser)⟩, rfl, rfl, rfl⟩
  exact ⟨nothingLeft_calls, (libraries_unmapped_later nothingLeft_steps hlinked
    (.dep List.mem_cons_self (.own (.fromCore library))) (by decide) nothingLeft_calls).1⟩

end Sample

end Modules

end ElfLoader
