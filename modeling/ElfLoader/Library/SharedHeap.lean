import ElfLoader.Library.Partial
import Mathlib.Algebra.GroupWithZero.Nat
import Mathlib.Data.List.Count
import Mathlib.Data.List.Perm.Basic
import Mathlib.Data.List.Sigma
import Mathlib.Logic.Relation

/-! # Values shared by counted references

Cells are allocated once and keep what they were made from: a cell holds handles
to older cells, and a handle is a list of references that are given back in order.
Every thread has its own list of references still to be given back; the destructor
of a cell puts what the cell held in front of that list. A history interleaves the
operations of all owners with the single steps of all threads.
-/

namespace SharedHeap

variable {α β : Type}

/-- References that are held together, with what the holder takes them for. -/
structure Handle (β : Type) where
  label : β
  refs : List Nat

def refsOf (handles : List (Handle β)) : List Nat := handles.flatMap Handle.refs

structure Cell (α β : Type) where
  strong : Nat
  contents : List (Handle β)
  data : α

namespace Cell

/-- The references a cell still holds. -/
def owns (cell : Cell α β) : List Nat := if cell.strong = 0 then [] else refsOf cell.contents

end Cell

structure State (α β : Type) where
  cells : List (Cell α β)
  held : List (Handle β)
  threads : List (List Nat)
  destroyed : List (Nat × α)

inductive Op (α β : Type) where
  /-- a new cell that holds nothing -/
  | alloc (data : α) (label : β)
  /-- a new cell that holds copies of handles; its reference joins a handle -/
  | attach (k : Nat) (data : α) (copies : List Nat) (label : β)
  | clone (k : Nat)
  /-- a handle to the first reference of another one -/
  | first (k : Nat) (label : β)
  /-- a copy of a handle that a cell holds -/
  | extract (k pos item : Nat)
  | upgrade (i : Nat) (label : β)
  | update (i : Nat) (data : α)
  /-- a thread starts to give a handle back -/
  | give (t k : Nat)
  /-- a thread gives its next reference back -/
  | settle (t : Nat)

/-- Count further references. -/
def retain (refs : List Nat) (cells : List (Cell α β)) : List (Cell α β) :=
  cells.mapIdx fun i cell => { cell with strong := cell.strong + refs.count i }

namespace State

def init : State α β := { cells := [], held := [], threads := [], destroyed := [] }

/-- The handles at some positions. -/
def pick (s : State α β) (ks : List Nat) : Option (List (Handle β)) := ks.mapM (s.held[·]?)

def hold (s : State α β) (handle : Handle β) : State α β :=
  { s with cells := retain handle.refs s.cells, held := s.held ++ [handle] }

/-- The references a thread has to give back, for a thread that may be new. -/
def push (threads : List (List Nat)) (t : Nat) (refs : List Nat) : List (List Nat) :=
  if h : t < threads.length then threads.set t (refs ++ threads[t]) else threads ++ [refs]

/-- Give one reference to `i` back; the last one runs the destructor. -/
def release (s : State α β) (t i : Nat) (rest : List Nat) : Option (State α β) := do
  let cell ← s.cells[i]?
  let cells := s.cells.set i { cell with strong := cell.strong - 1 }
  if cell.strong = 1 then
    return { s with
      cells
      threads := s.threads.set t (refsOf cell.contents ++ rest)
      destroyed := s.destroyed ++ [(i, cell.data)] }
  else return { s with cells, threads := s.threads.set t rest }

def step (s : State α β) : Op α β → Option (State α β)
  | .alloc data label =>
      some { s with
        cells := s.cells ++ [{ strong := 1, contents := [], data }]
        held := s.held ++ [{ label, refs := [s.cells.length] }] }
  | .attach k data copies label => do
      let handle ← s.held[k]?
      let contents ← s.pick copies
      return { s with
        cells := retain (refsOf contents) s.cells ++ [{ strong := 1, contents, data }]
        held := s.held.set k { label, refs := handle.refs ++ [s.cells.length] } }
  | .clone k => do return s.hold (← s.held[k]?)
  | .first k label => do
      let handle ← s.held[k]?
      return s.hold { label, refs := [← handle.refs.head?] }
  | .extract k pos item => do
      let handle ← s.held[k]?
      let cell ← s.cells[← handle.refs[pos]?]?
      return s.hold (← cell.contents[item]?)
  | .upgrade i label => do
      let cell ← s.cells[i]?
      if cell.strong = 0 then return s else return s.hold { label, refs := [i] }
  | .update i data => do
      let cell ← s.cells[i]?
      if cell.strong = 0 then none
      else return { s with cells := s.cells.set i { cell with data } }
  | .give t k => do
      let handle ← s.held[k]?
      return { s with held := s.held.eraseIdx k, threads := push s.threads t handle.refs }
  | .settle t => do
      match ← s.threads[t]? with
      | [] => none
      | i :: rest => s.release t i rest

/-- All references there are: held, still to be given back, or held by a cell. -/
def roots (s : State α β) : List Nat := refsOf s.held ++ s.threads.flatten

def tokens (s : State α β) : List Nat := s.roots ++ (s.cells.map Cell.owns).flatten

/-- The count of a cell; none where there is no cell. -/
def strongAt (s : State α β) (i : Nat) : Nat := (s.cells[i]?).elim 0 Cell.strong

def alive (s : State α β) (i : Nat) : Prop := 0 < s.strongAt i

instance (s : State α β) (i : Nat) : Decidable (s.alive i) :=
  inferInstanceAs (Decidable (0 < s.strongAt i))

/-- One cell was made with a reference to the other. -/
def Points (s : State α β) (i j : Nat) : Prop :=
  ∃ cell, s.cells[i]? = some cell ∧ j ∈ refsOf cell.contents

def Reach (s : State α β) : Nat → Nat → Prop := Relation.ReflTransGen s.Points

/-- The counts are exact, references are to older cells, and the destructor has run
for exactly the cells without a reference, once, on what they were made with. -/
structure Sound (s : State α β) : Prop where
  exact : ∀ i, s.strongAt i = s.tokens.count i
  older : ∀ i cell, s.cells[i]? = some cell → ∀ j ∈ refsOf cell.contents, j < i
  once : (s.destroyed.map Prod.fst).Nodup
  dead : ∀ i, i ∈ s.destroyed.map Prod.fst ↔ i < s.cells.length ∧ ¬ s.alive i
  final : ∀ entry ∈ s.destroyed, (s.cells[entry.1]?).map Cell.data = some entry.2

end State

/-! ## Counting references -/

theorem mem_refsOf {handles : List (Handle β)} {i : Nat} :
    i ∈ refsOf handles ↔ ∃ handle ∈ handles, i ∈ handle.refs := List.mem_flatMap

theorem refsOf_append (handles handles' : List (Handle β)) :
    refsOf (handles ++ handles') = refsOf handles ++ refsOf handles' := List.flatMap_append

theorem refsOf_singleton (handle : Handle β) : refsOf [handle] = handle.refs :=
  List.flatMap_singleton _ _

/-- Replacing one list among several. -/
theorem count_flatten_set {lists : List (List Nat)} {k : Nat} {old : List Nat}
    (hk : lists[k]? = some old) (new : List Nat) (i : Nat) :
    (lists.set k new).flatten.count i + old.count i =
      lists.flatten.count i + new.count i := by
  induction lists generalizing k with
  | nil => cases hk
  | cons list lists ih =>
      cases k with
      | zero =>
          cases hk
          simp only [List.set_cons_zero, List.flatten_cons, List.count_append]
          omega
      | succ k =>
          have hrest := ih (k := k) hk
          simp only [List.set_cons_succ, List.flatten_cons, List.count_append]
          omega

theorem count_refsOf_set {handles : List (Handle β)} {k : Nat} {old : Handle β}
    (hk : handles[k]? = some old) (new : Handle β) (i : Nat) :
    (refsOf (handles.set k new)).count i + old.refs.count i =
      (refsOf handles).count i + new.refs.count i := by
  have hold : (handles.map Handle.refs)[k]? = some old.refs := by
    rw [List.getElem?_map, hk]
    rfl
  have hset := count_flatten_set hold new.refs i
  rwa [← List.map_set] at hset

theorem count_refsOf_eraseIdx {handles : List (Handle β)} {k : Nat} {old : Handle β}
    (hk : handles[k]? = some old) (i : Nat) :
    (refsOf (handles.eraseIdx k)).count i + old.refs.count i = (refsOf handles).count i := by
  induction handles generalizing k with
  | nil => cases hk
  | cons handle handles ih =>
      cases k with
      | zero =>
          cases hk
          simp only [List.eraseIdx_cons_zero, refsOf, List.flatMap_cons, List.count_append]
          omega
      | succ k =>
          have hrest := ih (k := k) hk
          simp only [List.eraseIdx_cons_succ, refsOf, List.flatMap_cons, List.count_append] at hrest ⊢
          omega

theorem retain_getElem? (refs : List Nat) (cells : List (Cell α β)) (i : Nat) :
    (retain refs cells)[i]? =
      cells[i]?.map fun cell => { cell with strong := cell.strong + refs.count i } := by
  rw [retain, List.getElem?_mapIdx]

theorem retain_data (refs : List Nat) (cells : List (Cell α β)) (i : Nat) :
    ((retain refs cells)[i]?).map Cell.data = (cells[i]?).map Cell.data := by
  rw [retain_getElem?]
  cases cells[i]? with
  | none => rfl
  | some cell => rfl

theorem retain_length (refs : List Nat) (cells : List (Cell α β)) :
    (retain refs cells).length = cells.length := by
  rw [retain, List.length_mapIdx]

namespace State

variable {s s' : State α β} {t k i j : Nat}

theorem count_push (threads : List (List Nat)) (refs : List Nat) (t i : Nat) :
    (push threads t refs).flatten.count i = threads.flatten.count i + refs.count i := by
  unfold push
  split
  · rename_i ht
    have hset := count_flatten_set (List.getElem?_eq_getElem ht) (refs ++ threads[t]) i
    rw [List.count_append] at hset
    omega
  · rw [List.flatten_append, List.count_append, List.flatten_singleton]

theorem strongAt_of_getElem? {cell : Cell α β} (hi : s.cells[i]? = some cell) :
    s.strongAt i = cell.strong := by
  rw [strongAt, hi, Option.elim_some]

theorem lt_of_alive (h : s.alive i) : i < s.cells.length := by
  by_contra hi
  rw [alive, strongAt, List.getElem?_eq_none (by omega)] at h
  exact Nat.lt_irrefl 0 h

/-- Cells that are alive may be referred to more often without a change to what
they hold. -/
theorem owns_retain {refs : List Nat} (halive : ∀ j ∈ refs, s.alive j) :
    (retain refs s.cells).map Cell.owns = s.cells.map Cell.owns := by
  apply List.ext_getElem?
  intro i
  rw [List.getElem?_map, List.getElem?_map, retain_getElem?]
  cases hi : s.cells[i]? with
  | none => rfl
  | some cell =>
      simp only [Option.map_some, Option.some.injEq]
      unfold Cell.owns
      by_cases hmem : i ∈ refs
      · have hpos := halive i hmem
        rw [alive, strongAt_of_getElem? hi] at hpos
        rw [if_neg (by dsimp only; omega), if_neg (by omega)]
      · rw [List.count_eq_zero_of_not_mem hmem]
        rfl

theorem strongAt_retain {refs : List Nat} (halive : ∀ j ∈ refs, s.alive j)
    (hcells : s'.cells = retain refs s.cells) (i : Nat) :
    s'.strongAt i = s.strongAt i + refs.count i := by
  rw [strongAt, strongAt, hcells, retain_getElem?]
  cases hi : s.cells[i]? with
  | some cell => rfl
  | none =>
      have hmem : i ∉ refs := by
        intro hmem
        have hlt := lt_of_alive (halive i hmem)
        rw [List.getElem?_eq_getElem hlt] at hi
        cases hi
      rw [List.count_eq_zero_of_not_mem hmem]
      rfl

theorem Sound.alive_iff (h : s.Sound) : s.alive i ↔ i ∈ s.tokens := by
  rw [alive, h.exact, List.count_pos_iff]

theorem Sound.alive_of_root (h : s.Sound) (hi : i ∈ s.roots) : s.alive i :=
  h.alive_iff.mpr (List.mem_append_left _ hi)

theorem Sound.alive_of_held (h : s.Sound) {handle : Handle β} (hk : s.held[k]? = some handle)
    (hi : i ∈ handle.refs) : s.alive i :=
  h.alive_of_root (List.mem_append_left _
    (mem_refsOf.mpr ⟨handle, List.mem_of_getElem? hk, hi⟩))

/-- What a live cell was made with is alive. -/
theorem Sound.alive_of_points (h : s.Sound) (hi : s.alive i) (hpoints : s.Points i j) :
    s.alive j := by
  obtain ⟨cell, hcell, hj⟩ := hpoints
  rw [alive, strongAt_of_getElem? hcell] at hi
  refine h.alive_iff.mpr (List.mem_append_right _ (List.mem_flatten.mpr ⟨cell.owns, ?_, ?_⟩))
  · exact List.mem_map_of_mem (List.mem_of_getElem? hcell)
  · rwa [Cell.owns, if_neg (by omega)]

theorem Sound.alive_of_reach (h : s.Sound) (hi : s.alive i) (hreach : s.Reach i j) :
    s.alive j := by
  induction hreach with
  | refl => exact hi
  | tail _ hpoints ih => exact h.alive_of_points ih hpoints

/-! ## What a step does -/

theorem step_attach {k : Nat} {data : α} {copies : List Nat} {label : β} :
    s.step (.attach k data copies label) = some s' ↔
      ∃ handle contents, s.held[k]? = some handle ∧ s.pick copies = some contents ∧
        s' = { s with
          cells := retain (refsOf contents) s.cells ++ [{ strong := 1, contents, data }]
          held := s.held.set k { label, refs := handle.refs ++ [s.cells.length] } } := by
  simp only [step, Option.bind_eq_bind, Option.bind_eq_some_iff, Option.pure_def,
    Option.some.injEq]
  constructor
  · rintro ⟨handle, hk, contents, hpick, rfl⟩
    exact ⟨handle, contents, hk, hpick, rfl⟩
  · rintro ⟨handle, contents, hk, hpick, rfl⟩
    exact ⟨handle, hk, contents, hpick, rfl⟩

theorem step_clone : s.step (.clone k) = some s' ↔
    ∃ handle, s.held[k]? = some handle ∧ s' = s.hold handle := by
  simp only [step, Option.bind_eq_bind, Option.bind_eq_some_iff, Option.pure_def,
    Option.some.injEq]
  constructor
  · rintro ⟨handle, hk, rfl⟩
    exact ⟨handle, hk, rfl⟩
  · rintro ⟨handle, hk, rfl⟩
    exact ⟨handle, hk, rfl⟩

theorem step_first {label : β} : s.step (.first k label) = some s' ↔
    ∃ handle i, s.held[k]? = some handle ∧ handle.refs.head? = some i ∧
      s' = s.hold { label, refs := [i] } := by
  simp only [step, Option.bind_eq_bind, Option.bind_eq_some_iff, Option.pure_def,
    Option.some.injEq]
  constructor
  · rintro ⟨handle, hk, i, hi, rfl⟩
    exact ⟨handle, i, hk, hi, rfl⟩
  · rintro ⟨handle, i, hk, hi, rfl⟩
    exact ⟨handle, hk, i, hi, rfl⟩

theorem step_extract {pos item : Nat} : s.step (.extract k pos item) = some s' ↔
    ∃ handle i cell copied, s.held[k]? = some handle ∧ handle.refs[pos]? = some i ∧
      s.cells[i]? = some cell ∧ cell.contents[item]? = some copied ∧ s' = s.hold copied := by
  simp only [step, Option.bind_eq_bind, Option.bind_eq_some_iff, Option.pure_def,
    Option.some.injEq]
  constructor
  · rintro ⟨handle, hk, i, hi, cell, hcell, copied, hitem, rfl⟩
    exact ⟨handle, i, cell, copied, hk, hi, hcell, hitem, rfl⟩
  · rintro ⟨handle, i, cell, copied, hk, hi, hcell, hitem, rfl⟩
    exact ⟨handle, hk, i, hi, cell, hcell, copied, hitem, rfl⟩

theorem step_upgrade {label : β} (h : s.step (.upgrade i label) = some s') :
    s' = s ∨ (s.alive i ∧ s' = s.hold { label, refs := [i] }) := by
  simp only [step, Option.bind_eq_bind, Option.bind_eq_some_iff, Option.pure_def] at h
  obtain ⟨cell, hi, hbranch⟩ := h
  split at hbranch
  · cases hbranch
    exact .inl rfl
  · rename_i hne
    cases hbranch
    refine .inr ⟨?_, rfl⟩
    rw [alive, strongAt_of_getElem? hi]
    omega

theorem step_update {data : α} (h : s.step (.update i data) = some s') :
    ∃ cell, s.cells[i]? = some cell ∧ cell.strong ≠ 0 ∧
      s' = { s with cells := s.cells.set i { cell with data } } := by
  simp only [step, Option.bind_eq_bind, Option.bind_eq_some_iff, Option.pure_def] at h
  obtain ⟨cell, hi, hbranch⟩ := h
  split at hbranch
  · cases hbranch
  · rename_i hne
    cases hbranch
    exact ⟨cell, hi, hne, rfl⟩

theorem step_give : s.step (.give t k) = some s' ↔
    ∃ handle, s.held[k]? = some handle ∧
      s' = { s with held := s.held.eraseIdx k, threads := push s.threads t handle.refs } := by
  simp only [step, Option.bind_eq_bind, Option.bind_eq_some_iff, Option.pure_def,
    Option.some.injEq]
  constructor
  · rintro ⟨handle, hk, rfl⟩
    exact ⟨handle, hk, rfl⟩
  · rintro ⟨handle, hk, rfl⟩
    exact ⟨handle, hk, rfl⟩

/-- Giving one reference back: the count goes down, and with the last reference the
cell is destroyed and hands on what it held. -/
theorem step_settle (h : s.step (.settle t) = some s') :
    ∃ i rest cell, s.threads[t]? = some (i :: rest) ∧ s.cells[i]? = some cell ∧
      s'.cells = s.cells.set i { cell with strong := cell.strong - 1 } ∧ s'.held = s.held ∧
      ((cell.strong = 1 ∧ s'.threads = s.threads.set t (refsOf cell.contents ++ rest) ∧
          s'.destroyed = s.destroyed ++ [(i, cell.data)]) ∨
        (cell.strong ≠ 1 ∧ s'.threads = s.threads.set t rest ∧ s'.destroyed = s.destroyed)) := by
  simp only [step, Option.bind_eq_bind, Option.bind_eq_some_iff] at h
  obtain ⟨refs, ht, hbranch⟩ := h
  cases refs with
  | nil => cases hbranch
  | cons i rest =>
      unfold release at hbranch
      simp only [Option.bind_eq_bind, Option.bind_eq_some_iff] at hbranch
      obtain ⟨cell, hcell, hcase⟩ := hbranch
      refine ⟨i, rest, cell, ht, hcell, ?_⟩
      split at hcase
      · rename_i hone
        cases hcase
        exact ⟨rfl, rfl, .inl ⟨hone, rfl, rfl⟩⟩
      · rename_i hone
        cases hcase
        exact ⟨rfl, rfl, .inr ⟨hone, rfl, rfl⟩⟩

/-! ## Every operation keeps the counts -/

/-- Another handle to live cells. -/
theorem Sound.hold (h : s.Sound) {handle : Handle β} (halive : ∀ j ∈ handle.refs, s.alive j) :
    (s.hold handle).Sound := by
  have hstrong : ∀ i, (s.hold handle).strongAt i = s.strongAt i + handle.refs.count i :=
    strongAt_retain halive rfl
  have hiff : ∀ i, (s.hold handle).alive i ↔ s.alive i := by
    intro i
    rw [alive, hstrong]
    constructor
    · intro hpos
      by_cases hmem : i ∈ handle.refs
      · exact halive i hmem
      · rwa [List.count_eq_zero_of_not_mem hmem] at hpos
    · intro hpos
      exact Nat.lt_of_lt_of_le hpos (Nat.le_add_right _ _)
  refine ⟨fun i => ?_, fun i cell hi => ?_, h.once, fun i => ?_, fun entry hentry => ?_⟩
  · rw [hstrong, h.exact, tokens, tokens, roots, roots, State.hold, owns_retain halive,
      refsOf_append, refsOf_singleton]
    simp only [List.count_append]
    omega
  · rw [State.hold, retain_getElem?, Option.map_eq_some_iff] at hi
    obtain ⟨cell', hcell', rfl⟩ := hi
    exact h.older i cell' hcell'
  · rw [hiff, State.hold, retain_length]
    exact h.dead i
  · rw [State.hold, retain_data]
    exact h.final entry hentry

/-- A new cell with one reference to it, made from copies of live handles. -/
theorem Sound.grow (h : s.Sound) {contents held' : List (Handle β)} {data : α}
    (halive : ∀ j ∈ refsOf contents, s.alive j)
    (hheld : ∀ i, (refsOf held').count i = (refsOf s.held).count i + [s.cells.length].count i) :
    ({ s with
      cells := retain (refsOf contents) s.cells ++ [{ strong := 1, contents, data }]
      held := held' } : State α β).Sound := by
  have hlen := retain_length (refsOf contents) s.cells
  have hold : ∀ i, ({ s with cells := retain (refsOf contents) s.cells } : State α β).strongAt i =
      s.strongAt i + (refsOf contents).count i := strongAt_retain halive rfl
  -- the count at every place: as before, or the one reference to the new cell
  have hstrong : ∀ i, ({ s with
      cells := retain (refsOf contents) s.cells ++ [{ strong := 1, contents, data }]
      held := held' } : State α β).strongAt i =
        s.strongAt i + (refsOf contents).count i + [s.cells.length].count i := by
    intro i
    rw [← hold]
    unfold strongAt
    dsimp only
    rcases Nat.lt_trichotomy i s.cells.length with hlt | rfl | hgt
    · rw [List.getElem?_append_left (by omega),
        List.count_eq_zero_of_not_mem (by simp only [List.mem_singleton]; omega)]
      rfl
    · rw [List.getElem?_append_right (by omega), hlen, Nat.sub_self,
        List.getElem?_eq_none (l := retain _ _) (by omega), List.count_singleton_self]
      rfl
    · rw [List.getElem?_eq_none (by simp only [List.length_append, List.length_singleton]; omega),
        List.getElem?_eq_none (by omega),
        List.count_eq_zero_of_not_mem (by simp only [List.mem_singleton]; omega)]
      rfl
  refine ⟨fun i => ?_, fun i cell hi => ?_, h.once, fun i => ?_, fun entry hentry => ?_⟩
  · rw [hstrong, h.exact, tokens, tokens, roots, roots]
    simp only [List.count_append, List.map_append, owns_retain halive, List.flatten_append,
      hheld, List.map_cons, List.map_nil, List.flatten_singleton]
    rw [Cell.owns, if_neg (by decide : ¬ 1 = 0)]
    dsimp only
    omega
  · rcases Nat.lt_or_ge i s.cells.length with hlt | hge
    · rw [List.getElem?_append_left (by omega), retain_getElem?, Option.map_eq_some_iff] at hi
      obtain ⟨cell', hcell', rfl⟩ := hi
      exact h.older i cell' hcell'
    · have hlt := (List.getElem?_eq_some_iff.mp hi).1
      simp only [List.length_append, List.length_singleton] at hlt
      rw [List.getElem?_append_right (by omega), show i - (retain (refsOf contents) s.cells).length
        = 0 by omega] at hi
      cases hi
      intro j hj
      have hj := lt_of_alive (halive j hj)
      omega
  · have hiff : i ≠ s.cells.length → (({ s with
        cells := retain (refsOf contents) s.cells ++ [{ strong := 1, contents, data }]
        held := held' } : State α β).alive i ↔ s.alive i) := by
      intro hne
      rw [alive, hstrong, List.count_eq_zero_of_not_mem (l := [s.cells.length])
        (by simpa using hne), Nat.add_zero]
      constructor
      · intro hpos
        by_cases hmem : i ∈ refsOf contents
        · exact halive i hmem
        · rw [List.count_eq_zero_of_not_mem hmem] at hpos
          exact hpos
      · exact fun hpos => Nat.lt_of_lt_of_le hpos (by omega)
    dsimp only
    rw [h.dead i, List.length_append, List.length_singleton, hlen]
    by_cases hne : i = s.cells.length
    · subst hne
      constructor
      · rintro ⟨hlt, -⟩
        omega
      · rintro ⟨-, hnot⟩
        refine absurd ?_ hnot
        rw [alive, hstrong, List.count_singleton_self]
        omega
    · rw [hiff hne]
      constructor
      · rintro ⟨hlt, hnot⟩
        exact ⟨by omega, hnot⟩
      · rintro ⟨hlt, hnot⟩
        exact ⟨by omega, hnot⟩
  · have hlt := ((h.dead entry.1).mp (List.mem_map_of_mem hentry)).1
    rw [List.getElem?_append_left (by omega), retain_data]
    exact h.final entry hentry

/-- The cell that is new after a step of growth. -/
theorem getElem?_new (refs : List Nat) (new : Cell α β) :
    (retain refs s.cells ++ [new])[s.cells.length]? = some new := by
  rw [List.getElem?_append_right (by rw [retain_length]), retain_length, Nat.sub_self]
  rfl

theorem retain_nil (cells : List (Cell α β)) : retain [] cells = cells := by
  apply List.ext_getElem?
  intro i
  rw [retain_getElem?]
  cases cells[i]? with
  | none => rfl
  | some cell => rfl

theorem pick_mem {ks : List Nat} {handles : List (Handle β)} (h : s.pick ks = some handles) :
    ∀ handle ∈ handles, handle ∈ s.held := by
  intro handle hmem
  obtain ⟨n, hn⟩ := List.mem_iff_getElem?.mp hmem
  rw [Partial.mapM_getElem? h, Option.bind_eq_some_iff] at hn
  obtain ⟨k, -, hk⟩ := hn
  exact List.mem_of_getElem? hk

/-! ## Giving back -/

theorem strongAt_set {cell : Cell α β} (hi : s.cells[i]? = some cell) {n : Nat} (data : α)
    (hcells : s'.cells = s.cells.set i { cell with strong := n, data }) (j : Nat) :
    s'.strongAt j = if j = i then n else s.strongAt j := by
  rw [strongAt, strongAt, hcells]
  by_cases hj : j = i
  · subst hj
    rw [List.getElem?_set_self (List.getElem?_eq_some_iff.mp hi).1, if_pos rfl]
    rfl
  · rw [List.getElem?_set_ne (Ne.symm hj), if_neg hj]

theorem count_owns_set {cell : Cell α β} (hi : s.cells[i]? = some cell) (new : Cell α β)
    (j : Nat) :
    ((s.cells.set i new).map Cell.owns).flatten.count j + cell.owns.count j =
      (s.cells.map Cell.owns).flatten.count j + new.owns.count j := by
  rw [List.map_set]
  exact count_flatten_set (by rw [List.getElem?_map, hi]; rfl) _ _

theorem Sound.older_set (h : s.Sound) {cell : Cell α β} (hi : s.cells[i]? = some cell) {n : Nat}
    {data : α} : ∀ j cell', (s.cells.set i { cell with strong := n, data })[j]? = some cell' →
      ∀ r ∈ refsOf cell'.contents, r < j := by
  intro j cell' hj
  by_cases hne : j = i
  · subst hne
    rw [List.getElem?_set_self (List.getElem?_eq_some_iff.mp hi).1] at hj
    cases hj
    exact h.older j cell hi
  · rw [List.getElem?_set_ne (Ne.symm hne)] at hj
    exact h.older j cell' hj

theorem Sound.final_set (h : s.Sound) {cell new : Cell α β} (hi : s.cells[i]? = some cell)
    (hdata : new.data = cell.data ∨ s.alive i) :
    ∀ entry ∈ s.destroyed, ((s.cells.set i new)[entry.1]?).map Cell.data = some entry.2 := by
  intro entry hentry
  have hfinal := h.final entry hentry
  by_cases hne : entry.1 = i
  · subst hne
    rcases hdata with hdata | halive
    · rw [List.getElem?_set_self (List.getElem?_eq_some_iff.mp hi).1, Option.map_some, hdata]
      rwa [hi] at hfinal
    · exact absurd halive ((h.dead _).mp (List.mem_map_of_mem hentry)).2
  · rwa [List.getElem?_set_ne (Ne.symm hne)]

theorem Sound.update (h : s.Sound) {cell : Cell α β} (hi : s.cells[i]? = some cell)
    (hpos : cell.strong ≠ 0) (data : α) :
    ({ s with cells := s.cells.set i { cell with data } } : State α β).Sound := by
  have hstrong : ∀ j, ({ s with cells := s.cells.set i { cell with data } } : State α β).strongAt j
      = s.strongAt j := by
    intro j
    rw [strongAt_set hi _ rfl]
    split
    · rename_i hj
      rw [hj, strongAt_of_getElem? hi]
    · rfl
  have halive : s.alive i := by
    rw [alive, strongAt_of_getElem? hi]
    omega
  refine ⟨fun j => ?_, h.older_set hi, h.once, fun j => ?_, h.final_set hi (.inr halive)⟩
  · have howns := count_owns_set hi { cell with data } j
    have howns' : (Cell.owns { cell with data }).count j = cell.owns.count j := rfl
    rw [hstrong, h.exact, tokens, tokens, List.count_append, List.count_append]
    have hroots : ({ s with cells := s.cells.set i { cell with data } } : State α β).roots =
        s.roots := rfl
    rw [hroots]
    dsimp only
    omega
  · dsimp only
    rw [alive, hstrong, List.length_set]
    exact h.dead j

/-- A handle is moved to what a thread gives back. -/
theorem Sound.give (h : s.Sound) {handle : Handle β} (hk : s.held[k]? = some handle) (t : Nat) :
    ({ s with held := s.held.eraseIdx k, threads := push s.threads t handle.refs } :
      State α β).Sound := by
  refine ⟨fun j => ?_, h.older, h.once, h.dead, h.final⟩
  have hheld := count_refsOf_eraseIdx hk j
  have hthreads := count_push s.threads handle.refs t j
  have hexact := h.exact j
  rw [tokens, roots] at hexact ⊢
  simp only [List.count_append] at hexact ⊢
  have hstrong : ({ s with held := s.held.eraseIdx k, threads := push s.threads t handle.refs } :
    State α β).strongAt j = s.strongAt j := rfl
  omega

/-- Counts after one reference less: what the cell no longer holds is what the thread
has to give back instead. -/
theorem Sound.count_release (h : s.Sound) {rest new : List Nat} {cell : Cell α β}
    (ht : s.threads[t]? = some (i :: rest)) (hi : s.cells[i]? = some cell)
    (hcells : s'.cells = s.cells.set i { cell with strong := cell.strong - 1 })
    (hheld : s'.held = s.held) (hthreads : s'.threads = s.threads.set t new)
    (hmoved : ∀ j, new.count j + (Cell.owns { cell with strong := cell.strong - 1 }).count j =
      rest.count j + cell.owns.count j) (j : Nat) : s'.strongAt j = s'.tokens.count j := by
  have hexact := h.exact j
  have hthread := count_flatten_set ht new j
  have hown := count_owns_set hi { cell with strong := cell.strong - 1 } j
  have hmove := hmoved j
  rw [strongAt_set hi cell.data hcells, tokens, roots, hcells, hheld, hthreads]
  rw [tokens, roots] at hexact
  simp only [List.count_append] at hexact ⊢
  rw [List.count_cons] at hthread
  split
  · rename_i hj
    subst hj
    have hpos := strongAt_of_getElem? hi
    rw [beq_self_eq_true, if_pos rfl] at hthread
    omega
  · rename_i hj
    rw [beq_eq_false_iff_ne.mpr (Ne.symm hj), if_neg Bool.false_ne_true] at hthread
    omega

theorem Sound.settle (h : s.Sound) (hstep : s.step (.settle t) = some s') : s'.Sound := by
  obtain ⟨i, rest, cell, ht, hi, hcells, hheld, hcase⟩ := step_settle hstep
  have hroot : i ∈ s.roots := List.mem_append_right _
    (List.mem_flatten.mpr ⟨_, List.mem_of_getElem? ht, List.mem_cons_self⟩)
  have hpos := h.alive_of_root hroot
  have hat := strongAt_of_getElem? hi
  have hlt := (List.getElem?_eq_some_iff.mp hi).1
  have hdata : ({ cell with strong := cell.strong - 1 } : Cell α β).data = cell.data := rfl
  have hstrong := strongAt_set hi cell.data hcells
  rw [alive, hat] at hpos
  rcases hcase with ⟨hone, hthreads, hgone⟩ | ⟨hmany, hthreads, hsame⟩
  · -- the last reference
    refine ⟨h.count_release ht hi hcells hheld hthreads fun j => ?_, hcells ▸ h.older_set hi, ?_,
      fun j => ?_, fun entry hentry => ?_⟩
    · rw [Cell.owns, Cell.owns, if_pos (by dsimp only; omega), if_neg (by omega),
        List.count_append, List.count_nil]
      omega
    · rw [hgone, List.map_append, List.nodup_append]
      refine ⟨h.once, List.nodup_singleton i, fun a ha b hb => ?_⟩
      cases List.mem_singleton.mp hb
      rintro rfl
      have hnot := ((h.dead a).mp ha).2
      rw [alive, hat] at hnot
      exact hnot hpos
    · rw [hgone, List.map_append, List.mem_append, h.dead j, alive, alive, hstrong, hcells,
        List.length_set]
      simp only [List.map_cons, List.map_nil, List.mem_singleton]
      by_cases hj : j = i
      · subst hj
        rw [if_pos rfl]
        exact ⟨fun _ => ⟨hlt, by omega⟩, fun _ => .inr rfl⟩
      · rw [if_neg hj]
        exact ⟨fun hor => hor.resolve_right hj, .inl⟩
    · rw [hcells]
      rw [hgone] at hentry
      rcases List.mem_append.mp hentry with hentry | hentry
      · exact h.final_set hi (.inl hdata) entry hentry
      · cases List.mem_singleton.mp hentry
        rw [List.getElem?_set_self hlt]
        rfl
  · refine ⟨h.count_release ht hi hcells hheld hthreads fun j => ?_, hcells ▸ h.older_set hi,
      hsame ▸ h.once, fun j => ?_, ?_⟩
    · rw [Cell.owns, Cell.owns, if_neg (by dsimp only; omega), if_neg (by omega)]
    · rw [hsame, h.dead j, alive, alive, hstrong, hcells, List.length_set]
      by_cases hj : j = i
      · subst hj
        rw [if_pos rfl, hat]
        constructor
        · rintro ⟨-, hnot⟩
          exact absurd hpos hnot
        · rintro ⟨-, hnot⟩
          omega
      · rw [if_neg hj]
    · rw [hcells, hsame]
      exact h.final_set hi (.inl hdata)

/-! ## Steps and histories -/

theorem init_sound : (init : State α β).Sound where
  exact := fun _ => rfl
  older := by
    intro i cell hi
    cases hi
  once := List.nodup_nil
  dead := by
    intro i
    constructor
    · nofun
    · rintro ⟨hlt, -⟩
      exact absurd hlt (Nat.not_lt_zero i)
  final := nofun

theorem step_sound {op : Op α β} (hs : s.Sound) (h : s.step op = some s') : s'.Sound := by
  cases op with
  | alloc data label =>
      cases h
      have hgrow := @Sound.grow _ _ s hs [] (s.held ++ [{ label, refs := [s.cells.length] }])
        data nofun fun i => by rw [refsOf_append, refsOf_singleton, List.count_append]
      rwa [show refsOf ([] : List (Handle β)) = [] from rfl, retain_nil] at hgrow
  | attach k data copies label =>
      obtain ⟨handle, contents, hk, hpick, rfl⟩ := step_attach.mp h
      refine hs.grow (fun j hj => ?_) fun i => ?_
      · obtain ⟨copied, hmem, hj⟩ := mem_refsOf.mp hj
        exact hs.alive_of_root (List.mem_append_left _
          (mem_refsOf.mpr ⟨copied, pick_mem hpick copied hmem, hj⟩))
      · have hset := count_refsOf_set hk { label, refs := handle.refs ++ [s.cells.length] } i
        rw [List.count_append] at hset
        omega
  | clone k =>
      obtain ⟨handle, hk, rfl⟩ := step_clone.mp h
      exact hs.hold fun j hj => hs.alive_of_held hk hj
  | first k label =>
      obtain ⟨handle, i, hk, hi, rfl⟩ := step_first.mp h
      refine hs.hold fun j hj => ?_
      cases List.mem_singleton.mp hj
      exact hs.alive_of_held hk (List.mem_of_head? hi)
  | extract k pos item =>
      obtain ⟨handle, i, cell, copied, hk, hi, hcell, hitem, rfl⟩ := step_extract.mp h
      refine hs.hold fun j hj => ?_
      refine hs.alive_of_points (hs.alive_of_held hk (List.mem_of_getElem? hi)) ?_
      exact ⟨cell, hcell, mem_refsOf.mpr ⟨copied, List.mem_of_getElem? hitem, hj⟩⟩
  | upgrade i label =>
      rcases step_upgrade h with rfl | ⟨halive, rfl⟩
      · exact hs
      · refine hs.hold fun j hj => ?_
        cases List.mem_singleton.mp hj
        exact halive
  | update i data =>
      obtain ⟨cell, hi, hne, rfl⟩ := step_update h
      exact hs.update hi hne data
  | give t k =>
      obtain ⟨handle, hk, rfl⟩ := step_give.mp h
      exact hs.give hk t
  | settle t => exact hs.settle h

/-- What a cell was made from stays, and its data change by an update only. -/
theorem step_cell {op : Op α β} {cell : Cell α β} (h : s.step op = some s')
    (hi : s.cells[i]? = some cell) :
    ∃ cell', s'.cells[i]? = some cell' ∧ cell'.contents = cell.contents ∧
      (cell'.data = cell.data ∨ op = .update i cell'.data) := by
  have hlt := (List.getElem?_eq_some_iff.mp hi).1
  have hretain : ∀ refs : List Nat, (retain refs s.cells)[i]? =
      some { cell with strong := cell.strong + refs.count i } := by
    intro refs
    rw [retain_getElem?, hi]
    rfl
  cases op with
  | alloc data label =>
      cases h
      exact ⟨cell, by rw [List.getElem?_append_left hlt, hi], rfl, .inl rfl⟩
  | attach k data copies label =>
      obtain ⟨handle, contents, -, -, rfl⟩ := step_attach.mp h
      exact ⟨_, (List.getElem?_append_left (by rwa [retain_length])).trans (hretain _), rfl,
        .inl rfl⟩
  | clone k =>
      obtain ⟨handle, -, rfl⟩ := step_clone.mp h
      exact ⟨_, hretain _, rfl, .inl rfl⟩
  | first k label =>
      obtain ⟨handle, j, -, -, rfl⟩ := step_first.mp h
      exact ⟨_, hretain _, rfl, .inl rfl⟩
  | extract k pos item =>
      obtain ⟨handle, j, other, copied, -, -, -, -, rfl⟩ := step_extract.mp h
      exact ⟨_, hretain _, rfl, .inl rfl⟩
  | upgrade j label =>
      rcases step_upgrade h with rfl | ⟨-, rfl⟩
      · exact ⟨cell, hi, rfl, .inl rfl⟩
      · exact ⟨_, hretain _, rfl, .inl rfl⟩
  | update j data =>
      obtain ⟨other, hj, -, rfl⟩ := step_update h
      by_cases hne : i = j
      · subst hne
        rw [hi] at hj
        cases hj
        exact ⟨_, List.getElem?_set_self hlt, rfl, .inr rfl⟩
      · exact ⟨cell, by rwa [List.getElem?_set_ne (Ne.symm hne)], rfl, .inl rfl⟩
  | give t k =>
      obtain ⟨handle, -, rfl⟩ := step_give.mp h
      exact ⟨cell, hi, rfl, .inl rfl⟩
  | settle t =>
      obtain ⟨j, rest, other, -, hj, hcells, -⟩ := step_settle h
      rw [hcells]
      by_cases hne : i = j
      · subst hne
        rw [hi] at hj
        cases hj
        exact ⟨_, List.getElem?_set_self hlt, rfl, .inl rfl⟩
      · exact ⟨cell, by rwa [List.getElem?_set_ne (Ne.symm hne)], rfl, .inl rfl⟩

/-- A new cell was allocated with its data. -/
theorem step_new_cell {op : Op α β} {cell : Cell α β} (h : s.step op = some s')
    (hi : s'.cells[i]? = some cell) (hnew : s.cells.length ≤ i) :
    (∃ label, op = .alloc cell.data label) ∨
      ∃ k copies label, op = .attach k cell.data copies label := by
  have hlt := (List.getElem?_eq_some_iff.mp hi).1
  have hsame : s'.cells.length = s.cells.length → False := fun heq => by omega
  cases op with
  | alloc data label =>
      cases h
      rw [List.getElem?_append_right hnew] at hi
      cases List.mem_singleton.mp (List.mem_of_getElem? hi)
      exact .inl ⟨label, rfl⟩
  | attach k data copies label =>
      obtain ⟨handle, contents, -, -, rfl⟩ := step_attach.mp h
      rw [List.getElem?_append_right (by rwa [retain_length])] at hi
      cases List.mem_singleton.mp (List.mem_of_getElem? hi)
      exact .inr ⟨k, copies, label, rfl⟩
  | clone k =>
      obtain ⟨handle, -, rfl⟩ := step_clone.mp h
      exact (hsame (retain_length _ _)).elim
  | first k label =>
      obtain ⟨handle, j, -, -, rfl⟩ := step_first.mp h
      exact (hsame (retain_length _ _)).elim
  | extract k pos item =>
      obtain ⟨handle, j, other, copied, -, -, -, -, rfl⟩ := step_extract.mp h
      exact (hsame (retain_length _ _)).elim
  | upgrade j label =>
      rcases step_upgrade h with rfl | ⟨-, rfl⟩
      · exact (hsame rfl).elim
      · exact (hsame (retain_length _ _)).elim
  | update j data =>
      obtain ⟨other, -, -, rfl⟩ := step_update h
      exact (hsame (List.length_set ..)).elim
  | give t k =>
      obtain ⟨handle, -, rfl⟩ := step_give.mp h
      exact (hsame rfl).elim
  | settle t =>
      obtain ⟨j, rest, other, -, -, hcells, -⟩ := step_settle h
      exact (hsame (by rw [hcells, List.length_set])).elim

/-- Only giving back destroys. -/
theorem destroyed_of_step {op : Op α β} (h : s.step op = some s') (hop : ∀ t, op ≠ .settle t) :
    s'.destroyed = s.destroyed := by
  cases op with
  | alloc data label =>
      cases h
      rfl
  | attach k data copies label =>
      obtain ⟨handle, contents, -, -, rfl⟩ := step_attach.mp h
      rfl
  | clone k =>
      obtain ⟨handle, -, rfl⟩ := step_clone.mp h
      rfl
  | first k label =>
      obtain ⟨handle, j, -, -, rfl⟩ := step_first.mp h
      rfl
  | extract k pos item =>
      obtain ⟨handle, j, other, copied, -, -, -, -, rfl⟩ := step_extract.mp h
      rfl
  | upgrade j label =>
      rcases step_upgrade h with rfl | ⟨-, rfl⟩
      · rfl
      · rfl
  | update j data =>
      obtain ⟨other, -, -, rfl⟩ := step_update h
      rfl
  | give t k =>
      obtain ⟨handle, -, rfl⟩ := step_give.mp h
      rfl
  | settle t => exact absurd rfl (hop t)

/-- A cell is alive exactly as long as somebody can get at it: through a handle, or
through a reference a thread has not given back yet. -/
theorem Sound.alive_iff_reach (h : s.Sound) :
    s.alive i ↔ ∃ r ∈ s.roots, s.Reach r i := by
  constructor
  · -- a reference is a root or held by a younger live cell
    intro halive
    have hlt := lt_of_alive halive
    induction hn : s.cells.length - i using Nat.strong_induction_on generalizing i with
    | _ n ih =>
        rcases List.mem_append.mp (h.alive_iff.mp halive) with hroot | hcell
        · exact ⟨i, hroot, .refl⟩
        · obtain ⟨refs, hrefs, hi⟩ := List.mem_flatten.mp hcell
          obtain ⟨cell, hmem, rfl⟩ := List.mem_map.mp hrefs
          obtain ⟨j, hj⟩ := List.mem_iff_getElem?.mp hmem
          have hjlt := (List.getElem?_eq_some_iff.mp hj).1
          unfold Cell.owns at hi
          split at hi
          · cases hi
          · rename_i hne
            have hyounger := h.older j cell hj i hi
            have hj' : s.alive j := by
              rw [alive, strongAt_of_getElem? hj]
              omega
            obtain ⟨r, hr, hreach⟩ := ih (s.cells.length - j) (by omega) hj' hjlt rfl
            exact ⟨r, hr, hreach.tail ⟨cell, hj, hi⟩⟩
  · rintro ⟨r, hr, hreach⟩
    exact h.alive_of_reach (h.alive_of_root hr) hreach

/-- The references that exist in all cells together. -/
def total (s : State α β) : Nat := (s.cells.map Cell.strong).sum

theorem sum_strong_set {cells : List (Cell α β)} {cell : Cell α β} (hi : cells[i]? = some cell)
    (hpos : 0 < cell.strong) :
    ((cells.set i { cell with strong := cell.strong - 1 }).map Cell.strong).sum + 1 =
      (cells.map Cell.strong).sum := by
  induction cells generalizing i with
  | nil => cases hi
  | cons first cells ih =>
      cases i with
      | zero =>
          cases hi
          simp only [List.set_cons_zero, List.map_cons, List.sum_cons]
          omega
      | succ i =>
          have hrest := ih (i := i) hi
          simp only [List.set_cons_succ, List.map_cons, List.sum_cons]
          omega

/-- A thread with something to give back can go on, and every step of it takes one
reference away: giving back comes to an end whatever the order of the threads. -/
theorem Sound.settle_total (h : s.Sound) {rest : List Nat}
    (ht : s.threads[t]? = some (i :: rest)) :
    ∃ s', s.step (.settle t) = some s' ∧ s'.total + 1 = s.total := by
  have hroot : i ∈ s.roots := List.mem_append_right _
    (List.mem_flatten.mpr ⟨_, List.mem_of_getElem? ht, List.mem_cons_self⟩)
  have hpos := h.alive_of_root hroot
  have hrelease : ∃ s', s.step (.settle t) = some s' := by
    rw [step, ht]
    simp only [Option.bind_eq_bind, Option.bind_some, release,
      List.getElem?_eq_getElem (lt_of_alive hpos)]
    split
    · exact ⟨_, rfl⟩
    · exact ⟨_, rfl⟩
  obtain ⟨s', hs'⟩ := hrelease
  refine ⟨s', hs', ?_⟩
  obtain ⟨j, rest', cell, ht', hcell, hcells, -⟩ := step_settle hs'
  rw [ht] at ht'
  cases ht'
  rw [alive, strongAt_of_getElem? hcell] at hpos
  rw [total, total, hcells]
  exact sum_strong_set hcell hpos

/-- The threads go on giving back, in any order. -/
def Settles (s s' : State α β) : Prop :=
  Relation.ReflTransGen (fun s s' => ∃ t, s.step (.settle t) = some s') s s'

theorem Sound.settles (h : s.Sound) (hrun : s.Settles s') : s'.Sound ∧ s'.held = s.held := by
  induction hrun with
  | refl => exact ⟨h, rfl⟩
  | tail _ hstep ih =>
      obtain ⟨t, hstep⟩ := hstep
      obtain ⟨i, rest, cell, -, -, -, hheld, -⟩ := step_settle hstep
      exact ⟨step_sound ih.1 hstep, hheld.trans ih.2⟩

/-- Left alone, the threads come to an end. -/
theorem Sound.settles_idle (h : s.Sound) : ∃ s', s.Settles s' ∧ s'.threads.flatten = [] := by
  induction hn : s.total using Nat.strong_induction_on generalizing s with
  | _ n ih =>
      by_cases hidle : s.threads.flatten = []
      · exact ⟨s, .refl, hidle⟩
      · obtain ⟨refs, hrefs, hne⟩ : ∃ refs ∈ s.threads, refs ≠ [] := by
          by_contra hall
          refine hidle (List.flatten_eq_nil_iff.mpr fun refs hrefs => ?_)
          by_contra hne
          exact hall ⟨refs, hrefs, hne⟩
        obtain ⟨t, ht⟩ := List.mem_iff_getElem?.mp hrefs
        obtain ⟨i, rest, rfl⟩ := List.exists_cons_of_ne_nil hne
        obtain ⟨s₁, hstep, htotal⟩ := h.settle_total ht
        obtain ⟨s', hrest, hend⟩ := ih s₁.total (by omega) (step_sound h hstep) rfl
        exact ⟨s', .head ⟨t, hstep⟩ hrest, hend⟩

end State

end SharedHeap
