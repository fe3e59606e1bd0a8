import ElfLoader.Library.Placement
import Mathlib.Data.List.Basic
import Mathlib.Data.List.TakeDrop
import Mathlib.Tactic.Basic

/-! # Overwriting parts of a buffer

A buffer is a list, a part of it a `slice`. A write inside the buffer replaces a
slice and nothing else; a group of writes relative to one origin stays inside any
range that holds them. A buffer that is a concatenation of blocks has the blocks
as slices.
-/

namespace Splice

variable {α : Type}

/-- The `n` elements from `off` on. -/
def slice (l : List α) (off n : Nat) : List α := (l.drop off).take n

/-- Overwrite the elements from `off` on; a write past the end is refused. -/
def splice (l : List α) (off : Nat) (xs : List α) : Option (List α) :=
  if off + xs.length ≤ l.length then some (l.take off ++ xs ++ l.drop (off + xs.length)) else none

/-- Several writes, one after another, each at its distance from `off`. -/
def spliceAll (l : List α) (off : Nat) (writes : List (Nat × List α)) : Option (List α) :=
  writes.foldlM (fun l write => splice l (off + write.1) write.2) l

section Slice

variable {l l' : List α} {off n : Nat}

theorem slice_zero (l : List α) (n : Nat) : slice l 0 n = l.take n := by
  rw [slice, List.drop_zero]

theorem slice_getElem? (l : List α) (off n i : Nat) :
    (slice l off n)[i]? = if i < n then l[off + i]? else none := by
  unfold slice
  rw [List.getElem?_take]
  split
  · rw [List.getElem?_drop]
  · rfl

theorem slice_length (h : off + n ≤ l.length) : (slice l off n).length = n := by
  simp only [slice, List.length_take, List.length_drop]
  omega

theorem slice_congr (h : ∀ i, off ≤ i → i < off + n → l[i]? = l'[i]?) :
    slice l off n = slice l' off n := by
  apply List.ext_getElem?
  intro i
  rw [slice_getElem?, slice_getElem?]
  split
  · exact h (off + i) (by omega) (by omega)
  · rfl

theorem slice_slice {i k : Nat} (h : i + k ≤ n) :
    slice (slice l off n) i k = slice l (off + i) k := by
  apply List.ext_getElem?
  intro j
  simp only [slice_getElem?, Nat.add_assoc]
  by_cases hj : j < k
  · rw [if_pos hj, if_pos (by omega), if_pos hj]
  · rw [if_neg hj, if_neg hj]

/-- A slice as long as it should be lies inside. -/
theorem slice_inside {xs : List α} (h : slice l off xs.length = xs) (hne : xs ≠ []) :
    off + xs.length ≤ l.length := by
  have hlen := congrArg List.length h
  have hpos := List.length_pos_iff.mpr hne
  rw [slice, List.length_take, List.length_drop] at hlen
  omega

theorem slice_append_left {r : List α} (h : off + n ≤ l.length) :
    slice (l ++ r) off n = slice l off n :=
  slice_congr fun i _ hhi => List.getElem?_append_left (by omega)

/-- The middle of three blocks. -/
theorem slice_middle (l m r : List α) : slice (l ++ m ++ r) l.length m.length = m := by
  simp [slice]

end Slice

section Splice

variable {l l' xs : List α} {off : Nat}

theorem splice_bound (h : splice l off xs = some l') : off + xs.length ≤ l.length := by
  unfold splice at h
  split at h
  · assumption
  · cases h

theorem splice_getElem? (h : splice l off xs = some l') (j : Nat) :
    l'[j]? = if off ≤ j ∧ j < off + xs.length then xs[j - off]? else l[j]? := by
  have hbound := splice_bound h
  rw [splice, if_pos hbound] at h
  cases h
  have htake : (l.take off).length = off := by
    rw [List.length_take]
    omega
  rw [List.append_assoc]
  by_cases hlo : j < off
  · rw [List.getElem?_append_left (by omega), List.getElem?_take_of_lt hlo, if_neg (by omega)]
  · rw [List.getElem?_append_right (by omega), htake]
    by_cases hhi : j < off + xs.length
    · rw [List.getElem?_append_left (by omega), if_pos (by omega)]
    · rw [List.getElem?_append_right (by omega), List.getElem?_drop, if_neg (by omega)]
      congr 1
      omega

theorem splice_length (h : splice l off xs = some l') : l'.length = l.length := by
  have hbound := splice_bound h
  rw [splice, if_pos hbound] at h
  cases h
  simp only [List.length_append, List.length_take, List.length_drop]
  omega

theorem slice_splice_self (h : splice l off xs = some l') : slice l' off xs.length = xs := by
  apply List.ext_getElem?
  intro i
  rw [slice_getElem?, splice_getElem? h]
  by_cases hi : i < xs.length
  · rw [if_pos hi, if_pos (by omega), Nat.add_sub_cancel_left]
  · rw [if_neg hi, List.getElem?_eq_none (by omega)]

end Splice

/-! ## Writes that stay inside a range -/

/-- `l'` is `l` with nothing changed outside the range from `lo` to `hi`. -/
structure Patched (lo hi : Nat) (l l' : List α) : Prop where
  length : l'.length = l.length
  frame : ∀ j, j < lo ∨ hi ≤ j → l'[j]? = l[j]?

namespace Patched

variable {lo hi : Nat} {l l' l'' : List α}

theorem refl (lo hi : Nat) (l : List α) : Patched lo hi l l :=
  ⟨rfl, fun _ _ => rfl⟩

theorem trans (h : Patched lo hi l l') (h' : Patched lo hi l' l'') : Patched lo hi l l'' :=
  ⟨h'.length.trans h.length, fun j hj => (h'.frame j hj).trans (h.frame j hj)⟩

theorem of_splice {off : Nat} {xs : List α} (h : splice l off xs = some l') (hlo : lo ≤ off)
    (hhi : off + xs.length ≤ hi) : Patched lo hi l l' where
  length := splice_length h
  frame := by
    intro j hj
    rw [splice_getElem? h, if_neg (by omega)]

theorem slice_eq (h : Patched lo hi l l') {off n : Nat} (hout : off + n ≤ lo ∨ hi ≤ off) :
    slice l' off n = slice l off n := by
  apply slice_congr
  intro i hlo hhi
  exact h.frame i (by omega)

end Patched

/-- The writes of a group lie in the first `n` elements from the origin. -/
def Inside (n : Nat) (writes : List (Nat × List α)) : Prop :=
  ∀ write ∈ writes, write.1 + write.2.length ≤ n

section Group

variable {l l' : List α} {off n : Nat} {writes : List (Nat × List α)}

theorem spliceAll_cons {write : Nat × List α} (h : spliceAll l off (write :: writes) = some l') :
    ∃ m, splice l (off + write.1) write.2 = some m ∧ spliceAll m off writes = some l' := by
  unfold spliceAll at h
  rw [List.foldlM_cons] at h
  exact Option.bind_eq_some_iff.mp h

theorem Patched.of_spliceAll (h : spliceAll l off writes = some l') (hin : Inside n writes) :
    Patched off (off + n) l l' := by
  induction writes generalizing l with
  | nil =>
      cases h
      exact Patched.refl _ _ _
  | cons write writes ih =>
      obtain ⟨m, hm, hrest⟩ := spliceAll_cons h
      have hfirst := hin write List.mem_cons_self
      exact (Patched.of_splice hm (by omega) (by omega)).trans
        (ih hrest fun w hw => hin w (List.mem_cons_of_mem _ hw))

/-- A group of writes inside a buffer is carried out. -/
theorem spliceAll_defined (hin : Inside n writes) (hn : off + n ≤ l.length) :
    ∃ l', spliceAll l off writes = some l' := by
  induction writes generalizing l with
  | nil => exact ⟨l, rfl⟩
  | cons write writes ih =>
      have hfirst := hin write List.mem_cons_self
      obtain ⟨m, hm⟩ : ∃ m, splice l (off + write.1) write.2 = some m :=
        ⟨_, if_pos (by omega)⟩
      obtain ⟨l', hl'⟩ := ih (l := m) (fun w hw => hin w (List.mem_cons_of_mem _ hw))
        (by rwa [splice_length hm])
      exact ⟨l', by rw [spliceAll, List.foldlM_cons, hm]; exact hl'⟩

/-- No write of the group touches the range. -/
theorem spliceAll_keeps {o k : Nat} (h : spliceAll l off writes = some l')
    (hapart : ∀ write ∈ writes, o + k ≤ write.1 ∨ write.1 + write.2.length ≤ o) :
    slice l' (off + o) k = slice l (off + o) k := by
  induction writes generalizing l with
  | nil =>
      cases h
      rfl
  | cons write writes ih =>
      obtain ⟨m, hm, hrest⟩ := spliceAll_cons h
      have hfirst := hapart write List.mem_cons_self
      rw [ih hrest fun w hw => hapart w (List.mem_cons_of_mem _ hw)]
      exact (Patched.of_splice hm (Nat.le_refl _) (Nat.le_refl _)).slice_eq (by omega)

/-- Writes to different places are all there in the end. -/
theorem slice_spliceAll (h : spliceAll l off writes = some l')
    (hapart : writes.Pairwise fun a b => a.1 + a.2.length ≤ b.1 ∨ b.1 + b.2.length ≤ a.1)
    {write : Nat × List α} (hwrite : write ∈ writes) :
    slice l' (off + write.1) write.2.length = write.2 := by
  induction writes generalizing l with
  | nil => cases hwrite
  | cons first writes ih =>
      obtain ⟨hfirst, hothers⟩ := List.pairwise_cons.mp hapart
      obtain ⟨m, hm, hrest⟩ := spliceAll_cons h
      rcases List.mem_cons.mp hwrite with rfl | hmem
      · rw [spliceAll_keeps hrest fun w hw => hfirst w hw, slice_splice_self hm]
      · exact ih hrest hothers hmem

end Group

/-! ## Blocks one after another -/

section Blocks

variable (bs : List (List α))

/-- Where the block at position `k` starts in the concatenation. -/
def start (k : Nat) : Nat := (bs.take k).flatten.length

theorem start_eq_sum (k : Nat) : start bs k = ((bs.map List.length).take k).sum := by
  rw [start, List.length_flatten, List.map_take]

theorem start_succ {k : Nat} (hk : k < bs.length) :
    start bs (k + 1) = start bs k + bs[k].length := by
  rw [start, start, List.take_succ_eq_append_getElem hk, List.flatten_append, List.length_append,
    List.flatten_singleton]

theorem start_mono {j k : Nat} (h : j ≤ k) : start bs j ≤ start bs k := by
  have hsplit : bs.take k = bs.take j ++ (bs.take k).drop j := by
    have htake : (bs.take k).take j = bs.take j := by rw [List.take_take, Nat.min_eq_left h]
    rw [← htake, List.take_append_drop]
  rw [start, start, hsplit, List.flatten_append, List.length_append]
  omega

theorem start_length : start bs bs.length = bs.flatten.length := by
  rw [start, List.take_length]

theorem start_end_le {k : Nat} (hk : k < bs.length) :
    start bs k + bs[k].length ≤ bs.flatten.length := by
  rw [← start_succ bs hk, ← start_length]
  exact start_mono bs hk

/-- Different blocks do not overlap. -/
theorem start_apart {j k : Nat} (hj : j < bs.length) (hk : k < bs.length) (hne : j ≠ k) :
    start bs j + bs[j].length ≤ start bs k ∨ start bs k + bs[k].length ≤ start bs j := by
  rcases Nat.lt_or_gt_of_ne hne with hlt | hlt
  · left
    rw [← start_succ bs hj]
    exact start_mono bs hlt
  · right
    rw [← start_succ bs hk]
    exact start_mono bs hlt

/-- From the start of a block on there is the block and what follows it. -/
theorem drop_start {k : Nat} (hk : k < bs.length) :
    bs.flatten.drop (start bs k) = bs[k] ++ (bs.drop (k + 1)).flatten := by
  have hsplit : bs.flatten = (bs.take k).flatten ++ (bs.drop k).flatten := by
    rw [← List.flatten_append, List.take_append_drop]
  rw [hsplit, start, List.drop_left, List.drop_eq_getElem_cons hk, List.flatten_cons]

theorem slice_flatten {k : Nat} (hk : k < bs.length) :
    slice bs.flatten (start bs k) bs[k].length = bs[k] := by
  rw [slice, drop_start bs hk, List.take_left]

end Blocks

/-! ## A buffer that grows -/

/-- Write at an offset, after filling the buffer up to the end of the write. -/
def writeAt (fill : α) (l : List α) (off : Nat) (xs : List α) : List α :=
  let l := l ++ List.replicate (off + xs.length - l.length) fill
  l.take off ++ xs ++ l.drop (off + xs.length)

section WriteAt

variable (fill : α) {l xs : List α} {off : Nat}

theorem writeAt_eq_splice (l xs : List α) (off : Nat) :
    ∃ m, m = l ++ List.replicate (off + xs.length - l.length) fill ∧
      splice m off xs = some (writeAt fill l off xs) := by
  refine ⟨_, rfl, if_pos ?_⟩
  simp only [List.length_append, List.length_replicate]
  omega

theorem writeAt_length (l xs : List α) (off : Nat) :
    (writeAt fill l off xs).length = max l.length (off + xs.length) := by
  obtain ⟨m, hm, hsplice⟩ := writeAt_eq_splice fill l xs off
  rw [splice_length hsplice, hm, List.length_append, List.length_replicate]
  omega

theorem slice_writeAt_self : slice (writeAt fill l off xs) off xs.length = xs := by
  obtain ⟨m, hm, hsplice⟩ := writeAt_eq_splice fill l xs off
  exact slice_splice_self hsplice

/-- What the buffer held before the write stays. -/
theorem slice_writeAt_of_below {o n : Nat} (hlen : o + n ≤ l.length) (hoff : o + n ≤ off) :
    slice (writeAt fill l off xs) o n = slice l o n := by
  obtain ⟨m, hm, hsplice⟩ := writeAt_eq_splice fill l xs off
  apply slice_congr
  intro i hlo hhi
  rw [splice_getElem? hsplice, if_neg (by omega), hm, List.getElem?_append_left (by omega)]

/-- The blocks of a file, written one after another. -/
def writeAll (fill : α) (l : List α) (blocks : List (Nat × List α)) : List α :=
  blocks.foldl (fun l block => writeAt fill l block.1 block.2) l

theorem writeAll_cons (block : Nat × List α) (blocks : List (Nat × List α)) :
    writeAll fill l (block :: blocks) =
      writeAll fill (writeAt fill l block.1 block.2) blocks := rfl

/-- Blocks in ascending order do not touch what stands before them, and each of
them is found at its place. -/
theorem writeAll_ascending {blocks : List (Nat × List α)} {lo hi : Nat}
    (h : Placement.Ascending Prod.fst (fun block => block.2.length) lo hi blocks)
    (hlo : l.length ≤ lo) :
    l.length ≤ (writeAll fill l blocks).length ∧ (writeAll fill l blocks).length ≤ hi ∧
      (∀ o n, o + n ≤ l.length → slice (writeAll fill l blocks) o n = slice l o n) ∧
      ∀ block ∈ blocks, block.1 + block.2.length ≤ (writeAll fill l blocks).length ∧
        slice (writeAll fill l blocks) block.1 block.2.length = block.2 := by
  induction blocks generalizing l lo with
  | nil =>
      refine ⟨Nat.le_refl _, Nat.le_trans hlo h, fun _ _ _ => rfl, ?_⟩
      exact fun block hblock => absurd hblock List.not_mem_nil
  | cons block blocks ih =>
      have hstart : lo ≤ block.1 := h.1
      have hlen := writeAt_length fill l block.2 block.1
      obtain ⟨hgrow, hend, hkeep, hblocks⟩ :=
        ih h.2 (l := writeAt fill l block.1 block.2) (by dsimp only; omega)
      rw [writeAll_cons]
      refine ⟨by omega, hend, fun o n hin => ?_, fun b hb => ?_⟩
      · rw [hkeep o n (by omega), slice_writeAt_of_below fill hin (by omega)]
      · rcases List.mem_cons.mp hb with rfl | hmem
        · refine ⟨by omega, ?_⟩
          rw [hkeep _ _ (by omega), slice_writeAt_self]
        · exact hblocks b hmem

end WriteAt

end Splice
