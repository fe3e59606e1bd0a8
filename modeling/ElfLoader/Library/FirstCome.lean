import Mathlib.Data.Finset.Card
import Mathlib.Data.List.Nodup

/-! # Places handed out in the order of the first request

A table that gives each key a place the first time it is asked for, and the same
place later, is the list of its keys in the order of their first requests. The
place of a key is its position.
-/

namespace FirstCome

variable {κ : Type} [DecidableEq κ]

/-- The keys after a request. -/
def serve (order : List κ) (k : κ) : List κ := if k ∈ order then order else order ++ [k]

variable {order order' : List κ} {k : κ}

@[simp] theorem serve_of_mem (h : k ∈ order) : serve order k = order := if_pos h

@[simp] theorem serve_of_not_mem (h : k ∉ order) : serve order k = order ++ [k] := if_neg h

theorem mem_serve_iff {k' : κ} : k' ∈ serve order k ↔ k' ∈ order ∨ k' = k := by
  by_cases h : k ∈ order
  · rw [serve_of_mem h]
    constructor
    · exact .inl
    · rintro (hk | rfl)
      · exact hk
      · exact h
  · simp [serve_of_not_mem h]

theorem isPrefix_serve (order : List κ) (k : κ) : order <+: serve order k := by
  by_cases h : k ∈ order
  · rw [serve_of_mem h]
  · rw [serve_of_not_mem h]
    exact List.prefix_append order [k]

theorem nodup_serve (h : order.Nodup) (k : κ) : (serve order k).Nodup := by
  by_cases hk : k ∈ order
  · rwa [serve_of_mem hk]
  · rw [serve_of_not_mem hk]
    rw [← List.concat_eq_append]
    exact h.concat hk

/-- The place of a key never changes. -/
theorem idxOf_of_isPrefix (h : order <+: order') (hk : k ∈ order) :
    order'.idxOf k = order.idxOf k := by
  obtain ⟨later, rfl⟩ := h
  exact List.idxOf_append_of_mem hk

theorem idxOf_concat_self (h : k ∉ order) : (order ++ [k]).idxOf k = order.length := by
  rw [List.idxOf_append_of_notMem h, List.idxOf_cons_self, Nat.add_zero]

/-- No more places are taken than there are keys. -/
theorem length_le_card {keys : Finset κ} (hnodup : order.Nodup) (h : ∀ k ∈ order, k ∈ keys) :
    order.length ≤ keys.card := by
  rw [← List.toFinset_card_of_nodup hnodup]
  exact Finset.card_le_card fun k hk => h k (List.mem_toFinset.mp hk)

/-! ## Tables -/

variable {ι : Type} [DecidableEq ι] {f : ι → κ} {table : List (ι × Nat)}

/-- A table that holds the places of the keys of one kind. -/
def Lists (f : ι → κ) (table : List (ι × Nat)) (order : List κ) : Prop :=
  ∀ i, table.lookup i = if f i ∈ order then some (order.idxOf (f i)) else none

theorem Lists.lookup_of_mem (h : Lists f table order) {i : ι} (hi : f i ∈ order) :
    table.lookup i = some (order.idxOf (f i)) := by
  rw [h i, if_pos hi]

theorem Lists.lookup_of_not_mem (h : Lists f table order) {i : ι} (hi : f i ∉ order) :
    table.lookup i = none := by
  rw [h i, if_neg hi]

/-- A key gets the next place. -/
theorem Lists.insert (h : Lists f table order) (hf : Function.Injective f) {i : ι}
    (hi : f i ∉ order) : Lists f ((i, order.length) :: table) (order ++ [f i]) := by
  intro j
  by_cases hij : j = i
  · subst hij
    rw [List.lookup_cons_self, if_pos (by simp), idxOf_concat_self hi]
  · have hne : f j ≠ f i := fun heq => hij (hf heq)
    have hlookup : ((i, order.length) :: table).lookup j = table.lookup j := by
      rw [List.lookup_cons, show (j == i) = false by simp [hij]]
    rw [hlookup, h j]
    by_cases hj : f j ∈ order
    · rw [if_pos hj, if_pos (List.mem_append_left _ hj), List.idxOf_append_of_mem hj]
    · rw [if_neg hj, if_neg (by simp [hj, hne])]

/-- A key of another kind gets the next place. -/
theorem Lists.insert_other (h : Lists f table order) {k : κ} (hk : ∀ i, f i ≠ k) :
    Lists f table (order ++ [k]) := by
  intro j
  rw [h j]
  by_cases hj : f j ∈ order
  · rw [if_pos hj, if_pos (List.mem_append_left _ hj), List.idxOf_append_of_mem hj]
  · rw [if_neg hj, if_neg (by simp [hj, hk j])]

end FirstCome
