import Mathlib.Data.List.Basic
import Mathlib.Data.Set.Lattice
import Mathlib.Order.CompletePartialOrder
import Mathlib.Tactic.Basic

/-! # Steps with separate places

Items are treated one after the other, and the step of an item changes a memory only
where the item has its place. If no two places overlap, then every step finds the
memory of the start at its place, and what it leaves there stays.
-/

namespace Footprint

variable {ι α β : Type}

/-- The steps of the items of a list, in order. -/
inductive Steps (R : ι → (α → β) → (α → β) → Prop) : List ι → (α → β) → (α → β) → Prop
  | nil {m} : Steps R [] m m
  | cons {x xs m m₁ m'} (h : R x m m₁) (t : Steps R xs m₁ m') : Steps R (x :: xs) m m'

variable {R : ι → (α → β) → (α → β) → Prop} {xs ys : List ι} {m m₁ m' : α → β}

theorem Steps.append (h : Steps R xs m m₁) (t : Steps R ys m₁ m') : Steps R (xs ++ ys) m m' := by
  induction h with
  | nil => exact t
  | cons h _ ih => exact .cons h (ih t)

variable {place : ι → Set α}

/-- A step changes nothing outside the place of its item. -/
def Local (place : ι → Set α) (R : ι → (α → β) → (α → β) → Prop) : Prop :=
  ∀ ⦃x m m'⦄, R x m m' → ∀ a ∉ place x, m' a = m a

theorem Steps.frame (hR : Local place R) (h : Steps R xs m m') {a : α}
    (ha : ∀ x ∈ xs, a ∉ place x) : m' a = m a := by
  induction h with
  | nil => rfl
  | cons h _ ih =>
      obtain ⟨hx, hxs⟩ := List.forall_mem_cons.mp ha
      rw [ih hxs, hR h _ hx]

/-- The memory around the step of an item. Outside of all places it is that of the
start, too. -/
structure Around (place : ι → Set α) (xs : List ι) (m m' : α → β) (x : ι) (before after : α → β) :
    Prop where
  found : ∀ a ∈ place x, before a = m a
  kept : ∀ a ∈ place x, m' a = after a
  outside : ∀ a, (∀ y ∈ xs, a ∉ place y) → before a = m a

theorem Steps.around (hR : Local place R)
    (hdisj : xs.Pairwise fun x y => Disjoint (place x) (place y)) (h : Steps R xs m m') {x : ι}
    (hx : x ∈ xs) : ∃ before after, R x before after ∧ Around place xs m m' x before after := by
  induction h with
  | nil => exact absurd hx List.not_mem_nil
  | @cons y ys m m₁ m' hstep hrest ih =>
      obtain ⟨hy, hys⟩ := List.pairwise_cons.mp hdisj
      rcases List.mem_cons.mp hx with rfl | hmem
      · refine ⟨m, m₁, hstep, fun _ _ => rfl, fun a ha => ?_, fun _ _ => rfl⟩
        exact hrest.frame hR fun z hz => Set.disjoint_left.mp (hy z hz) ha
      · obtain ⟨before, after, hbetween, haround⟩ := ih hys hmem
        have hapart := Set.disjoint_right.mp (hy x hmem)
        refine ⟨before, after, hbetween, fun a ha => ?_, haround.kept, fun a ha => ?_⟩
        · rw [haround.found a ha, hR hstep a (hapart ha)]
        · obtain ⟨hout, hrestOut⟩ := List.forall_mem_cons.mp ha
          rw [haround.outside a hrestOut, hR hstep a hout]

end Footprint
