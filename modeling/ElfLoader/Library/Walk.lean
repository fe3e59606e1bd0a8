import Mathlib.Computability.StateTransition
import Mathlib.Data.List.Perm.Subperm

/-! # Deterministic walks

A walk goes from state to state until there is no next one. A walk that ends visits
every state at most once, so in a finite range of states it is short.
-/

namespace Walk

open StateTransition

variable {α : Type*} {next : α → Option α} {a b : α} {l l' : List α}

/-- The states that a walk leaves, in order, until it ends. -/
inductive Ends (next : α → Option α) : α → List α → Prop where
  | stop {a : α} (h : next a = none) : Ends next a []
  | step {a b : α} {l : List α} (h : next a = some b) (hrest : Ends next b l) :
      Ends next a (a :: l)

namespace Ends

theorem unique (h : Ends next a l) (h' : Ends next a l') : l = l' := by
  induction h generalizing l' with
  | stop hnone =>
      cases h' with
      | stop => rfl
      | step hsome _ => exact absurd (hnone.symm.trans hsome) nofun
  | step hsome _ ih =>
      cases h' with
      | stop hnone => exact absurd (hnone.symm.trans hsome) nofun
      | step hsome' hrest' =>
          rw [hsome] at hsome'
          cases hsome'
          rw [ih hrest']

/-- From every state that is left the rest of the walk ends as well. -/
theorem suffix (h : Ends next a l) (hb : b ∈ l) :
    ∃ tail, Ends next b tail ∧ tail.length ≤ l.length := by
  induction h with
  | stop => cases hb
  | step hsome hrest ih =>
      rcases List.mem_cons.mp hb with rfl | hb
      · exact ⟨_, .step hsome hrest, Nat.le_refl _⟩
      · obtain ⟨tail, htail, hle⟩ := ih hb
        exact ⟨tail, htail, Nat.le_succ_of_le hle⟩

/-- A walk that ends comes nowhere twice. -/
theorem nodup (h : Ends next a l) : l.Nodup := by
  induction h with
  | stop => exact List.nodup_nil
  | step hsome hrest ih =>
      refine List.nodup_cons.mpr ⟨fun hmem => ?_, ih⟩
      obtain ⟨tail, htail, hle⟩ := hrest.suffix hmem
      rw [htail.unique (.step hsome hrest), List.length_cons] at hle
      omega

theorem next_ne_none (h : Ends next a l) : ∀ b ∈ l, next b ≠ none := by
  induction h with
  | stop => simp
  | step hsome _ ih => exact List.forall_mem_cons.mpr ⟨by simp [hsome], ih⟩

/-- What every state on the way satisfies. -/
theorem forall_mem {P : α → Prop} (h : Ends next a l) (ha : P a)
    (hnext : ∀ b c, P b → next b = some c → P c) : ∀ b ∈ l, P b := by
  induction h with
  | stop => simp
  | step hsome _ ih => exact List.forall_mem_cons.mpr ⟨ha, ih (hnext _ _ ha hsome)⟩

theorem reaches (h : Ends next a l) : ∃ b, Reaches next a b ∧ next b = none := by
  induction h with
  | stop hnone => exact ⟨_, .refl, hnone⟩
  | step hsome _ ih =>
      obtain ⟨b, hreach, hnone⟩ := ih
      exact ⟨b, .head hsome hreach, hnone⟩

end Ends

/-- A walk ends iff it reaches a state without a next one. -/
theorem exists_ends_iff : (∃ l, Ends next a l) ↔ ∃ b, Reaches next a b ∧ next b = none := by
  constructor
  · rintro ⟨l, h⟩
    exact h.reaches
  · rintro ⟨b, hreach, hnone⟩
    induction hreach using Relation.ReflTransGen.head_induction_on with
    | refl => exact ⟨[], .stop hnone⟩
    | head hsome _ ih =>
        obtain ⟨l, hl⟩ := ih
        exact ⟨_, .step hsome hl⟩

theorem reaches_invariant {P : α → Prop} (h : Reaches next a b) (ha : P a)
    (hnext : ∀ b c, P b → next b = some c → P c) : P b := by
  induction h with
  | refl => exact ha
  | tail _ hsome ih => exact hnext _ _ ih hsome

/-- A walk that comes back to where it started never ends. -/
theorem not_ends_of_fixed (h : next a = some a) : ¬ ∃ l, Ends next a l := by
  rintro ⟨l, hl⟩
  have hlen := congrArg List.length (hl.unique (.step h hl))
  rw [List.length_cons] at hlen
  omega

/-- In a range of `n` states fewer than `n` are left. -/
theorem Ends.length_lt {next : Nat → Option Nat} {a n : Nat} {l : List Nat} (h : Ends next a l)
    (ha : a < n) (hnext : ∀ b c, b < n → next b = some c → c < n) : l.length < n := by
  obtain ⟨b, hreach, hnone⟩ := h.reaches
  have hb : b < n := reaches_invariant (P := (· < n)) hreach ha hnext
  have hnodup : (b :: l).Nodup :=
    List.nodup_cons.mpr ⟨fun hmem => h.next_ne_none b hmem hnone, h.nodup⟩
  have hsubset : b :: l ⊆ List.range n := fun i hi => List.mem_range.mpr <| by
    rcases List.mem_cons.mp hi with rfl | hi
    · exact hb
    · exact h.forall_mem ha hnext i hi
  have hle := (List.subperm_of_subset hnodup hsubset).length_le
  rwa [List.length_cons, List.length_range] at hle

end Walk
