import Mathlib.Data.List.Basic
import Mathlib.Tactic.Basic

/-! # Loops that may fail

Folds and maps whose steps return an `Option`. What a loop keeps follows from what
one step keeps.
-/

namespace Partial

variable {α β : Type}

/-- A relation that every successful step of a fold respects. -/
theorem foldlM_invariant {f : α → β → Option α} (R : α → α → Prop)
    (hrefl : ∀ a, R a a) (htrans : ∀ {a b c}, R a b → R b c → R a c) {l : List β}
    (hstep : ∀ b ∈ l, ∀ {a a'}, f a b = some a' → R a a') {a a' : α}
    (h : l.foldlM f a = some a') : R a a' := by
  induction l generalizing a with
  | nil =>
      cases h
      exact hrefl _
  | cons b l ih =>
      rw [List.foldlM_cons] at h
      obtain ⟨m, hm, hrest⟩ := Option.bind_eq_some_iff.mp h
      exact htrans (hstep b List.mem_cons_self hm)
        (ih (fun b' hb' => hstep b' (List.mem_cons_of_mem b hb')) hrest)

/-- A map succeeds with the results of the single elements. -/
theorem mapM_getElem? {f : α → Option β} {l : List α} {r : List β} (h : l.mapM f = some r)
    (i : Nat) : r[i]? = l[i]?.bind f := by
  induction l generalizing r i with
  | nil =>
      cases h
      rfl
  | cons a l ih =>
      rw [List.mapM_cons] at h
      simp only [Option.bind_eq_bind, Option.bind_eq_some_iff, Option.pure_def,
        Option.some.injEq] at h
      obtain ⟨b, hb, rest, hrest, rfl⟩ := h
      cases i with
      | zero => exact hb.symm
      | succ i => exact ih hrest i

theorem mapM_length {f : α → Option β} {l : List α} {r : List β} (h : l.mapM f = some r) :
    r.length = l.length := by
  induction l generalizing r with
  | nil =>
      cases h
      rfl
  | cons a l ih =>
      rw [List.mapM_cons] at h
      simp only [Option.bind_eq_bind, Option.bind_eq_some_iff, Option.pure_def,
        Option.some.injEq] at h
      obtain ⟨b, -, rest, hrest, rfl⟩ := h
      rw [List.length_cons, List.length_cons, ih hrest]

end Partial
