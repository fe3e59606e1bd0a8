import Mathlib.Data.List.Basic
import Mathlib.Tactic.Basic

/-! # Searching a list with a test that may stop

`findFirst f xs` asks the elements in order until one answers. The test itself
may stop the search with an error; an element after the first answer is never
asked. `searchWith` is the same search with a cache handed from one test to the
next.
-/

namespace Search

variable {ε α β σ : Type}

def findFirst (f : α → Except ε (Option β)) : List α → Except ε (Option β)
  | [] => .ok none
  | x :: xs =>
      match f x with
      | .error e => .error e
      | .ok (some b) => .ok (some b)
      | .ok none => findFirst f xs

def searchWith (f : α → σ → Except ε (Option β × σ)) : List α → σ → Except ε (Option β)
  | [], _ => .ok none
  | x :: xs, s =>
      match f x s with
      | .error e => .error e
      | .ok (some b, _) => .ok (some b)
      | .ok (none, s') => searchWith f xs s'

variable {f : α → Except ε (Option β)}

@[simp] theorem findFirst_nil : findFirst f [] = .ok none := rfl

theorem findFirst_cons_of_none {x : α} {xs : List α} (h : f x = .ok none) :
    findFirst f (x :: xs) = findFirst f xs := by
  simp only [findFirst, h]

theorem findFirst_cons_of_some {x : α} {xs : List α} {b : β} (h : f x = .ok (some b)) :
    findFirst f (x :: xs) = .ok (some b) := by
  simp only [findFirst, h]

theorem findFirst_cons_of_error {x : α} {xs : List α} {e : ε} (h : f x = .error e) :
    findFirst f (x :: xs) = .error e := by
  simp only [findFirst, h]

/-- The elements that declined may be dropped from the front. -/
theorem findFirst_append_of_none {xs ys : List α} (h : ∀ x ∈ xs, f x = .ok none) :
    findFirst f (xs ++ ys) = findFirst f ys := by
  induction xs with
  | nil => rfl
  | cons x xs ih =>
      rw [List.cons_append, findFirst_cons_of_none (h x List.mem_cons_self)]
      exact ih (fun y hy => h y (List.mem_cons_of_mem x hy))

theorem findFirst_append_of_some {xs ys : List α} {b : β} (h : findFirst f xs = .ok (some b)) :
    findFirst f (xs ++ ys) = .ok (some b) := by
  induction xs with
  | nil => cases h
  | cons x xs ih =>
      cases hx : f x with
      | error e =>
          rw [findFirst_cons_of_error hx] at h
          cases h
      | ok r =>
          cases r with
          | none =>
              rw [findFirst_cons_of_none hx] at h
              rw [List.cons_append, findFirst_cons_of_none hx, ih h]
          | some c =>
              rw [findFirst_cons_of_some hx] at h
              rw [List.cons_append, findFirst_cons_of_some hx, h]

theorem findFirst_eq_none_iff {xs : List α} :
    findFirst f xs = .ok none ↔ ∀ x ∈ xs, f x = .ok none := by
  induction xs with
  | nil => simp
  | cons x xs ih =>
      cases hx : f x with
      | error e =>
          rw [findFirst_cons_of_error hx]
          constructor
          · intro h
            cases h
          · intro h
            have hnone := h x List.mem_cons_self
            rw [hx] at hnone
            cases hnone
      | ok r =>
          cases r with
          | none =>
              rw [findFirst_cons_of_none hx, ih, List.forall_mem_cons]
              exact ⟨fun h => ⟨hx, h⟩, fun h => h.2⟩
          | some b =>
              rw [findFirst_cons_of_some hx]
              constructor
              · intro h
                cases h
              · intro h
                have hnone := h x List.mem_cons_self
                rw [hx] at hnone
                cases hnone

theorem findFirst_eq_some_iff {xs : List α} {b : β} :
    findFirst f xs = .ok (some b) ↔
      ∃ before x after, xs = before ++ x :: after ∧ (∀ y ∈ before, f y = .ok none) ∧
        f x = .ok (some b) := by
  constructor
  · intro h
    induction xs with
    | nil => cases h
    | cons x xs ih =>
        cases hx : f x with
        | error e =>
            rw [findFirst_cons_of_error hx] at h
            cases h
        | ok r =>
            cases r with
            | none =>
                rw [findFirst_cons_of_none hx] at h
                obtain ⟨before, y, after, rfl, hbefore, hy⟩ := ih h
                refine ⟨x :: before, y, after, rfl, ?_, hy⟩
                exact List.forall_mem_cons.mpr ⟨hx, hbefore⟩
            | some c =>
                rw [findFirst_cons_of_some hx] at h
                cases h
                exact ⟨[], x, xs, rfl, fun y hy => absurd hy List.not_mem_nil, hx⟩
  · rintro ⟨before, x, after, rfl, hbefore, hx⟩
    rw [findFirst_append_of_none hbefore, findFirst_cons_of_some hx]

/-- A search returns exactly when every element it reaches returns. -/
theorem findFirst_returns_iff {xs : List α} :
    (∃ r, findFirst f xs = .ok r) ↔
      ∀ before x after, xs = before ++ x :: after → (∀ y ∈ before, f y = .ok none) →
        ∃ r, f x = .ok r := by
  constructor
  · rintro ⟨r, h⟩ before x after rfl hbefore
    rw [findFirst_append_of_none hbefore] at h
    cases hx : f x with
    | ok r => exact ⟨r, rfl⟩
    | error e =>
        rw [findFirst_cons_of_error hx] at h
        cases h
  · intro h
    induction xs with
    | nil => exact ⟨none, rfl⟩
    | cons x xs ih =>
        obtain ⟨r, hx⟩ := h [] x xs rfl (fun y hy => absurd hy List.not_mem_nil)
        cases r with
        | some b => exact ⟨some b, findFirst_cons_of_some hx⟩
        | none =>
            rw [findFirst_cons_of_none hx]
            apply ih
            rintro before y after rfl hbefore
            exact h (x :: before) y after rfl (List.forall_mem_cons.mpr ⟨hx, hbefore⟩)

/-- The first element with a property some element has. -/
theorem exists_first {p : α → Prop} {xs : List α} (h : ∃ x ∈ xs, p x) :
    ∃ before x after, xs = before ++ x :: after ∧ p x ∧ ∀ y ∈ before, ¬ p y := by
  induction xs with
  | nil =>
      obtain ⟨x, hx, -⟩ := h
      cases hx
  | cons x xs ih =>
      by_cases hx : p x
      · exact ⟨[], x, xs, rfl, hx, fun y hy => absurd hy List.not_mem_nil⟩
      · have htail : ∃ y ∈ xs, p y := by
          obtain ⟨y, hy, hpy⟩ := h
          rcases List.mem_cons.mp hy with rfl | hy
          · exact absurd hpy hx
          · exact ⟨y, hy, hpy⟩
        obtain ⟨before, y, after, rfl, hy, hbefore⟩ := ih htail
        exact ⟨x :: before, y, after, rfl, hy, List.forall_mem_cons.mpr ⟨hx, hbefore⟩⟩

/-- A list splits at its first element with a property in one way only. -/
theorem first_unique {p : α → Prop} {before before' after after' : List α} {x x' : α}
    (h : before ++ x :: after = before' ++ x' :: after') (hbefore : ∀ y ∈ before, ¬ p y) (hx : p x)
    (hbefore' : ∀ y ∈ before', ¬ p y) (hx' : p x') :
    before = before' ∧ x = x' ∧ after = after' := by
  induction before generalizing before' with
  | nil =>
      cases before' with
      | nil => exact ⟨rfl, List.cons.inj h⟩
      | cons y before' =>
          rw [List.nil_append, List.cons_append, List.cons.injEq] at h
          exact absurd hx (h.1 ▸ hbefore' y List.mem_cons_self)
  | cons y before ih =>
      cases before' with
      | nil =>
          rw [List.nil_append, List.cons_append, List.cons.injEq] at h
          exact absurd hx' (h.1 ▸ hbefore y List.mem_cons_self)
      | cons z before' =>
          rw [List.cons_append, List.cons_append, List.cons.injEq] at h
          obtain ⟨rfl, hrest⟩ := ih h.2 (fun y hy => hbefore y (List.mem_cons_of_mem _ hy))
            (fun y hy => hbefore' y (List.mem_cons_of_mem _ hy))
          exact ⟨by rw [h.1], hrest⟩

/-- `findFirst_returns_iff` with the test described from outside: when it
returns, and when it declines. -/
theorem findFirst_returns_iff_of (Safe Hit : α → Prop) {xs : List α}
    (hsafe : ∀ x ∈ xs, (∃ r, f x = .ok r) ↔ Safe x)
    (hhit : ∀ x ∈ xs, Safe x → (f x = .ok none ↔ ¬ Hit x)) :
    (∃ r, findFirst f xs = .ok r) ↔
      ∀ before x after, xs = before ++ x :: after → (∀ y ∈ before, ¬ Hit y) → Safe x := by
  rw [findFirst_returns_iff]
  constructor
  · rintro h before x after rfl hbefore
    -- every element in front was asked and declined
    have hnone : ∀ y ∈ before, f y = .ok none := by
      by_contra hstop
      simp only [not_forall] at hstop
      obtain ⟨y, hy, hne⟩ := hstop
      obtain ⟨b₁, z, b₂, rfl, hz, hb₁⟩ :=
        exists_first (p := fun y => f y ≠ .ok none) ⟨y, hy, hne⟩
      have hb₁' : ∀ y ∈ b₁, f y = .ok none := fun y hy => not_not.mp (hb₁ y hy)
      have hmem : z ∈ (b₁ ++ z :: b₂) ++ x :: after := by simp
      have hret := h b₁ z (b₂ ++ x :: after) (by simp) hb₁'
      exact hz ((hhit z hmem ((hsafe z hmem).mp hret)).mpr (hbefore z (by simp)))
    exact (hsafe x (by simp)).mp (h before x after rfl hnone)
  · rintro h before x after rfl hbefore
    apply (hsafe x (by simp)).mpr
    refine h before x after rfl (fun y hy => ?_)
    have hmem : y ∈ before ++ x :: after := List.mem_append_left _ hy
    exact (hhit y hmem ((hsafe y hmem).mp ⟨none, hbefore y hy⟩)).mp (hbefore y hy)

/-- Elements that would decline may be left out. -/
theorem findFirst_filter {p : α → Bool} {xs : List α}
    (h : ∀ x ∈ xs, p x = false → f x = .ok none) :
    findFirst f (xs.filter p) = findFirst f xs := by
  induction xs with
  | nil => rfl
  | cons x xs ih =>
      have hxs := ih fun y hy => h y (List.mem_cons_of_mem x hy)
      cases hx : p x with
      | true =>
          rw [List.filter_cons_of_pos hx]
          simp only [findFirst, hxs]
      | false =>
          rw [List.filter_cons_of_neg (by simp [hx]), hxs,
            findFirst_cons_of_none (h x List.mem_cons_self hx)]

theorem findFirst_map {γ : Type} (g : β → γ) (xs : List α) :
    findFirst (fun x => (f x).map (Option.map g)) xs = (findFirst f xs).map (Option.map g) := by
  induction xs with
  | nil => rfl
  | cons x xs ih =>
      cases hx : f x with
      | error e => simp only [findFirst, hx, Except.map]
      | ok r =>
          cases r with
          | none =>
              simp only [findFirst, hx, Except.map, Option.map_none]
              exact ih
          | some b => simp only [findFirst, hx, Except.map, Option.map_some]

theorem findFirst_congr {g : α → Except ε (Option β)} {xs : List α}
    (h : ∀ x ∈ xs, f x = g x) : findFirst f xs = findFirst g xs := by
  induction xs with
  | nil => rfl
  | cons x xs ih =>
      have hxs := ih fun y hy => h y (List.mem_cons_of_mem x hy)
      simp only [findFirst, h x List.mem_cons_self, hxs]

/-- Searching the images of a list is searching the list. -/
theorem findFirst_comp {γ : Type} (g : γ → α) (xs : List γ) :
    findFirst f (xs.map g) = findFirst (fun x => f (g x)) xs := by
  induction xs with
  | nil => rfl
  | cons x xs ih => simp only [List.map_cons, findFirst, ih]

/-- A cache that every test keeps sound does not change what is found. -/
theorem searchWith_eq {g : α → σ → Except ε (Option β × σ)} {Sound : σ → Prop}
    (hstep : ∀ x s, Sound s → ∃ s', Sound s' ∧ g x s = (f x).map fun r => (r, s'))
    (xs : List α) {s : σ} (hs : Sound s) : searchWith g xs s = findFirst f xs := by
  induction xs generalizing s with
  | nil => rfl
  | cons x xs ih =>
      obtain ⟨s', hs', hx⟩ := hstep x s hs
      cases hf : f x with
      | error e =>
          rw [hf] at hx
          simp only [searchWith, hx, Except.map, findFirst_cons_of_error hf]
      | ok r =>
          rw [hf] at hx
          cases r with
          | some b => simp only [searchWith, hx, Except.map, findFirst_cons_of_some hf]
          | none => simp only [searchWith, hx, Except.map, findFirst_cons_of_none hf, ih hs']

/-- The first of the ordered positions that passes a test. -/
theorem find?_eq_some_iff_of_sorted {is : List Nat} (hsorted : is.Pairwise (· < ·)) {p : Nat → Bool}
    {j : Nat} (hj : j ∈ is) (hp : p j = true) :
    is.find? p = some j ↔ ∀ i ∈ is, i < j → p i = false := by
  induction is with
  | nil => cases hj
  | cons a is ih =>
      obtain ⟨ha, hsorted'⟩ := List.pairwise_cons.mp hsorted
      rcases List.mem_cons.mp hj with rfl | hj
      · simp only [List.find?_cons, hp, true_iff, List.forall_mem_cons]
        exact ⟨fun h => absurd h (Nat.lt_irrefl _),
          fun i hi hlt => absurd hlt (Nat.lt_asymm (ha i hi))⟩
      · have hlt := ha j hj
        cases hpa : p a with
        | true =>
            rw [List.find?_cons_of_pos hpa]
            constructor
            · intro heq
              exact absurd (Option.some.inj heq) (Nat.ne_of_lt hlt)
            · intro hall
              rw [hall a List.mem_cons_self hlt] at hpa
              cases hpa
        | false =>
            rw [List.find?_cons_of_neg (by simp [hpa]), ih hsorted' hj, List.forall_mem_cons]
            exact ⟨fun h => ⟨fun _ => hpa, h⟩, fun h => h.2⟩

end Search
