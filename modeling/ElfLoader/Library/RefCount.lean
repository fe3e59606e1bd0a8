import Mathlib.Tactic.Basic

/-! # Shared ownership with a destructor

A value behind counted handles, as `Arc` and `Weak` keep it. An operation needs
the handle it is called on; giving back the last strong handle runs the
destructor, and a weak handle can only be upgraded before that.
-/

namespace RefCount

structure Counts where
  strong : Nat
  weak : Nat
deriving DecidableEq

inductive Op where
  | clone
  | drop
  | downgrade
  | upgrade
  | dropWeak
deriving DecidableEq

/-- The counts after an operation and how often it ran the destructor; nothing
when there is no handle to call it on. -/
def step (c : Counts) : Op → Option (Counts × Nat)
  | .clone => if c.strong = 0 then none else some ({ c with strong := c.strong + 1 }, 0)
  | .drop =>
      if c.strong = 0 then none
      else some ({ c with strong := c.strong - 1 }, if c.strong = 1 then 1 else 0)
  | .downgrade => if c.strong = 0 then none else some ({ c with weak := c.weak + 1 }, 0)
  | .upgrade =>
      if c.weak = 0 then none
      else if c.strong = 0 then some (c, 0)
      else some ({ c with strong := c.strong + 1 }, 0)
  | .dropWeak => if c.weak = 0 then none else some ({ c with weak := c.weak - 1 }, 0)

/-- A history of operations, of all owners, in the order they took effect. -/
def run (c : Counts) : List Op → Option (Counts × Nat)
  | [] => some (c, 0)
  | op :: ops => do
      let (c₁, n) ← step c op
      let (c₂, m) ← run c₁ ops
      return (c₂, n + m)

/-- One value is alive as long as there is a strong handle. -/
def alive (c : Counts) : Nat := min c.strong 1

/-- An operation keeps the sum of the value and its destructions. -/
theorem step_alive {c c' : Counts} {op : Op} {n : Nat} (h : step c op = some (c', n)) :
    n + alive c' = alive c := by
  unfold alive
  cases op with
  | clone =>
      simp only [step] at h
      split at h
      · cases h
      · cases h
        dsimp only
        omega
  | drop =>
      simp only [step] at h
      split at h
      · cases h
      · cases h
        dsimp only
        split
        · omega
        · omega
  | downgrade =>
      simp only [step] at h
      split at h
      · cases h
      · cases h
        dsimp only
        omega
  | upgrade =>
      simp only [step] at h
      split at h
      · cases h
      · split at h
        · cases h
          omega
        · cases h
          dsimp only
          omega
  | dropWeak =>
      simp only [step] at h
      split at h
      · cases h
      · cases h
        dsimp only
        omega

theorem run_alive {c c' : Counts} {ops : List Op} {n : Nat} (h : run c ops = some (c', n)) :
    n + alive c' = alive c := by
  induction ops generalizing c n with
  | nil =>
      cases h
      omega
  | cons op ops ih =>
      simp only [run, Option.bind_eq_bind, Option.bind_eq_some_iff] at h
      obtain ⟨⟨c₁, k⟩, hstep, ⟨c₂, m⟩, hrun, hret⟩ := h
      cases hret
      have hfirst : k + alive c₁ = alive c := step_alive hstep
      have hrest : m + alive c₂ = alive c₁ := ih hrun
      change k + m + alive c₂ = alive c
      omega

/-- Over every history the destructor runs once when the last strong handle is
given back, and never before. -/
theorem run_destroys {c c' : Counts} {ops : List Op} {n : Nat} (hc : 0 < c.strong)
    (h : run c ops = some (c', n)) :
    (0 < c'.strong → n = 0) ∧ (c'.strong = 0 → n = 1) := by
  have hsum := run_alive h
  unfold alive at hsum
  omega

end RefCount
