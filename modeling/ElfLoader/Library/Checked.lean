import Mathlib.Data.BitVec
import Mathlib.Tactic.Basic

/-! # Word arithmetic with overflow checks

What a build with overflow checks computes: nothing as soon as an operation
wraps.
-/

namespace Checked

variable {w : Nat}

def add (a b : BitVec w) : Option (BitVec w) :=
  if a.toNat + b.toNat < 2 ^ w then some (a + b) else none

def sub (a b : BitVec w) : Option (BitVec w) :=
  if b.toNat ≤ a.toNat then some (a - b) else none

theorem add_eq_some_iff {a b c : BitVec w} :
    add a b = some c ↔ a.toNat + b.toNat < 2 ^ w ∧ c = a + b := by
  unfold add
  split
  · simp [*, eq_comm]
  · simp [*]

theorem sub_eq_some_iff {a b c : BitVec w} :
    sub a b = some c ↔ b.toNat ≤ a.toNat ∧ c = a - b := by
  unfold sub
  split
  · simp [*, eq_comm]
  · simp [*]

end Checked
