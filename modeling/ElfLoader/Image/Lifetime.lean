import ElfLoader.Library.RefCount
import Mathlib.Data.BitVec

/-! # The end of a module (`Drop for CoreInner` in `src/image/common/core.rs`)

`ElfCore` is an `Arc` of `CoreInner` and `ElfCoreRef` a `Weak` of it. The fini
handler is called from the destructor, and only when the module was initialised.
-/

namespace ElfLoader

variable {w : Nat}

/-- The arguments of a call of the fini handler. -/
structure FiniCall (w : Nat) where
  fini : Option (BitVec w)
  finiArray : Option (List (BitVec w))
deriving DecidableEq

/-- The part of `CoreInner` its destructor reads. -/
structure CoreInner (w : Nat) where
  isInit : Bool
  fini : Option (BitVec w)
  finiArray : Option (List (BitVec w))

namespace CoreInner

/-- `Drop for CoreInner`: the calls of the fini handler. -/
def drop (inner : CoreInner w) : List (FiniCall w) :=
  if inner.isInit then [{ fini := inner.fini, finiArray := inner.finiArray }] else []

/-- The handles left and the calls of the fini handler after a history of
operations on the handles of the module. -/
def history (inner : CoreInner w) (handles : RefCount.Counts) (ops : List RefCount.Op) :
    Option (RefCount.Counts × List (FiniCall w)) := do
  let (handles', n) ← RefCount.run handles ops
  return (handles', (List.replicate n inner.drop).flatten)

variable {inner : CoreInner w} {handles handles' : RefCount.Counts} {ops : List RefCount.Op}
variable {calls : List (FiniCall w)}

/-- The fini handler of an initialised module is called with its last handle,
once; that of another module never is. -/
theorem history_calls (hhandles : 0 < handles.strong)
    (h : inner.history handles ops = some (handles', calls)) :
    calls = if handles'.strong = 0 then inner.drop else [] := by
  simp only [history, Option.bind_eq_bind, Option.bind_eq_some_iff] at h
  obtain ⟨⟨handles₁, n⟩, hrun, hret⟩ := h
  cases hret
  obtain ⟨hbefore, hlast⟩ := RefCount.run_destroys hhandles hrun
  by_cases hzero : handles₁.strong = 0
  · rw [if_pos hzero, hlast hzero]
    simp
  · rw [if_neg hzero, hbefore (Nat.pos_of_ne_zero hzero)]
    rfl

end CoreInner

end ElfLoader
