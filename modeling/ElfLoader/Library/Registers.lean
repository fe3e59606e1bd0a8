import Mathlib.Data.List.Perm.Basic
import Mathlib.Tactic.Basic

/-! # Folds that fill registers

A fold over a list of entries keeps a record. A field of it is a register when
each step either overwrites it with a value of the entry or leaves it alone. The
order of the entries does not matter to a register whose writers all agree.
-/

namespace Registers

variable {S E V : Type} {step : S → E → S} {get : S → V} {writes : E → Prop}
  [DecidablePred writes] {value : E → V}

/-- A step overwrites the field where it `writes`, and leaves it elsewhere. -/
def Register (step : S → E → S) (get : S → V) (writes : E → Prop) [DecidablePred writes]
    (value : E → V) : Prop :=
  ∀ s e, get (step s e) = if writes e then value e else get s

/-- When all writers write `v`, the register holds `v` behind the first of them. -/
theorem Register.foldl_eq (h : Register step get writes value) {es : List E} {v : V}
    (hagree : ∀ e ∈ es, writes e → value e = v) (s : S) :
    get (es.foldl step s) = if ∃ e ∈ es, writes e then v else get s := by
  induction es generalizing s with
  | nil => simp
  | cons e es ih =>
      obtain ⟨hhead, hrest⟩ := List.forall_mem_cons.mp hagree
      rw [List.foldl_cons, ih hrest, h]
      simp only [List.exists_mem_cons_iff]
      by_cases hlater : ∃ e' ∈ es, writes e'
      · rw [if_pos hlater, if_pos (.inr hlater)]
      · by_cases hwrites : writes e
        · rw [if_neg hlater, if_pos hwrites, if_pos (.inl hwrites), hhead hwrites]
        · rw [if_neg hlater, if_neg hwrites, if_neg (not_or_intro hwrites hlater)]

/-- A register whose writers agree does not depend on the order of the entries. -/
theorem Register.foldl_perm (h : Register step get writes value) {es es' : List E}
    (hperm : es.Perm es')
    (hagree : ∀ e ∈ es, ∀ e' ∈ es, writes e → writes e' → value e = value e') (s : S) :
    get (es.foldl step s) = get (es'.foldl step s) := by
  by_cases hsome : ∃ e ∈ es, writes e
  · obtain ⟨e, he, hwrites⟩ := hsome
    have hall : ∀ e' ∈ es, writes e' → value e' = value e :=
      fun e' he' hwrites' => hagree e' he' e he hwrites' hwrites
    rw [h.foldl_eq hall, h.foldl_eq fun e' he' => hall e' (hperm.mem_iff.mpr he')]
    rw [if_pos ⟨e, he, hwrites⟩, if_pos ⟨e, hperm.mem_iff.mp he, hwrites⟩]
  · have hnone : ∀ e ∈ es, writes e → value e = get s :=
      fun e he hwrites => absurd ⟨e, he, hwrites⟩ hsome
    rw [h.foldl_eq hnone, h.foldl_eq fun e' he' => hnone e' (hperm.mem_iff.mpr he')]
    simp

end Registers
