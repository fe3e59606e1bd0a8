import Mathlib.Data.List.Basic
import Mathlib.Tactic.Basic

/-! # The last of several writes

A list of writes, each of which covers some places. What a place holds after all
of them is decided by the last write that covers it.
-/

namespace LastWrite

variable {ι α : Type} (covers : ι → α → Prop) [∀ i a, Decidable (covers i a)]

/-- The last write that covers `a`. -/
def last (is : List ι) (a : α) : Option ι := (is.filter fun i => covers i a).getLast?

variable {covers} {is js : List ι} {i : ι} {a : α}

@[simp] theorem last_nil : last covers [] a = none := rfl

theorem last_append : last covers (is ++ js) a = (last covers js a).or (last covers is a) := by
  rw [last, List.filter_append, List.getLast?_append]
  rfl

theorem last_singleton : last covers [i] a = if covers i a then some i else none := by
  unfold last
  split
  · rename_i h
    rw [List.filter_cons_of_pos (by simpa using h)]
    rfl
  · rename_i h
    rw [List.filter_cons_of_neg (by simpa using h)]
    rfl

theorem last_cons : last covers (i :: is) a =
    (last covers is a).or (if covers i a then some i else none) := by
  rw [← List.singleton_append, last_append, last_singleton]

theorem mem_of_last (h : last covers is a = some i) : i ∈ is ∧ covers i a := by
  simpa using List.mem_filter.mp (List.mem_of_getLast? h)

theorem last_eq_none_iff : last covers is a = none ↔ ∀ i ∈ is, ¬ covers i a := by
  rw [last, List.getLast?_eq_none_iff, List.filter_eq_nil_iff]
  simp

/-- Among writes to separate places the last is the only one. -/
theorem last_of_disjoint (hdisj : is.Pairwise fun i j => ∀ a, covers i a → ¬ covers j a)
    (hi : i ∈ is) (ha : covers i a) : last covers is a = some i := by
  induction is with
  | nil => cases hi
  | cons j is ih =>
      rw [List.pairwise_cons] at hdisj
      rw [last_cons]
      rcases List.mem_cons.mp hi with rfl | hmem
      · rw [last_eq_none_iff.mpr fun k hk => hdisj.1 k hk a ha, if_pos ha]
        rfl
      · rw [ih hdisj.2 hmem]
        rfl

end LastWrite
