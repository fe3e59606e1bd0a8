import Mathlib.Data.List.Perm.Basic
import Mathlib.Data.List.Perm.Subperm
import Mathlib.Tactic.Basic

/-! # Tables filled slot by slot

A table of slots starts empty and is filled by a sequence of writes. A later
write to a slot replaces an earlier one, so a slot is known once all writes to
it agree.
-/

namespace Slots

variable {α β : Type}

/-- The table after the writes, in order. -/
def fill (slots : List (Option α)) (writes : List (Nat × α)) : List (Option α) :=
  writes.foldl (fun slots write => slots.set write.1 (some write.2)) slots

@[simp] theorem fill_nil (slots : List (Option α)) : fill slots [] = slots := rfl

@[simp] theorem fill_cons (slots : List (Option α)) (write : Nat × α)
    (writes : List (Nat × α)) :
    fill slots (write :: writes) = fill (slots.set write.1 (some write.2)) writes := rfl

@[simp] theorem fill_length (slots : List (Option α)) (writes : List (Nat × α)) :
    (fill slots writes).length = slots.length := by
  induction writes generalizing slots with
  | nil => rfl
  | cons write writes ih => rw [fill_cons, ih, List.length_set]

theorem getElem?_fill_of_not_mem {slots : List (Option α)} {writes : List (Nat × α)} {i : Nat}
    (h : i ∉ writes.map Prod.fst) : (fill slots writes)[i]? = slots[i]? := by
  induction writes generalizing slots with
  | nil => rfl
  | cons write writes ih =>
      rw [List.map_cons, List.mem_cons, not_or] at h
      rw [fill_cons, ih h.2, List.getElem?_set_ne (Ne.symm h.1)]

/-- What a slot holds was there before or was written to it. -/
theorem mem_of_getElem?_fill {slots : List (Option α)} {writes : List (Nat × α)} {i : Nat} {a : α}
    (h : (fill slots writes)[i]? = some (some a)) :
    slots[i]? = some (some a) ∨ (i, a) ∈ writes := by
  induction writes generalizing slots with
  | nil => exact .inl h
  | cons write writes ih =>
      rcases ih h with hslot | hmem
      · by_cases hi : write.1 = i
        · subst hi
          rw [List.getElem?_set_self'] at hslot
          obtain ⟨old, -, hnew⟩ := Option.map_eq_some_iff.mp hslot
          have ha : write.2 = a := by simpa using hnew
          exact .inr (by rw [← ha]; exact List.mem_cons_self)
        · rw [List.getElem?_set_ne hi] at hslot
          exact .inl hslot
      · exact .inr (List.mem_cons_of_mem write hmem)

/-- A slot whose writes all agree holds what they write. -/
theorem getElem?_fill_of_agree {slots : List (Option α)} {writes : List (Nat × α)} {i : Nat} {a : α}
    (hi : i < slots.length) (hmem : (i, a) ∈ writes) (hagree : ∀ b, (i, b) ∈ writes → b = a) :
    (fill slots writes)[i]? = some (some a) := by
  induction writes generalizing slots with
  | nil => cases hmem
  | cons write writes ih =>
      have hrest : ∀ b, (i, b) ∈ writes → b = a :=
        fun b hb => hagree b (List.mem_cons_of_mem write hb)
      by_cases hlater : i ∈ writes.map Prod.fst
      · obtain ⟨⟨j, b⟩, hb, hj⟩ := List.mem_map.mp hlater
        have hb : (i, b) ∈ writes := by
          rw [← show j = i from hj]
          exact hb
        have hba := hrest b hb
        subst hba
        exact ih (by rwa [List.length_set]) hb hrest
      · -- the last write to the slot
        have hwrite : (i, a) = write := by
          rcases List.mem_cons.mp hmem with h | h
          · exact h
          · exact absurd (List.mem_map_of_mem h) hlater
        rw [← hwrite, fill_cons, getElem?_fill_of_not_mem hlater, List.getElem?_set_self hi]

/-- A slot that is written to holds one of its writes. -/
theorem exists_getElem?_fill {slots : List (Option α)} {writes : List (Nat × α)} {i : Nat}
    (hi : i < slots.length) (h : i ∈ writes.map Prod.fst) :
    ∃ a, (fill slots writes)[i]? = some (some a) := by
  induction writes generalizing slots with
  | nil => cases h
  | cons write writes ih =>
      by_cases hlater : i ∈ writes.map Prod.fst
      · exact ih (by rwa [List.length_set]) hlater
      · have hhead : i = write.1 := by
          rcases List.mem_cons.mp h with hi | hi
          · exact hi
          · exact absurd hi hlater
        subst hhead
        exact ⟨write.2, by
          rw [fill_cons, getElem?_fill_of_not_mem hlater, List.getElem?_set_self hi]⟩

/-- As many keys as there are places, all different and all present: the places
hold exactly those keys, each once. -/
theorem perm_of_covered {keys places : List β} (hnodup : keys.Nodup)
    (hlen : places.length = keys.length) (hcover : ∀ k ∈ keys, k ∈ places) :
    keys.Perm places :=
  (List.subperm_of_subset hnodup hcover).perm_of_length_le (Nat.le_of_eq hlen)

end Slots
