import ElfLoader.Library.Exec

/-! # Computations that see part of the data

A computation over part of some data may lack what it looks for. Where it does not, a
computation over more of the data answers the same.
-/

namespace Partly

variable {ε α β : Type} {lost : ε → Prop}

/-- The second computation answers as the first does, unless the first is lost. -/
def Agrees (lost : ε → Prop) (x x' : Except ε α) : Prop :=
  (∃ e, x = .error e ∧ lost e) ∨ x' = x

theorem Agrees.refl (x : Except ε α) : Agrees lost x x := .inr rfl

theorem Agrees.of_lost {e : ε} (h : lost e) (x' : Except ε α) : Agrees lost (.error e) x' :=
  .inl ⟨e, rfl, h⟩

theorem Agrees.ok {x x' : Except ε α} {a : α} (h : Agrees lost x x') (hx : x = .ok a) :
    x' = .ok a := by
  rcases h with ⟨e, he, -⟩ | heq
  · cases hx.symm.trans he
  · exact heq.trans hx

theorem Agrees.bind {x x' : Except ε α} {f f' : α → Except ε β} (hx : Agrees lost x x')
    (hf : ∀ a, x = .ok a → Agrees lost (f a) (f' a)) : Agrees lost (x >>= f) (x' >>= f') := by
  rcases hx with ⟨e, rfl, hlost⟩ | rfl
  · exact .inl ⟨e, rfl, hlost⟩
  · cases x' with
    | error e => exact .inr rfl
    | ok a => exact hf a rfl

theorem Agrees.map {x x' : Except ε α} (hx : Agrees lost x x') (f : α → β) :
    Agrees lost (x.map f) (x'.map f) := by
  rcases hx with ⟨e, rfl, hlost⟩ | rfl
  · exact .inl ⟨e, rfl, hlost⟩
  · exact .refl _

/-- A fold whose steps agree. -/
theorem Agrees.foldlM {f f' : α → β → Except ε α} {l : List β}
    (h : ∀ b ∈ l, ∀ a, Agrees lost (f a b) (f' a b)) (a : α) :
    Agrees lost (l.foldlM f a) (l.foldlM f' a) := by
  induction l generalizing a with
  | nil => exact .refl _
  | cons b l ih =>
      rw [List.foldlM_cons, List.foldlM_cons]
      exact (h b List.mem_cons_self a).bind fun a' _ =>
        ih (fun b' hb' => h b' (List.mem_cons_of_mem b hb')) a'

/-- An entry of a list that goes on. -/
theorem getElem?_of_prefix {l l' : List α} (h : l <+: l') {i : Nat} {a : α} (hi : l[i]? = some a) :
    l'[i]? = some a := by
  obtain ⟨rest, rfl⟩ := h
  rw [List.getElem?_append_left (List.getElem?_eq_some_iff.mp hi).1, hi]

/-- Reading an entry of the part. -/
theorem getElem?_cases {l l' : List α} (h : l <+: l') (i : Nat) :
    l[i]? = none ∨ ∃ a, l[i]? = some a ∧ l'[i]? = some a := by
  cases hi : l[i]? with
  | none => exact .inl rfl
  | some a => exact .inr ⟨a, rfl, getElem?_of_prefix h hi⟩

end Partly
