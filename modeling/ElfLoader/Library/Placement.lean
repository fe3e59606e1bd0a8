import Mathlib.Data.List.Pairwise
import Mathlib.Data.Nat.ModEq
import Mathlib.Data.Set.Lattice
import Mathlib.Order.CompletePartialOrder
import Mathlib.Order.Interval.Set.Basic
import Mathlib.Tactic.Basic

/-! # Placing blocks one after another

A cursor moves up through the numbers and puts each block at the next multiple of
its alignment. Alignment zero asks for nothing. A list of blocks `Placed` between
two bounds is aligned, inside the bounds and pairwise disjoint; lists placed in
adjacent ranges can be put together. `Ascending` says the same of blocks that stand
in the order of the list.
-/

namespace Placement

variable {ι : Type}

/-- The next multiple of `a` from `x` on. -/
def up (x a : Nat) : Nat := if a = 0 then x else x + (a - x % a) % a

theorem le_up (x a : Nat) : x ≤ up x a := by
  unfold up
  split
  · exact Nat.le_refl x
  · exact Nat.le_add_right x _

theorem dvd_up (x : Nat) {a : Nat} (ha : a ≠ 0) : a ∣ up x a := by
  rw [up, if_neg ha]
  have hlt := Nat.mod_lt x (Nat.pos_of_ne_zero ha)
  have hdiv := Nat.div_add_mod x a
  rcases Nat.eq_zero_or_pos (x % a) with hzero | hpos
  · rw [hzero, Nat.sub_zero, Nat.mod_self, Nat.add_zero]
    exact Nat.dvd_of_mod_eq_zero hzero
  · rw [Nat.mod_eq_of_lt (by omega)]
    have hsum : x + (a - x % a) = a * (x / a) + a := by omega
    rw [hsum]
    exact Nat.dvd_add (Nat.dvd_mul_right a _) (Nat.dvd_refl a)

/-- The next multiple, computed by a division. -/
theorem up_eq_div (x : Nat) {a : Nat} (ha : a ≠ 0) : up x a = (x + a - 1) / a * a := by
  have hlt := Nat.mod_lt x (Nat.pos_of_ne_zero ha)
  have hdiv := Nat.div_add_mod x a
  rw [Nat.mul_comm] at hdiv
  rw [up, if_neg ha]
  rcases Nat.eq_zero_or_pos (x % a) with hzero | hpos
  · have hquot : (x + a - 1) / a = x / a := by
      apply Nat.div_eq_of_lt_le
      · omega
      · rw [Nat.add_mul]
        omega
    rw [hzero, Nat.sub_zero, Nat.mod_self, hquot]
    omega
  · have hquot : (x + a - 1) / a = x / a + 1 := by
      apply Nat.div_eq_of_lt_le
      · rw [Nat.add_mul]
        omega
      · rw [Nat.add_mul, Nat.add_mul]
        omega
    rw [Nat.mod_eq_of_lt (by omega), hquot, Nat.add_mul]
    omega

theorem up_le {x y a : Nat} (hle : x ≤ y) (hdvd : a ∣ y) : up x a ≤ y := by
  by_cases ha : a = 0
  · rw [up, if_pos ha]
    exact hle
  · obtain ⟨k, rfl⟩ := hdvd
    have hlt : (x + a - 1) / a < k + 1 := by
      apply Nat.div_lt_of_lt_mul
      rw [Nat.mul_add]
      omega
    have hmul := Nat.mul_le_mul_right a (Nat.le_of_lt_succ hlt)
    rw [up_eq_div x ha, Nat.mul_comm a k]
    exact hmul

theorem up_of_dvd {x a : Nat} (h : a ≠ 0 → a ∣ x) : up x a = x := by
  unfold up
  split
  · rfl
  · rename_i ha
    rw [Nat.mod_eq_zero_of_dvd (h ha), Nat.sub_zero, Nat.mod_self, Nat.add_zero]

section Blocks

variable (size align : ι → Nat)

/-- Where the cursor stands after the blocks. -/
def stop (x : Nat) : List ι → Nat
  | [] => x
  | i :: is => stop (up x (align i) + size i) is

theorem le_stop (x : Nat) (is : List ι) : x ≤ stop size align x is := by
  induction is generalizing x with
  | nil => exact Nat.le_refl x
  | cons i is ih =>
      have hup := le_up x (align i)
      have hrest := ih (up x (align i) + size i)
      rw [stop]
      omega

/-- The ranges the blocks have at the addresses `addr`. -/
def range (addr : ι → Nat) (i : ι) : Set Nat := Set.Ico (addr i) (addr i + size i)

/-- Blocks without a byte are placed anywhere. -/
structure Placed (addr : ι → Nat) (is : List ι) (lo hi : Nat) : Prop where
  inside : ∀ i ∈ is, size i ≠ 0 → lo ≤ addr i ∧ addr i + size i ≤ hi
  aligned : ∀ i ∈ is, size i ≠ 0 → align i ≠ 0 → align i ∣ addr i
  disjoint : ∀ i ∈ is, ∀ j ∈ is, i ≠ j → Disjoint (range size addr i) (range size addr j)

variable {size align} {addr : ι → Nat}

theorem Placed.nil {lo hi : Nat} : Placed size align addr [] lo hi where
  inside := fun _ h => absurd h List.not_mem_nil
  aligned := fun _ h => absurd h List.not_mem_nil
  disjoint := fun _ h => absurd h List.not_mem_nil

theorem range_eq_empty {i : ι} (h : size i = 0) : range size addr i = ∅ := by
  rw [range, h, Nat.add_zero, Set.Ico_self]

theorem disjoint_range {i j : ι} (h : size i ≠ 0 → size j ≠ 0 → addr i + size i ≤ addr j) :
    Disjoint (range size addr i) (range size addr j) := by
  by_cases hi : size i = 0
  · rw [range_eq_empty hi]
    exact Set.empty_disjoint _
  · by_cases hj : size j = 0
    · rw [range_eq_empty hj]
      exact Set.disjoint_empty _
    · rw [Set.disjoint_left]
      intro x hx hx'
      have hle := h hi hj
      have hlt := hx.2
      have hge := hx'.1
      omega

/-- Blocks placed below a bound and blocks placed above it. -/
theorem Placed.append {is js : List ι} {lo mid hi : Nat} (his : Placed size align addr is lo mid)
    (hjs : Placed size align addr js mid hi) (hlo : lo ≤ mid) (hhi : mid ≤ hi) :
    Placed size align addr (is ++ js) lo hi where
  inside := by
    intro i hi hsize
    rcases List.mem_append.mp hi with hmem | hmem
    · have hin := his.inside i hmem hsize
      omega
    · have hin := hjs.inside i hmem hsize
      omega
  aligned := by
    intro i hi
    rcases List.mem_append.mp hi with hmem | hmem
    · exact his.aligned i hmem
    · exact hjs.aligned i hmem
  disjoint := by
    intro i hi j hj hne
    rcases List.mem_append.mp hi with hmem | hmem
    · rcases List.mem_append.mp hj with hmem' | hmem'
      · exact his.disjoint i hmem j hmem' hne
      · apply disjoint_range
        intro hsize hsize'
        have hleft := (his.inside i hmem hsize).2
        have hright := (hjs.inside j hmem' hsize').1
        omega
    · rcases List.mem_append.mp hj with hmem' | hmem'
      · apply Disjoint.symm
        apply disjoint_range
        intro hsize hsize'
        have hleft := (his.inside j hmem' hsize).2
        have hright := (hjs.inside i hmem hsize').1
        omega
      · exact hjs.disjoint i hmem j hmem' hne

/-- Blocks of which only one has bytes. -/
theorem Placed.of_one {is : List ι} {j : ι} {lo hi : Nat} (hone : ∀ i ∈ is, size i ≠ 0 → i = j)
    (hin : size j ≠ 0 → lo ≤ addr j ∧ addr j + size j ≤ hi)
    (haligned : size j ≠ 0 → align j ≠ 0 → align j ∣ addr j) :
    Placed size align addr is lo hi where
  inside := by
    intro i hi hsize
    obtain rfl := hone i hi hsize
    exact hin hsize
  aligned := by
    intro i hi hsize
    obtain rfl := hone i hi hsize
    exact haligned hsize
  disjoint := by
    intro i hi k hk hne
    apply disjoint_range
    intro hsize hsize'
    exact absurd ((hone i hi hsize).trans (hone k hk hsize').symm) hne

theorem Placed.singleton {i : ι} {lo hi : Nat}
    (hin : size i ≠ 0 → lo ≤ addr i ∧ addr i + size i ≤ hi)
    (haligned : size i ≠ 0 → align i ≠ 0 → align i ∣ addr i) :
    Placed size align addr [i] lo hi :=
  Placed.of_one (fun _ hj _ => List.mem_singleton.mp hj) hin haligned

/-- Only the addresses of the blocks count. -/
theorem Placed.congr {addr' : ι → Nat} {is : List ι} {lo hi : Nat}
    (h : Placed size align addr is lo hi) (heq : ∀ i ∈ is, addr' i = addr i) :
    Placed size align addr' is lo hi where
  inside := by
    intro i hi
    rw [heq i hi]
    exact h.inside i hi
  aligned := by
    intro i hi
    rw [heq i hi]
    exact h.aligned i hi
  disjoint := by
    intro i hi j hj hne
    have hdis := h.disjoint i hi j hj hne
    rwa [range, range, heq i hi, heq j hj]

theorem Placed.subset {is js : List ι} {lo hi : Nat} (h : Placed size align addr is lo hi)
    (hsub : ∀ j ∈ js, j ∈ is) : Placed size align addr js lo hi where
  inside := fun j hj => h.inside j (hsub j hj)
  aligned := fun j hj => h.aligned j (hsub j hj)
  disjoint := fun i hi j hj => h.disjoint i (hsub i hi) j (hsub j hj)

theorem Placed.mono {is : List ι} {lo hi lo' hi' : Nat} (h : Placed size align addr is lo hi)
    (hlo : lo' ≤ lo) (hhi : hi ≤ hi') : Placed size align addr is lo' hi' where
  inside := by
    intro i hi hsize
    have hin := h.inside i hi hsize
    omega
  aligned := h.aligned
  disjoint := h.disjoint

end Blocks

/-! ## Blocks in the order of their places -/

/-- Two members of a list are related one way or the other. -/
theorem related_of_mem {R : ι → ι → Prop} {is : List ι} (h : is.Pairwise R) {i j : ι}
    (hi : i ∈ is) (hj : j ∈ is) (hne : i ≠ j) : R i j ∨ R j i := by
  have hboth : is.Pairwise fun i j => R i j ∨ R j i := h.imp Or.inl
  have hsymm : Std.Symm fun i j => R i j ∨ R j i := ⟨fun _ _ => Or.symm⟩
  exact hboth.forall hi hj hne

section Ascending

variable (start size : ι → Nat)

/-- Each block starts behind the end of the one before it, and all stand between
the bounds. -/
def Ascending (lo hi : Nat) : List ι → Prop
  | [] => lo ≤ hi
  | i :: is => lo ≤ start i ∧ Ascending (start i + size i) hi is

variable {start size} {lo mid hi : Nat} {is js : List ι}

theorem Ascending.le (h : Ascending start size lo hi is) : lo ≤ hi := by
  induction is generalizing lo with
  | nil => exact h
  | cons i is ih =>
      have hrest := ih h.2
      have hfirst := h.1
      omega

theorem Ascending.bounds (h : Ascending start size lo hi is) :
    ∀ i ∈ is, lo ≤ start i ∧ start i + size i ≤ hi := by
  induction is generalizing lo with
  | nil => exact fun i hi => absurd hi List.not_mem_nil
  | cons j js ih =>
      have hrest := h.2.le
      have hfirst := h.1
      intro i hi
      rcases List.mem_cons.mp hi with rfl | hmem
      · exact ⟨hfirst, hrest⟩
      · have hin := ih h.2 i hmem
        omega

theorem Ascending.pairwise (h : Ascending start size lo hi is) :
    is.Pairwise fun i j => start i + size i ≤ start j := by
  induction is generalizing lo with
  | nil => exact List.Pairwise.nil
  | cons i is ih => exact List.Pairwise.cons (fun j hj => (h.2.bounds j hj).1) (ih h.2)

theorem Ascending.append (his : Ascending start size lo mid is)
    (hjs : Ascending start size mid hi js) : Ascending start size lo hi (is ++ js) := by
  induction is generalizing lo with
  | nil =>
      cases js with
      | nil => exact Nat.le_trans his hjs
      | cons j js => exact ⟨Nat.le_trans his hjs.1, hjs.2⟩
  | cons i is ih => exact ⟨his.1, ih his.2⟩

theorem Ascending.mono {lo' hi' : Nat} (h : Ascending start size lo hi is) (hlo : lo' ≤ lo)
    (hhi : hi ≤ hi') : Ascending start size lo' hi' is := by
  induction is generalizing lo lo' with
  | nil => exact Nat.le_trans (Nat.le_trans hlo h) hhi
  | cons i is ih => exact ⟨Nat.le_trans hlo h.1, ih h.2 (Nat.le_refl _)⟩

theorem Ascending.map_iff {κ : Type} {f : κ → ι} {ks : List κ} :
    Ascending start size lo hi (ks.map f) ↔
      Ascending (fun k => start (f k)) (fun k => size (f k)) lo hi ks := by
  induction ks generalizing lo with
  | nil => exact Iff.rfl
  | cons k ks ih => exact and_congr_right' ih

theorem Ascending.congr {start' size' : ι → Nat} (h : Ascending start size lo hi is)
    (heq : ∀ i ∈ is, start' i = start i ∧ size' i = size i) :
    Ascending start' size' lo hi is := by
  induction is generalizing lo with
  | nil => exact h
  | cons i is ih =>
      obtain ⟨hstart, hsize⟩ := heq i List.mem_cons_self
      refine ⟨hstart ▸ h.1, ?_⟩
      rw [hstart, hsize]
      exact ih h.2 fun j hj => heq j (List.mem_cons_of_mem i hj)

/-- The ranges of the blocks do not meet. -/
theorem Ascending.disjoint (h : Ascending start size lo hi is) :
    is.Pairwise fun i j => Disjoint (range size start i) (range size start j) :=
  h.pairwise.imp fun hle => disjoint_range fun _ _ => hle

end Ascending

end Placement
