import ElfLoader.Segment.Basic
import Mathlib.Data.Set.Lattice
import Mathlib.Order.CompletePartialOrder

/-! # Page arithmetic of the loader

`roundup` and `rounddown` with the page size, on values. The page size divides
the size of the address space, so residues survive wrapping.
-/

namespace ElfLoader

variable {w : Nat} [WordSize w]

theorem page_dvd_word (w : Nat) [WordSize w] : 2 ^ w % 2 ^ 12 = 0 :=
  Nat.mod_eq_zero_of_dvd (Nat.pow_dvd_pow 2 (Nat.le_of_lt (WordSize.page_lt w)))

theorem pageSize_lt (w : Nat) [WordSize w] : 2 ^ 12 < 2 ^ w :=
  Nat.pow_lt_pow_right (by omega) (WordSize.page_lt w)

theorem pageSize_toNat (w : Nat) [WordSize w] : (pageSize w).toNat = 2 ^ 12 := by
  rw [pageSize, BitVec.toNat_ofNat, Nat.mod_eq_of_lt (pageSize_lt w)]

theorem pageSize_ne_zero (w : Nat) [WordSize w] : pageSize w ≠ 0 := by
  intro h
  have h' := congrArg BitVec.toNat h
  rw [pageSize_toNat] at h'
  simp at h'

theorem add_toNat_mod_page (a b : BitVec w) :
    (a + b).toNat % 2 ^ 12 = (a.toNat + b.toNat) % 2 ^ 12 := by
  rw [BitVec.toNat_add, Nat.mod_mod_of_dvd _ (Nat.dvd_of_mod_eq_zero (page_dvd_word w))]

theorem PageAligned.add {a b : BitVec w} (ha : PageAligned a) (hb : PageAligned b) :
    PageAligned (a + b) := by
  unfold PageAligned at *
  rw [add_toNat_mod_page]
  omega

theorem PageAligned.sub {a b : BitVec w} (ha : PageAligned a) (hb : PageAligned b) :
    PageAligned (a - b) := by
  have hsum : (a - b + b).toNat % 2 ^ 12 = ((a - b).toNat + b.toNat) % 2 ^ 12 :=
    add_toNat_mod_page _ _
  rw [BitVec.sub_add_cancel] at hsum
  unfold PageAligned at *
  omega

theorem rounddown_page (x : BitVec w) :
    rounddown x (pageSize w) = BitVec.ofNat w (x.toNat - x.toNat % 2 ^ 12) := by
  have h := Align.down_toNat (WordSize.page_lt w) x
  rw [← h, BitVec.ofNat_toNat, BitVec.setWidth_eq]
  rfl

theorem roundup_page_sub (x : BitVec w) :
    (roundup x (pageSize w) - x).toNat = (2 ^ 12 - x.toNat % 2 ^ 12) % 2 ^ 12 := by
  rw [roundup, if_neg (pageSize_ne_zero w)]
  exact Align.up_sub_toNat (WordSize.page_lt w) x

/-- Rounding up adds the distance to the end of the page, also across the top of
the address space. -/
theorem roundup_page (x : BitVec w) :
    roundup x (pageSize w) = x + BitVec.ofNat w ((2 ^ 12 - x.toNat % 2 ^ 12) % 2 ^ 12) := by
  rw [← roundup_page_sub, BitVec.ofNat_toNat, BitVec.setWidth_eq]
  grind

/-- Rounding up on values, where it does not wrap. -/
theorem roundup_page_toNat_of_lt {x : BitVec w} (h : pageLen x.toNat < 2 ^ w) :
    (roundup x (pageSize w)).toNat = pageLen x.toNat := by
  rw [roundup_page, BitVec.toNat_add, BitVec.toNat_ofNat, Nat.add_mod_mod]
  exact Nat.mod_eq_of_lt h

theorem roundup_page_toNat {x : BitVec w} (h : x.toNat + 2 ^ 12 < 2 ^ w) :
    (roundup x (pageSize w)).toNat = pageLen x.toNat := by
  apply roundup_page_toNat_of_lt
  unfold pageLen
  omega

theorem rounddown_page_toNat (x : BitVec w) :
    (rounddown x (pageSize w)).toNat = x.toNat - x.toNat % 2 ^ 12 :=
  Align.down_toNat (WordSize.page_lt w) x

theorem rounddown_page_sub (x : BitVec w) :
    x - rounddown x (pageSize w) = BitVec.ofNat w (x.toNat % 2 ^ 12) := by
  have h := Align.down_eq_sub (WordSize.page_lt w) x
  change x - Align.down x (BitVec.ofNat w (2 ^ 12)) = _
  rw [h]
  grind

/-- Rounding up at `c` past a page boundary. -/
theorem roundup_page_add {p : BitVec w} (hp : PageAligned p) {c : Nat} (hc : c < 2 ^ w) :
    roundup (p + BitVec.ofNat w c) (pageSize w) = p + BitVec.ofNat w (pageLen c) ∧
      (roundup (p + BitVec.ofNat w c) (pageSize w) - (p + BitVec.ofNat w c)).toNat =
        pageLen c - c := by
  have hmod : (p + BitVec.ofNat w c).toNat % 2 ^ 12 = c % 2 ^ 12 := by
    unfold PageAligned at hp
    rw [add_toNat_mod_page, BitVec.toNat_ofNat, Nat.mod_eq_of_lt hc]
    omega
  constructor
  · rw [roundup_page, hmod, BitVec.add_assoc, ← BitVec.ofNat_add, pageLen]
  · rw [roundup_page_sub, hmod, pageLen]
    omega

theorem pageAligned_ofNat {n : Nat} (hn : n % 2 ^ 12 = 0) :
    PageAligned (BitVec.ofNat w n) := by
  unfold PageAligned
  rw [BitVec.toNat_ofNat, Nat.mod_mod_of_dvd _ (Nat.dvd_of_mod_eq_zero (page_dvd_word w)), hn]

theorem pageAligned_rounddown (x : BitVec w) : PageAligned (rounddown x (pageSize w)) := by
  rw [rounddown_page]
  exact pageAligned_ofNat (by omega)

theorem pageAligned_roundup (x : BitVec w) : PageAligned (roundup x (pageSize w)) := by
  unfold PageAligned
  rw [roundup_page, add_toNat_mod_page, BitVec.toNat_ofNat]
  have hlt : (2 ^ 12 - x.toNat % 2 ^ 12) % 2 ^ 12 < 2 ^ w :=
    Nat.lt_trans (Nat.mod_lt _ (by decide))
      (Nat.pow_lt_pow_right (by omega) (WordSize.page_lt w))
  rw [Nat.mod_eq_of_lt hlt]
  omega

end ElfLoader
