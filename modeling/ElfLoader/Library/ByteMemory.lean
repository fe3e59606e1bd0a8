import Mathlib.Data.BitVec
import Mathlib.Data.List.Basic
import Mathlib.Tactic.Basic

/-! # Byte memory over a modular address space

Addresses are `w`-bit words and wrap. A range is given by its first address and
a length, and membership is measured from the first address, so a range may run
over the top of the address space without a special case.
-/

namespace ByteMemory

/-- One byte at every address. -/
abbrev Bytes (w : Nat) := BitVec w → UInt8

variable {w : Nat}

/-- `a` is one of the `len` addresses that start at `start`. -/
def Within (start : BitVec w) (len : Nat) (a : BitVec w) : Prop :=
  (a - start).toNat < len

instance (start : BitVec w) (len : Nat) (a : BitVec w) : Decidable (Within start len a) :=
  inferInstanceAs (Decidable (_ < _))

theorem add_ofNat_sub_toNat (start : BitVec w) {i : Nat} (hi : i < 2 ^ w) :
    (start + BitVec.ofNat w i - start).toNat = i := by
  have h : start + BitVec.ofNat w i - start = BitVec.ofNat w i := by grind
  rw [h, BitVec.toNat_ofNat, Nat.mod_eq_of_lt hi]

/-- A range that starts `c` past `origin` and does not wrap, seen from `origin`. -/
theorem within_add_iff {origin a : BitVec w} {c n : Nat} (hfit : c + n ≤ 2 ^ w) :
    Within (origin + BitVec.ofNat w c) n a ↔
      c ≤ (a - origin).toNat ∧ (a - origin).toNat < c + n := by
  have hd := (a - origin).isLt
  have hsub : a - (origin + BitVec.ofNat w c) = (a - origin) - BitVec.ofNat w c := by grind
  unfold Within
  rw [hsub, BitVec.toNat_sub, BitVec.toNat_ofNat]
  rcases Nat.eq_or_lt_of_le (Nat.le_trans (Nat.le_add_right c n) hfit) with hc | hc
  · rw [hc, Nat.mod_self, Nat.sub_zero, Nat.add_mod_left, Nat.mod_eq_of_lt hd]
    omega
  · rw [Nat.mod_eq_of_lt hc]
    by_cases hle : c ≤ (a - origin).toNat
    · have hsplit : 2 ^ w - c + (a - origin).toNat = (a - origin).toNat - c + 2 ^ w := by omega
      rw [hsplit, Nat.add_mod_right, Nat.mod_eq_of_lt (by omega)]
      omega
    · rw [Nat.mod_eq_of_lt (by omega)]
      omega

theorem within_toNat_iff {start x : BitVec w} {n : Nat} (hfit : start.toNat + n ≤ 2 ^ w) :
    Within start n x ↔ start.toNat ≤ x.toNat ∧ x.toNat < start.toNat + n := by
  have hstart : start = 0 + BitVec.ofNat w start.toNat := by
    rw [BitVec.ofNat_toNat, BitVec.setWidth_eq]
    exact (BitVec.zero_add start).symm
  have hx : x - 0 = x := BitVec.sub_zero x
  conv_lhs => rw [hstart]
  rw [within_add_iff hfit, hx]

/-- When a range that starts `c` past `origin` lies in a range from `origin` on. -/
theorem within_subset_iff {origin : BitVec w} {c n t : Nat} (hc : c < 2 ^ w) (ht : t < 2 ^ w) :
    (∀ a, Within (origin + BitVec.ofNat w c) n a → Within origin t a) ↔ n = 0 ∨ c + n ≤ t := by
  constructor
  · intro h
    by_contra hnot
    rw [not_or] at hnot
    have hfirst : Within origin t (origin + BitVec.ofNat w c) := by
      apply h
      rw [Within, BitVec.sub_self, BitVec.toNat_zero]
      exact Nat.pos_of_ne_zero hnot.1
    rw [Within, add_ofNat_sub_toNat origin hc] at hfirst
    -- the first address behind the outer range
    have hsplit : origin + BitVec.ofNat w t =
        origin + BitVec.ofNat w c + BitVec.ofNat w (t - c) := by
      rw [BitVec.add_assoc, ← BitVec.ofNat_add, Nat.add_sub_cancel' (Nat.le_of_lt hfirst)]
    have hlast : Within origin t (origin + BitVec.ofNat w t) := by
      apply h
      rw [hsplit, Within, add_ofNat_sub_toNat _ (by omega)]
      omega
    rw [Within, add_ofNat_sub_toNat origin ht] at hlast
    exact Nat.lt_irrefl t hlast
  · rintro (rfl | hle) a ha
    · exact absurd ha (Nat.not_lt_zero _)
    · rw [within_add_iff (by omega)] at ha
      exact Nat.lt_of_lt_of_le ha.2 hle

/-- Copy `bs` to the addresses from `start` on. -/
def write (m : Bytes w) (start : BitVec w) (bs : List UInt8) : Bytes w := fun a =>
  match bs[(a - start).toNat]? with
  | some b => b
  | none => m a

theorem write_of_getElem? {m : Bytes w} {start a : BitVec w} {bs : List UInt8} {b : UInt8}
    (h : bs[(a - start).toNat]? = some b) : write m start bs a = b := by
  simp only [write, h]

theorem write_of_not_within {m : Bytes w} {start a : BitVec w} {bs : List UInt8}
    (h : ¬ Within start bs.length a) : write m start bs a = m a := by
  have hnone : bs[(a - start).toNat]? = none := List.getElem?_eq_none (Nat.not_lt.mp h)
  simp only [write, hnone]

/-- Set the `len` addresses from `start` on to `b`. -/
def fill (m : Bytes w) (start : BitVec w) (len : Nat) (b : UInt8) : Bytes w := fun a =>
  if Within start len a then b else m a

theorem fill_of_within {m : Bytes w} {start a : BitVec w} {len : Nat} {b : UInt8}
    (h : Within start len a) : fill m start len b a = b := if_pos h

theorem fill_of_not_within {m : Bytes w} {start a : BitVec w} {len : Nat} {b : UInt8}
    (h : ¬ Within start len a) : fill m start len b a = m a := if_neg h

/-- The `len` bytes from `start` on. -/
def read (m : Bytes w) (start : BitVec w) (len : Nat) : List UInt8 :=
  (List.range len).map fun i => m (start + BitVec.ofNat w i)

@[simp] theorem read_length (m : Bytes w) (start : BitVec w) (len : Nat) :
    (read m start len).length = len := by simp [read]

theorem read_congr {m m' : Bytes w} {start : BitVec w} {len : Nat} (hfit : len ≤ 2 ^ w)
    (h : ∀ a, Within start len a → m a = m' a) : read m start len = read m' start len := by
  apply List.map_congr_left
  intro i hi
  rw [List.mem_range] at hi
  apply h
  rw [Within, add_ofNat_sub_toNat start (Nat.lt_of_lt_of_le hi hfit)]
  exact hi

theorem read_append (m : Bytes w) (start : BitVec w) (len len' : Nat) :
    read m start (len + len') = read m start len ++ read m (start + BitVec.ofNat w len) len' := by
  rw [read, List.range_add, List.map_append, List.map_map]
  congr 1
  apply List.map_congr_left
  intro i _
  rw [Function.comp_apply, BitVec.ofNat_add, ← BitVec.add_assoc]

/-- What stands one behind the other is read one behind the other. -/
theorem read_append_iff {m : Bytes w} {start : BitVec w} {bs bs' : List UInt8} :
    read m start (bs ++ bs').length = bs ++ bs' ↔
      read m start bs.length = bs ∧ read m (start + BitVec.ofNat w bs.length) bs'.length = bs' := by
  rw [List.length_append, read_append]
  exact List.append_eq_append_iff_of_size_eq_left (read_length m start bs.length)

theorem read_write_take (m : Bytes w) (start : BitVec w) (bs : List UInt8) (len : Nat)
    (hlen : len ≤ bs.length) (hfit : bs.length ≤ 2 ^ w) :
    read (write m start bs) start len = bs.take len := by
  apply List.ext_getElem
  · simp [hlen]
  · intro i hi hi'
    rw [read_length] at hi
    have hw : i < 2 ^ w := Nat.lt_of_lt_of_le (Nat.lt_of_lt_of_le hi hlen) hfit
    have hget : bs[(start + BitVec.ofNat w i - start).toNat]? = some bs[i] := by
      rw [add_ofNat_sub_toNat start hw]
      exact List.getElem?_eq_getElem _
    simp only [read, List.getElem_map, List.getElem_range, List.getElem_take]
    exact write_of_getElem? hget

theorem read_write_self (m : Bytes w) (start : BitVec w) (bs : List UInt8)
    (hfit : bs.length ≤ 2 ^ w) : read (write m start bs) start bs.length = bs := by
  rw [read_write_take m start bs bs.length (Nat.le_refl _) hfit, List.take_length]

/-! ## Memory seen from a base address -/

/-- The byte `x` past `base`. -/
def view (m : Bytes w) (base : BitVec w) (x : Nat) : UInt8 := m (base + BitVec.ofNat w x)

section View

variable {m : Bytes w} {base : BitVec w} {c x : Nat}

theorem view_add (m : Bytes w) (base a : BitVec w) (k : Nat) :
    view m base (a.toNat + k) = m (base + a + BitVec.ofNat w k) := by
  rw [view, BitVec.ofNat_add, BitVec.ofNat_toNat, BitVec.setWidth_eq, BitVec.add_assoc]

theorem view_within_iff {n : Nat} (hfit : c + n ≤ 2 ^ w) (hx : x < 2 ^ w) :
    Within (base + BitVec.ofNat w c) n (base + BitVec.ofNat w x) ↔ c ≤ x ∧ x < c + n := by
  rw [within_add_iff hfit, add_ofNat_sub_toNat base hx]

theorem view_write_of_mem {bs : List UInt8} (hfit : c + bs.length ≤ 2 ^ w) {k : Nat}
    (hk : k < bs.length) :
    view (write m (base + BitVec.ofNat w c) bs) base (c + k) = bs[k] := by
  apply write_of_getElem?
  have hsplit : base + BitVec.ofNat w (c + k) = base + BitVec.ofNat w c + BitVec.ofNat w k := by
    rw [BitVec.ofNat_add, BitVec.add_assoc]
  rw [hsplit, add_ofNat_sub_toNat _ (by omega)]
  exact List.getElem?_eq_getElem hk

theorem view_write_of_not_mem {bs : List UInt8} (hfit : c + bs.length ≤ 2 ^ w) (hx : x < 2 ^ w)
    (hout : x < c ∨ c + bs.length ≤ x) :
    view (write m (base + BitVec.ofNat w c) bs) base x = view m base x := by
  apply write_of_not_within
  rw [view_within_iff hfit hx]
  omega

theorem view_fill_of_mem {n : Nat} {b : UInt8} (hfit : c + n ≤ 2 ^ w) (hlo : c ≤ x)
    (hhi : x < c + n) : view (fill m (base + BitVec.ofNat w c) n b) base x = b := by
  apply fill_of_within
  rw [view_within_iff hfit (by omega)]
  exact ⟨hlo, hhi⟩

theorem view_fill_of_not_mem {n : Nat} {b : UInt8} (hfit : c + n ≤ 2 ^ w) (hx : x < 2 ^ w)
    (hout : x < c ∨ c + n ≤ x) :
    view (fill m (base + BitVec.ofNat w c) n b) base x = view m base x := by
  apply fill_of_not_within
  rw [view_within_iff hfit hx]
  omega

end View

/-! ## Little-endian words -/

/-- The bytes of a word, least significant first. -/
def leBytes (v : BitVec w) : List UInt8 :=
  (List.range (w / 8)).map fun i => UInt8.ofNat (v.toNat / 256 ^ i)

@[simp] theorem leBytes_length (v : BitVec w) : (leBytes v).length = w / 8 := by
  simp [leBytes]

/-- The number whose base-256 digits, least significant first, are `bs`. -/
def leNat : List UInt8 → Nat
  | [] => 0
  | b :: bs => b.toNat + 256 * leNat bs

theorem leNat_digits (n v : Nat) :
    leNat ((List.range n).map fun i => UInt8.ofNat (v / 256 ^ i)) = v % 256 ^ n := by
  induction n generalizing v with
  | zero => simp [leNat, Nat.mod_one]
  | succ n ih =>
      have htail : (List.range n).map (fun i => UInt8.ofNat (v / 256 ^ (i + 1))) =
          (List.range n).map fun i => UInt8.ofNat (v / 256 / 256 ^ i) := by
        apply List.map_congr_left
        intro i _
        rw [Nat.pow_succ', Nat.div_div_eq_div_mul]
      rw [List.range_succ_eq_map, List.map_cons, List.map_map]
      simp only [Function.comp_def, Nat.succ_eq_add_one]
      rw [leNat, htail, ih, Nat.pow_zero, Nat.div_one, Nat.pow_succ', Nat.mod_mul]
      simp

theorem leNat_leBytes {n : Nat} (v : BitVec n) (hn : n % 8 = 0) : leNat (leBytes v) = v.toNat := by
  have hbits : 256 ^ (n / 8) = 2 ^ n := by
    rw [show (256 : Nat) = 2 ^ 8 from rfl, ← Nat.pow_mul]
    congr 1
    omega
  rw [leBytes, leNat_digits, hbits, Nat.mod_eq_of_lt v.isLt]

/-- Load a number of `n` bits. -/
def readBits (n : Nat) (m : Bytes w) (a : BitVec w) : BitVec n :=
  BitVec.ofNat n (leNat (read m a (n / 8)))

theorem readBits_congr {n : Nat} {m m' : Bytes w} {a : BitVec w} (hfit : n / 8 ≤ 2 ^ w)
    (h : ∀ b, Within a (n / 8) b → m b = m' b) : readBits n m a = readBits n m' a := by
  rw [readBits, readBits, read_congr hfit h]

theorem readBits_of_read {n : Nat} {m : Bytes w} {a : BitVec w} {v : BitVec n} (hn : n % 8 = 0)
    (h : read m a (n / 8) = leBytes v) : readBits n m a = v := by
  rw [readBits, h, leNat_leBytes v hn, BitVec.ofNat_toNat, BitVec.setWidth_eq]

theorem readBits_write {n : Nat} (m : Bytes w) (a : BitVec w) (v : BitVec n) (hn : n % 8 = 0)
    (hfit : n / 8 ≤ 2 ^ w) : readBits n (write m a (leBytes v)) a = v := by
  have hread : read (write m a (leBytes v)) a (n / 8) = leBytes v := by
    have h := read_write_self m a (leBytes v) (by rwa [leBytes_length])
    rwa [leBytes_length] at h
  exact readBits_of_read hn hread

/-- Load a word. -/
def readWord (m : Bytes w) (a : BitVec w) : BitVec w :=
  BitVec.ofNat w (leNat (read m a (w / 8)))

/-- Store a word. -/
def writeWord (m : Bytes w) (a v : BitVec w) : Bytes w := write m a (leBytes v)

theorem word_fits : w / 8 ≤ 2 ^ w :=
  Nat.le_trans (Nat.div_le_self w 8) (Nat.le_of_lt Nat.lt_two_pow_self)

theorem readWord_of_read {m : Bytes w} {a v : BitVec w} (hw : w % 8 = 0)
    (h : read m a (w / 8) = leBytes v) : readWord m a = v := readBits_of_read hw h

theorem readWord_writeWord (m : Bytes w) (a v : BitVec w) (hw : w % 8 = 0) :
    readWord (writeWord m a v) a = v :=
  readBits_write m a v hw word_fits

theorem writeWord_of_not_within {m : Bytes w} {a b v : BitVec w}
    (h : ¬ Within a (w / 8) b) : writeWord m a v b = m b :=
  write_of_not_within (by rwa [leBytes_length])

/-! ## Updating words in place -/

theorem readWord_congr {m m' : Bytes w} {a : BitVec w}
    (h : ∀ b, Within a (w / 8) b → m b = m' b) : readWord m a = readWord m' a :=
  readBits_congr word_fits h

/-- Apply `f` to the words at the addresses, one after another. -/
def mapWords (f : BitVec w → BitVec w) (m : Bytes w) (addrs : List (BitVec w)) : Bytes w :=
  addrs.foldl (fun m a => writeWord m a (f (readWord m a))) m

/-- The words at two addresses share no byte. -/
def WordsApart (a a' : BitVec w) : Prop :=
  ∀ b, Within a (w / 8) b → ¬ Within a' (w / 8) b

theorem mapWords_of_not_within {f : BitVec w → BitVec w} {m : Bytes w} {addrs : List (BitVec w)}
    {b : BitVec w} (h : ∀ a ∈ addrs, ¬ Within a (w / 8) b) : mapWords f m addrs b = m b := by
  unfold mapWords
  induction addrs generalizing m with
  | nil => rfl
  | cons a addrs ih =>
      obtain ⟨ha, hrest⟩ := List.forall_mem_cons.mp h
      rw [List.foldl_cons, ih hrest, writeWord_of_not_within ha]

/-- A word that no other updated word touches is updated once. -/
theorem readWord_mapWords {f : BitVec w → BitVec w} {m : Bytes w} {addrs : List (BitVec w)}
    {a : BitVec w} (hw : w % 8 = 0) (hnodup : addrs.Nodup) (ha : a ∈ addrs)
    (hapart : ∀ a' ∈ addrs, a' ≠ a → WordsApart a a') :
    readWord (mapWords f m addrs) a = f (readWord m a) := by
  induction addrs generalizing m with
  | nil => cases ha
  | cons c addrs ih =>
      obtain ⟨hnotin, hnodup'⟩ := List.nodup_cons.mp hnodup
      obtain ⟨hc, hrest⟩ := List.forall_mem_cons.mp hapart
      change readWord (mapWords f (writeWord m c (f (readWord m c))) addrs) a = _
      by_cases hsame : c = a
      · subst hsame
        -- nothing later touches it
        have hlater : ∀ b, Within c (w / 8) b →
            mapWords f (writeWord m c (f (readWord m c))) addrs b =
              writeWord m c (f (readWord m c)) b := by
          intro b hb
          refine mapWords_of_not_within fun a' ha' => hrest a' ha' ?_ b hb
          rintro rfl
          exact hnotin ha'
        rw [readWord_congr hlater, readWord_writeWord m c _ hw]
      · have hmem : a ∈ addrs := (List.mem_cons.mp ha).resolve_left (Ne.symm hsame)
        rw [ih hnodup' hmem hrest]
        congr 1
        exact readWord_congr fun b hb => writeWord_of_not_within (hc hsame b hb)

end ByteMemory
