import ElfLoader.Elf.InMemory
import ElfLoader.Segment.ByteExact

/-! # What a reservation holds

The pointers into a module lead into the reservation that its segments were loaded
into. What stands in a segment is behind the pointer to it.
-/

namespace ElfLoader

open ByteMemory

variable {w : Nat}

theorem read_isPrefix (m : Bytes w) (ptr : BitVec w) {n n' : Nat} (h : n ≤ n') :
    read m ptr n <+: read m ptr n' := by
  refine List.IsPrefix.map _ ?_
  rw [List.prefix_iff_eq_take, List.length_range, List.take_range, Nat.min_eq_left h]

/-- The bytes inside what is read. -/
theorem read_inside (m : Bytes w) (ptr : BitVec w) {n i k : Nat} (h : i + k ≤ n) :
    read m (ptr + BitVec.ofNat w i) k = ((read m ptr n).drop i).take k := by
  obtain ⟨j, rfl⟩ := Nat.exists_eq_add_of_le h
  rw [Nat.add_assoc, read_append, List.drop_left' (read_length m ptr i), read_append,
    List.take_left' (read_length _ _ k)]

section Reservation

variable [WordSize w] {phdrs : List (ElfPhdr w)} {ph : ElfPhdr w} {file : List UInt8}

/-- The reservation has the addresses of every segment, also where its end is the end of
the address space. -/
theorem reservation_covers (isDylib : Bool) (hmem : ph ∈ phdrs) (hload : ph.pType = ptLoad)
    (hp : ph.Loadable file) (hlen : (parseSegments phdrs isDylib).2.1 ≠ 0) :
    (parseSegments phdrs isDylib).2.2.toNat ≤ ph.pVaddr.toNat ∧
      ph.pVaddr.toNat + ph.pMemsz.toNat ≤
        (parseSegments phdrs isDylib).2.2.toNat + (parseSegments phdrs isDylib).2.1.toNat := by
  obtain ⟨hlo, hhi⟩ := vaddrFold_bounds hmem hload (BitVec.allOnes w, 0)
  rw [BitVec.le_def] at hlo hhi
  rw [BitVec.toNat_add_of_lt hp.no_wrap] at hhi
  change (vaddrBounds phdrs).1.toNat ≤ _ at hlo
  change _ ≤ (vaddrBounds phdrs).2.toNat at hhi
  change (rounddown (vaddrBounds phdrs).1 (pageSize w)).toNat ≤ _ ∧ _ ≤
    (rounddown (vaddrBounds phdrs).1 (pageSize w)).toNat +
      (roundup (vaddrBounds phdrs).2 (pageSize w) -
        rounddown (vaddrBounds phdrs).1 (pageSize w)).toNat
  change roundup (vaddrBounds phdrs).2 (pageSize w) -
    rounddown (vaddrBounds phdrs).1 (pageSize w) ≠ 0 at hlen
  have hdvd := page_dvd_word w
  have hlt := (vaddrBounds phdrs).2.isLt
  have hdown := rounddown_page_toNat (vaddrBounds phdrs).1
  have hup : (roundup (vaddrBounds phdrs).2 (pageSize w)).toNat =
      pageLen (vaddrBounds phdrs).2.toNat % 2 ^ w := by
    rw [roundup_page, BitVec.toNat_add, BitVec.toNat_ofNat, Nat.add_mod_mod, pageLen]
  have hne : (roundup (vaddrBounds phdrs).2 (pageSize w)).toNat ≠
      (rounddown (vaddrBounds phdrs).1 (pageSize w)).toNat := by
    intro heq
    rw [BitVec.toNat_inj] at heq
    rw [heq, BitVec.sub_self] at hlen
    exact hlen rfl
  rw [BitVec.toNat_sub]
  generalize (roundup (vaddrBounds phdrs).2 (pageSize w)).toNat = up at *
  generalize (rounddown (vaddrBounds phdrs).1 (pageSize w)).toNat = down at *
  unfold pageLen at hup
  generalize (vaddrBounds phdrs).1.toNat = lo at *
  generalize (vaddrBounds phdrs).2.toNat = hi at *
  refine ⟨by omega, ?_⟩
  rcases Nat.lt_or_ge (hi + (2 ^ 12 - hi % 2 ^ 12) % 2 ^ 12) (2 ^ w) with hin | htop
  · rw [Nat.mod_eq_of_lt hin] at hup
    rw [show 2 ^ w - down + up = up - down + 2 ^ w by omega, Nat.add_mod_right,
      Nat.mod_eq_of_lt (by omega)]
    omega
  · -- the last page ends with the address space
    have hzero : up = 0 := by
      rw [hup, show hi + (2 ^ 12 - hi % 2 ^ 12) % 2 ^ 12 = 2 ^ w by omega, Nat.mod_self]
    rw [hzero, Nat.add_zero, Nat.mod_eq_of_lt (by omega)]
    omega

/-- The segments are loaded, into a reservation that was made for them. -/
structure ElfSegments.Holds (segs : ElfSegments w) (phdrs : List (ElfPhdr w)) (file : List UInt8)
    (m : Bytes w) : Prop where
  loaded : ∀ ph ∈ phdrs, ph.pType = ptLoad → ph.Loaded file segs.base m
  offset : ∀ isDylib, segs.offset = (parseSegments phdrs isDylib).2.2
  len : ∀ isDylib, segs.len = (parseSegments phdrs isDylib).2.1
  nonempty : segs.len ≠ 0

variable {segs : ElfSegments w} {m : Bytes w}

/-- What lies in a segment is behind the pointer to it. -/
theorem ElfSegments.Holds.prefix_behind (h : segs.Holds phdrs file m) (hmem : ph ∈ phdrs)
    (hload : ph.pType = ptLoad) (hp : ph.Loadable file) {v n : Nat}
    (hstart : ph.pVaddr.toNat ≤ v) (hstop : v + n ≤ ph.pVaddr.toNat + ph.pMemsz.toNat) :
    read m (segs.base + BitVec.ofNat w v) n <+: segs.behind m (segs.base + BitVec.ofNat w v) := by
  obtain ⟨hlo, hhi⟩ := reservation_covers true hmem hload hp
    (by rw [← h.len]; exact h.nonempty)
  rw [← h.offset] at hlo hhi
  rw [← h.len] at hhi
  have hnw := hp.no_wrap
  refine read_isPrefix m _ ?_
  have hmemory : segs.memory = segs.base + segs.offset := (BitVec.sub_add_cancel _ _).symm
  have hsplit : segs.base + BitVec.ofNat w v =
      segs.memory + BitVec.ofNat w (v - segs.offset.toNat) := by
    rw [hmemory, BitVec.add_assoc]
    congr 1
    conv_lhs => rw [show v = segs.offset.toNat + (v - segs.offset.toNat) by omega]
    rw [BitVec.ofNat_add, BitVec.ofNat_toNat, BitVec.setWidth_eq]
  have hdist : (segs.base + BitVec.ofNat w v - segs.memory).toNat = v - segs.offset.toNat := by
    rw [hsplit]
    exact add_ofNat_sub_toNat _ (by omega)
  rw [hdist]
  omega

variable {K O : Type}

theorem loadSegments_holds {M : Mmap w K} {R : ElfReader w O} (hM : MapsFile M file)
    (hR : ReadsFile R file) (ps : ProgramSegments w)
    (hload : ∀ ph ∈ ps.loads, ph.Loadable file)
    (hdisj : ps.loads.Pairwise fun p q => Disjoint p.pages q.pages)
    {segs : List (ElfSegment w)} {space : ElfSegments w} {s s' : LoadState w K O}
    (hrun : ps.loadSegments M R s = .ok (space, segs) s') :
    space.Holds ps.phdrs file s'.os.mem := by
  have hloaded := loadSegments_loaded hM hR hload hdisj hrun
  obtain ⟨space', s₁, hspace, hrest⟩ := Exec.bind_ok_iff.mp hrun
  obtain ⟨created, s₂, -, hrest⟩ := Exec.bind_ok_iff.mp hrest
  obtain ⟨segs', s₃, -, hret⟩ := Exec.bind_ok_iff.mp hrest
  cases hret
  obtain ⟨p, os, hos, rfl, -⟩ := ProgramSegments.createSpace_ok_iff.mp hspace
  exact ⟨fun ph hph htype => hloaded ph (List.mem_filter.mpr ⟨hph, decide_eq_true htype⟩),
    fun _ => rfl, fun _ => rfl, (hM.reserve hos).2⟩

end Reservation

end ElfLoader
