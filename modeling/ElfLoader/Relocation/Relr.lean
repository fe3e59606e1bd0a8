import ElfLoader.Relocation.Run
import ElfLoader.Library.Bits

/-! # Compact relative relocations (`DT_RELR`)

The table is a stream of addresses and bitmaps. `relrDecode` says which words it
names, as the format defines it; the loop of `relocate_relative` visits these
words and no others.
-/

namespace ElfLoader

open ByteMemory

variable {w : Nat}

/-- The offsets of the words a table names. `next` is the word behind the last
one described. -/
def relrDecode : List (BitVec w) → BitVec w → List (BitVec w)
  | [], _ => []
  | entry :: entries, next =>
      if entry.getLsbD 0 then
        (((List.range' 1 (w - 1)).filter fun j => entry.getLsbD j).map fun j =>
          next + BitVec.ofNat w ((j - 1) * (w / 8))) ++
        relrDecode entries (next + BitVec.ofNat w ((w - 1) * (w / 8)))
      else entry :: relrDecode entries (entry + BitVec.ofNat w (w / 8))

/-- The first entry of a table is an address. -/
def RelrStarts (entries : List (BitVec w)) : Prop :=
  ∀ entry ∈ entries.head?, entry.getLsbD 0 = false

/-- The bit behind the last one is never set. -/
theorem relrBits_eq (value : BitVec w) (hw : 0 < w) :
    ((List.range' 1 w).filter fun j => value.getLsbD j) =
      (List.range' 1 (w - 1)).filter fun j => value.getLsbD j := by
  have hsplit : List.range' 1 w = List.range' 1 (w - 1) ++ [w] := by
    have h := List.range'_1_concat (s := 1) (n := w - 1)
    rwa [Nat.sub_add_cancel hw, Nat.add_sub_cancel' hw] at h
  rw [hsplit, List.filter_append]
  simp

namespace DynamicImage

section Relr

variable {K P Q : Type} [CustomHasher]
variable (proc : Process w K) (image : DynamicImage proc.arch)

theorem relrWord_apply (addr : BitVec w) (s : RelocState w K P Q) :
    relrWord proc image addr s =
      .ok () { s with
        os := { s.os with
          mem := writeWord s.os.mem addr (image.core.base + readWord s.os.mem addr) }
        trace := s.trace ++ [.relr addr] } := rfl

/-- A state after the base was added to the words at `addrs`. -/
def relrState (base : BitVec w) (s : RelocState w K P Q) (addrs : List (BitVec w)) :
    RelocState w K P Q :=
  { s with
    os := { s.os with mem := mapWords (base + ·) s.os.mem addrs }
    trace := s.trace ++ addrs.map .relr }

theorem relrState_nil (base : BitVec w) (s : RelocState w K P Q) : relrState base s [] = s := by
  simp [relrState, mapWords]

theorem relrState_cons (base addr : BitVec w) (s : RelocState w K P Q) (addrs : List (BitVec w)) :
    relrState base s (addr :: addrs) = relrState base (relrState base s [addr]) addrs := by
  simp [relrState, mapWords]

theorem forM_relrWord (addrs : List (BitVec w)) (s : RelocState w K P Q) :
    addrs.forM (relrWord proc image) s = .ok () (relrState image.core.base s addrs) := by
  induction addrs generalizing s with
  | nil => rw [relrState_nil]; rfl
  | cons addr addrs ih =>
      rw [Exec.forM_cons_apply, Exec.bind_of_ok (relrWord_apply proc image addr s), relrState_cons]
      exact ih _

/-- The loop over a bitmap visits the set bits above bit `idx`. The bitmap it
keeps is the entry shifted by `idx`, and it leaves once no bit remains. -/
theorem relrBitmap_eq_forM (relocAddr value : BitVec w) (fuel idx : Nat) (hw : 0 < w)
    (s : RelocState w K P Q) :
    relrBitmap proc image relocAddr fuel (value >>> idx) idx s =
      (((List.range' (idx + 1) fuel).filter fun j => value.getLsbD j).map fun j =>
        relocAddr + BitVec.ofNat w ((j - 1) * (w / 8))).forM (relrWord proc image) s := by
  induction fuel generalizing idx s with
  | zero => rfl
  | succ fuel ih =>
      unfold relrBitmap
      by_cases hzero : value >>> idx = 0
      · have hbits : ∀ j ∈ List.range' (idx + 1) (fuel + 1), ¬ value.getLsbD j = true := by
          intro j hj
          rw [List.mem_range'_1] at hj
          have hbit := congrArg (fun v => v.getLsbD (j - idx)) hzero
          simpa [Nat.add_sub_cancel' (show idx ≤ j by omega)] using hbit
        rw [if_neg (fun h => h hzero), List.filter_eq_nil_iff.mpr hbits]
        rfl
      · rw [if_pos hzero, List.range'_succ, List.filter_cons]
        have hshift : value >>> idx >>> 1 = value >>> (idx + 1) := by
          rw [BitVec.shiftRight_add]
        rw [hshift]
        cases hbit : value.getLsbD (idx + 1) with
        | false =>
            have htest := (Bits.shift_and_one_eq_zero_iff value hw).mpr hbit
            rw [if_neg (fun h => h htest), if_neg (by simp)]
            exact ih (idx + 1) s
        | true =>
            have htest : (value >>> (idx + 1)) &&& 1#w ≠ 0 := by
              rw [ne_eq, Bits.shift_and_one_eq_zero_iff value hw, hbit]
              simp
            rw [if_pos htest, if_pos rfl, List.map_cons, Exec.forM_cons_apply, Nat.add_sub_cancel]
            rw [Exec.bind_of_ok (relrWord_apply proc image _ s),
              Exec.bind_of_ok (relrWord_apply proc image _ s)]
            exact ih (idx + 1) _

theorem relrLoop_eq_forM (entries : List (BitVec w)) (next : BitVec w) (hw : 0 < w)
    (s : RelocState w K P Q) :
    relrLoop proc image entries (image.core.base + next) s =
      ((relrDecode entries next).map (image.core.base + ·)).forM (relrWord proc image) s := by
  induction entries generalizing next s with
  | nil => rfl
  | cons entry entries ih =>
      have hodd : (entry &&& 1#w = 0) ↔ entry.getLsbD 0 = false := by
        have h := Bits.shift_and_one_eq_zero_iff (k := 0) entry hw
        rwa [BitVec.ushiftRight_zero] at h
      unfold relrLoop relrDecode
      cases hbit : entry.getLsbD 0 with
      | false =>
          rw [if_pos (hodd.mpr hbit), if_neg (by simp), List.map_cons, Exec.forM_cons_apply]
          rw [Exec.bind_of_ok (relrWord_apply proc image _ s),
            Exec.bind_of_ok (relrWord_apply proc image _ s), BitVec.add_assoc]
          exact ih _ _
      | true =>
          have hnot : entry &&& 1#w ≠ 0 := by
            rw [ne_eq, hodd, hbit]
            simp
          rw [if_neg hnot, if_pos rfl, List.map_append, Exec.forM_append_apply]
          have hbitmap :=
            relrBitmap_eq_forM proc image (image.core.base + next) entry w 0 hw s
          rw [BitVec.ushiftRight_zero, Nat.zero_add, relrBits_eq entry hw,
            forM_relrWord proc image] at hbitmap
          rw [Exec.bind_of_ok hbitmap, List.map_map, Function.comp_def]
          simp only [← BitVec.add_assoc]
          rw [Exec.bind_of_ok (forM_relrWord proc image _ s), BitVec.add_assoc]
          exact ih _ _

/-- A table that starts with an address does not depend on the pointer before
it. -/
theorem relrLoop_start (entries : List (BitVec w)) (hstart : RelrStarts entries) (hw : 0 < w)
    (relocAddr : BitVec w) (s : RelocState w K P Q) :
    relrLoop proc image entries relocAddr s =
      .ok () (relrState image.core.base s
        ((relrDecode entries 0).map (image.core.base + ·))) := by
  rw [← forM_relrWord proc image, ← relrLoop_eq_forM proc image entries 0 hw s]
  cases entries with
  | nil => rfl
  | cons entry entries =>
      have heven : entry &&& 1#w = 0 := by
        have h := (Bits.shift_and_one_eq_zero_iff (k := 0) entry hw).mpr (hstart entry rfl)
        rwa [BitVec.ushiftRight_zero] at h
      unfold relrLoop
      rw [if_pos heven, if_pos heven]

/-- `relocate_relative` adds the base to the words a `DT_RELR` table names, to
each of them once, and to nothing else. -/
theorem relr_matches_format [WordSize w] {entries : List (BitVec w)}
    (hrelr : image.relocation.relative = .relr entries) (hstart : RelrStarts entries)
    (hdistinct : (relrDecode entries 0).Nodup) (s : RelocState w K P Q) :
    ∃ s', relocateRelative proc image s = .ok () s' ∧
      s'.os.mem = mapWords (image.core.base + ·) s.os.mem
        ((relrDecode entries 0).map (image.core.base + ·)) ∧
      ((relrDecode entries 0).map (image.core.base + ·)).Nodup ∧
      (∀ e ∈ relrDecode entries 0,
        (∀ e' ∈ relrDecode entries 0, e' ≠ e →
          WordsApart (image.core.base + e) (image.core.base + e')) →
        readWord s'.os.mem (image.core.base + e) =
          image.core.base + readWord s.os.mem (image.core.base + e)) ∧
      ∀ a, (∀ e ∈ relrDecode entries 0, ¬ Within (image.core.base + e) (w / 8) a) →
        s'.os.mem a = s.os.mem a := by
  have hw : 0 < w := Nat.lt_trans (by omega) (WordSize.page_lt w)
  have hrun : relocateRelative proc image s = .ok () (relrState image.core.base s
      ((relrDecode entries 0).map (image.core.base + ·))) := by
    unfold relocateRelative
    rw [hrelr]
    exact relrLoop_start proc image entries hstart hw 0 s
  have hnodup : ((relrDecode entries 0).map (image.core.base + ·)).Nodup :=
    hdistinct.map fun a b h => (BitVec.add_right_inj _).mp h
  refine ⟨_, hrun, rfl, hnodup, ?_, ?_⟩
  · intro e he hapart
    refine readWord_mapWords (WordSize.mod_eight w) hnodup (List.mem_map_of_mem he) ?_
    intro a' ha' hne
    obtain ⟨e', he', rfl⟩ := List.mem_map.mp ha'
    exact hapart e' he' fun h => hne (by rw [h])
  · intro a hout
    refine mapWords_of_not_within fun a' ha' => ?_
    obtain ⟨e, he, rfl⟩ := List.mem_map.mp ha'
    exact hout e he

end Relr

end DynamicImage

section Sample

attribute [local instance] constantHasher

/-- A table with one address and one bitmap, which has bits one and three set. -/
def relrImage : DynamicImage sampleProcess.arch where
  core := refersToF
  lazy := false
  gotPlt := none
  tables :=
    { pltrel := none
      dynrel := none
      relr := some [0x100, 0b1011]
      relCount := none }
  relro := none
  initFn := none
  initArray := none
  neededLibs := []
  relocation :=
    { relative := .relr [0x100, 0b1011]
      pltrel := []
      dynrel := [] }
  relocation_eq := rfl

theorem relr_adds_base_to_decoded_words :
    ∃ s', DynamicImage.relocateRelative sampleProcess relrImage
        (⟨emptyMemory, (), (), [], none, false, []⟩ : RelocState 64 Unit Unit Unit) = .ok () s' ∧
      s'.os.mem = mapWords (relrImage.core.base + ·) emptyMemory.mem
        ([0x100, 0x108, 0x118].map (relrImage.core.base + ·)) := by
  have hrelr : relrImage.relocation.relative = .relr [0x100#64, 0b1011#64] := rfl
  have hdecode : relrDecode [0x100#64, 0b1011#64] 0 = [0x100, 0x108, 0x118] := by decide
  have hstart : RelrStarts [0x100#64, 0b1011#64] := by
    intro entry hentry
    cases hentry
    rfl
  obtain ⟨s', hrun, hmem, -⟩ := DynamicImage.relr_matches_format sampleProcess relrImage
    hrelr hstart (by rw [hdecode]; decide) ⟨emptyMemory, (), (), [], none, false, []⟩
  exact ⟨s', hrun, by rw [hmem, hdecode]⟩

end Sample

end ElfLoader
