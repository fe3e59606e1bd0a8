import ElfLoader.Image.Builder
import ElfLoader.Relocation.Frame
import ElfLoader.Relocation.Run
import ElfLoader.Segment.Protection

/-! # What RELRO takes away

After an eager relocation the range of `PT_GNU_RELRO` becomes read only. The call
covers whole pages, and its end is rounded up, so the page in which the range
ends goes with it.
-/

namespace ElfLoader

open ByteMemory Exec

variable {w : Nat} {K P Q : Type}

/-- The address behind the segment of a header. -/
def ElfPhdr.virtEnd (ph : ElfPhdr w) : Nat := ph.pVaddr.toNat + ph.pMemsz.toNat

/-- The range of `ph` lies in the writable segment `pl`, whose pages lie in the
address space. -/
structure InsideWritable (ph pl : ElfPhdr w) : Prop where
  load : pl.pType = ptLoad
  writable : pl.pFlags &&& pfW ≠ 0
  start : pl.pVaddr.toNat ≤ ph.pVaddr.toNat
  stop : ph.virtEnd ≤ pl.virtEnd
  fits : pageLen pl.virtEnd < 2 ^ w

/-- The byte at `a` is one of the segment. -/
def ElfPhdr.Holds (pl : ElfPhdr w) (base a : BitVec w) : Prop :=
  pl.pVaddr.toNat ≤ (a - base).toNat ∧ (a - base).toNat < pl.virtEnd

/-- Behind its range `PT_GNU_RELRO` leaves the segment writable, and it leaves
alone every page that has no byte between the rounded start and the end. -/
structure TakesOnly (ph pl : ElfPhdr w) (base : BitVec w) (before after : BitVec w → ProtFlags) :
    Prop where
  writable : ∀ a, pl.Holds base a → ph.virtEnd ≤ (a - base).toNat →
    (after a).contains ProtFlags.protWrite
  frame : ∀ a, (∀ x, x / 2 ^ 12 = (a - base).toNat / 2 ^ 12 →
      ¬ ((rounddown ph.pVaddr (pageSize w)).toNat ≤ x ∧ x < ph.virtEnd)) →
    after a = before a

section Pages

variable [WordSize w] {base : BitVec w} {ph pl : ElfPhdr w}

theorem rounddown_add_page (hbase : PageAligned base) (x : BitVec w) :
    rounddown (base + x) (pageSize w) = base + rounddown x (pageSize w) := by
  have hmod : (base + x).toNat % 2 ^ 12 = x.toNat % 2 ^ 12 := by
    unfold PageAligned at hbase
    rw [add_toNat_mod_page]
    omega
  have hsum := rounddown_page_sub (base + x)
  have hpart := rounddown_page_sub x
  rw [hmod, ← hpart] at hsum
  grind

theorem pageLen_mono {m n : Nat} (h : m ≤ n) : pageLen m ≤ pageLen n := by
  unfold pageLen
  omega

/-- The pages that the call protects, seen from the base. -/
theorem relro_within_iff (hbase : PageAligned base) (h : InsideWritable ph pl) (a : BitVec w) :
    let relro := ELFRelro.new ph base
    let stop := roundup (relro.addr + relro.len) (pageSize w)
    let start := rounddown relro.addr (pageSize w)
    Within start (pageLen (stop - start).toNat) a ↔
      (rounddown ph.pVaddr (pageSize w)).toNat ≤ (a - base).toNat ∧
        (a - base).toNat < pageLen ph.virtEnd := by
  intro relro stop start
  have hfits : pageLen ph.virtEnd < 2 ^ w := Nat.lt_of_le_of_lt (pageLen_mono h.stop) h.fits
  have hpages : ph.virtEnd ≤ pageLen ph.virtEnd := Nat.le_add_right _ _
  have hdown := rounddown_page_toNat ph.pVaddr
  have hmemsz : ph.virtEnd = ph.pVaddr.toNat + ph.pMemsz.toNat := rfl
  have hend : (ph.pVaddr + ph.pMemsz).toNat = ph.virtEnd := by
    rw [BitVec.toNat_add, Nat.mod_eq_of_lt (by omega)]
    rfl
  have hstop : stop = base + roundup (ph.pVaddr + ph.pMemsz) (pageSize w) := by
    rw [← roundup_add_page hbase, ← BitVec.add_assoc]
    rfl
  have hstart : start = base + rounddown ph.pVaddr (pageSize w) := rounddown_add_page hbase _
  have hup : (roundup (ph.pVaddr + ph.pMemsz) (pageSize w)).toNat = pageLen ph.virtEnd := by
    rw [roundup_page_toNat_of_lt (by rwa [hend]), hend]
  have hlen : (stop - start).toNat =
      pageLen ph.virtEnd - (rounddown ph.pVaddr (pageSize w)).toNat := by
    have hsub : stop - start = roundup (ph.pVaddr + ph.pMemsz) (pageSize w) -
        rounddown ph.pVaddr (pageSize w) := by
      rw [hstop, hstart]
      grind
    rw [hsub, BitVec.toNat_sub_of_le, hup]
    rw [BitVec.le_def, hup]
    omega
  have hwhole : pageLen (stop - start).toNat = (stop - start).toNat := by
    rw [hlen, hdown]
    unfold pageLen
    omega
  have hdownFits : (rounddown ph.pVaddr (pageSize w)).toNat + (stop - start).toNat ≤ 2 ^ w := by
    omega
  have hwithin : Within (base + BitVec.ofNat w (rounddown ph.pVaddr (pageSize w)).toNat)
      (stop - start).toNat a ↔ _ := within_add_iff hdownFits
  rw [BitVec.ofNat_toNat, BitVec.setWidth_eq, ← hstart] at hwithin
  rw [hwhole, hwithin]
  omega

/-- Only the page in which the range ends decides. -/
theorem takesOnly_iff (h : InsideWritable ph pl)
    {before after : BitVec w → ProtFlags}
    (hbefore : ∀ a, pl.Holds base a → (before a).contains ProtFlags.protWrite)
    (hafter : ∀ a, after a =
      if (rounddown ph.pVaddr (pageSize w)).toNat ≤ (a - base).toNat ∧
        (a - base).toNat < pageLen ph.virtEnd then ProtFlags.protRead else before a) :
    TakesOnly ph pl base before after ↔ ph.virtEnd % 2 ^ 12 = 0 ∨ ph.virtEnd = pl.virtEnd := by
  have hdown := rounddown_page_toNat ph.pVaddr
  have hmemsz : ph.virtEnd = ph.pVaddr.toNat + ph.pMemsz.toNat := rfl
  have hpages : ph.virtEnd ≤ pageLen ph.virtEnd := Nat.le_add_right _ _
  constructor
  · intro htakes
    by_contra hnot
    obtain ⟨hresidue, hne⟩ := not_or.mp hnot
    have hplpages : pl.virtEnd ≤ pageLen pl.virtEnd := Nat.le_add_right _ _
    have hfits := h.fits
    have hstop := h.stop
    have hstart := h.start
    -- the first byte behind the range shares its last page
    have hoff : (base + BitVec.ofNat w ph.virtEnd - base).toNat = ph.virtEnd := by
      rw [BitVec.add_comm, BitVec.add_sub_cancel, BitVec.toNat_ofNat, Nat.mod_eq_of_lt (by omega)]
    have hwritable := htakes.writable (base + BitVec.ofNat w ph.virtEnd)
      ⟨by rw [hoff]; omega, by rw [hoff]; omega⟩ (by rw [hoff])
    rw [hafter, hoff, if_pos ⟨by omega, by unfold pageLen; omega⟩] at hwritable
    exact absurd hwritable (by decide)
  · intro hcond
    refine ⟨fun a hholds hge => ?_, fun a hout => ?_⟩
    · have hbehind := hholds.2
      have hclear : ¬ ((rounddown ph.pVaddr (pageSize w)).toNat ≤ (a - base).toNat ∧
          (a - base).toNat < pageLen ph.virtEnd) := by
        unfold pageLen
        omega
      rw [hafter, if_neg hclear]
      exact hbefore a hholds
    · rw [hafter, if_neg]
      rintro ⟨hlo, hhi⟩
      -- the page of the byte has a byte of the range
      rcases Nat.lt_or_ge (a - base).toNat ph.virtEnd with hlt | hge
      · exact hout _ rfl ⟨hlo, hlt⟩
      · refine hout (ph.virtEnd - 1) ?_ ⟨?_, ?_⟩
        · unfold pageLen at hhi
          omega
        · unfold pageLen at hhi
          omega
        · unfold pageLen at hhi
          omega

end Pages

section Run

variable [CustomHasher]

namespace DynamicImage

variable (proc : Process w K) (image : DynamicImage proc.arch) (helper : RelocHelper w P Q)

/-- The state of the kernel is not one of the parts that the passes write. -/
theorem untouched_kernel (k : K) :
    Untouched (fun s : RelocState w K P Q => s.os.kernel = k) where
  push := fun _ h => h
  update := fun _ _ _ _ h => h

/-- An eager relocation changes protections with its last step alone. -/
theorem run_relro {lazy : Option Bool} {lazyScope : Option (SymbolLookup w)} {os : OsState w K}
    {pre : P} {post : Q} {loaded : LoadedCore w} {s' : RelocState w K P Q} {relro : ELFRelro w}
    (hrun : image.run proc helper lazy lazyScope os pre post = .ok loaded s')
    (hempty : image.relocation.isEmpty = false) (heager : lazy.getD image.lazy = false)
    (hrelro : image.relro = some relro) :
    let stop := roundup (relro.addr + relro.len) (pageSize w)
    let start := rounddown relro.addr (pageSize w)
    ∃ os₁ os₂, os₁.kernel = os.kernel ∧
      proc.mmap.mprotect start (stop - start) ProtFlags.protRead os₁ = .ok () os₂ ∧
      s'.os.kernel = os₂.kernel := by
  intro stop start
  rw [run, relocateImpl_eq image helper lazy lazyScope _ hempty, heager] at hrun
  generalize makeLazyScope proc image false helper.scope lazyScope = scope at hrun
  have hstart : (fun s : RelocState w K P Q => s.os.kernel = os.kernel)
      { RelocState.start os pre post with
        dependencyFlags := List.replicate helper.scope.length false } := rfl
  generalize { RelocState.start os pre post with
    dependencyFlags := List.replicate helper.scope.length false } = s₀ at hrun hstart
  cases hpasses : image.passes proc helper false scope s₀ with
  | error h s =>
      rw [hpasses] at hrun
      cases hrun
  | ok u s =>
      rw [hpasses] at hrun
      cases hrun
      simp only [passes, relocatePltrel, Exec.bind_ok_iff] at hpasses
      obtain ⟨_, s₁, hrelative, _, s₂, hdynrel, _, s₄, ⟨_, s₃, hpltrel, hlast⟩, hfinish⟩ := hpasses
      have hk := untouched_kernel (w := w) (P := P) (Q := Q) os.kernel
      have h₁ := relocateRelative_keeps hk proc image s₀ hstart
      rw [hrelative] at h₁
      have h₂ := relocateDynrel_keeps hk proc image helper s₁ h₁
      rw [hdynrel] at h₂
      have h₃ := pltrelLoop_keeps hk proc image helper false s₂ h₂
      rw [hpltrel] at h₃
      unfold afterPltrel at hlast
      rw [if_neg Bool.false_ne_true, hrelro] at hlast
      change applyRelro proc relro s₃ = _ at hlast
      cases hcall : proc.mmap.mprotect start (stop - start) ProtFlags.protRead s₃.os with
      | error e os₂ =>
          have herror : applyRelro proc relro s₃ = .error e { s₃ with os := os₂ } := by
            rw [applyRelro, hcall]
          rw [herror] at hlast
          cases hlast
      | ok v os₂ =>
          have hok : applyRelro proc relro s₃ = .ok () { s₃ with os := os₂ } := by
            rw [applyRelro, hcall]
          rw [hok] at hlast
          cases hlast
          cases hfinish
          exact ⟨s₃.os, os₂, h₃, hcall, rfl⟩

/-- After an eager relocation the writable data behind the range of RELRO is still
writable exactly where the range ends with a page or with the segment. -/
theorem run_takesOnly_iff [WordSize w] {copies : Option Int → Bool}
    {protOf : K → BitVec w → ProtFlags} (hM : ProtectsPages proc.mmap copies protOf)
    {lazy : Option Bool} {lazyScope : Option (SymbolLookup w)} {os : OsState w K}
    {pre : P} {post : Q} {loaded : LoadedCore w} {s' : RelocState w K P Q} {base : BitVec w}
    {ph pl : ElfPhdr w}
    (hrun : image.run proc helper lazy lazyScope os pre post = .ok loaded s')
    (hempty : image.relocation.isEmpty = false) (heager : lazy.getD image.lazy = false)
    (hrelro : image.relro = some (ELFRelro.new ph base)) (hbase : PageAligned base)
    (hinside : InsideWritable ph pl)
    (hbefore : ∀ a, pl.Holds base a → (protOf os.kernel a).contains ProtFlags.protWrite) :
    TakesOnly ph pl base (protOf os.kernel) (protOf s'.os.kernel) ↔
      (base + ph.pVaddr + ph.pMemsz).toNat % 2 ^ 12 = 0 ∨ ph.virtEnd = pl.virtEnd := by
  obtain ⟨os₁, os₂, hkernel, hcall, hlast⟩ := run_relro proc image helper hrun hempty heager hrelro
  have hafter := hM.mprotect hcall (pageAligned_rounddown _)
  simp only [relro_within_iff hbase hinside, hkernel] at hafter
  rw [hlast, takesOnly_iff hinside hbefore hafter]
  have hresidue : (base + ph.pVaddr + ph.pMemsz).toNat % 2 ^ 12 = ph.virtEnd % 2 ^ 12 := by
    unfold PageAligned at hbase
    unfold ElfPhdr.virtEnd
    rw [add_toNat_mod_page, Nat.add_mod, add_toNat_mod_page]
    omega
  rw [hresidue]

end DynamicImage

end Run

section Sample

attribute [local instance] constantHasher

/-- A process on a kernel whose state is the protection of every address. -/
def protProcess : Process 64 (BitVec 64 → ProtFlags) where
  arch := .x86_64
  mmap := protMmap [] 0
  ifunc := id
  dlRuntimeResolve := 0x5000
  coreAddr := fun _ => 0x6000

/-- RELRO of `memsz` bytes at the start of a page. -/
def relroPhdr (memsz : BitVec 64) : ElfPhdr 64 where
  pType := ptGnuRelro
  pFlags := pfR
  pOffset := 0x900
  pVaddr := 0x1000
  pPaddr := 0
  pFilesz := memsz
  pMemsz := memsz
  pAlign := 1

/-- Two pages of data. -/
def dataPhdr : ElfPhdr 64 where
  pType := ptLoad
  pFlags := pfR ||| pfW
  pOffset := 0
  pVaddr := 0x1000
  pPaddr := 0
  pFilesz := 0x2000
  pMemsz := 0x2000
  pAlign := 0x1000

/-- An image with one jump slot and RELRO. -/
def relroImage (memsz : BitVec 64) : DynamicImage protProcess.arch where
  core := sampleCore 1 stbWeak 0 0
  lazy := false
  gotPlt := none
  tables :=
    { pltrel := some ⟨0x10800, [slotRef.rel]⟩
      dynrel := none
      relr := none
      relCount := none }
  relro := some (ELFRelro.new (relroPhdr memsz) 0x10000)
  initFn := none
  initArray := none
  neededLibs := []
  relocation :=
    { relative := .rel []
      pltrel := [slotRef]
      dynrel := [] }
  relocation_eq := rfl

/-- Memory in which everything is writable. -/
def writableMemory : OsState 64 (BitVec 64 → ProtFlags) :=
  ⟨fun _ => 0, fun _ => ProtFlags.protRead ∪ ProtFlags.protWrite⟩

theorem relroPhdr_inside : InsideWritable (relroPhdr 0x1000) dataPhdr where
  load := rfl
  writable := by decide
  start := by decide
  stop := by decide
  fits := by decide

theorem relro_whole_page :
    ∃ loaded s', (relroImage 0x1000).run protProcess (plainHelper []) none none writableMemory () ()
        = .ok loaded s' ∧
      (TakesOnly (relroPhdr 0x1000) dataPhdr 0x10000 writableMemory.kernel s'.os.kernel ↔
        ((0x10000 : BitVec 64) + (relroPhdr 0x1000).pVaddr + (relroPhdr 0x1000).pMemsz).toNat %
            2 ^ 12 = 0 ∨
          (relroPhdr 0x1000).virtEnd = dataPhdr.virtEnd) := by
  have hbase : PageAligned (0x10000 : BitVec 64) :=
    show (0x10000 : BitVec 64).toNat % 2 ^ 12 = 0 by decide
  have hwritable : (ProtFlags.protRead ∪ ProtFlags.protWrite).contains ProtFlags.protWrite := by
    decide
  have hrun : ∃ loaded s', (relroImage 0x1000).run protProcess (plainHelper []) none none
      writableMemory () () = .ok loaded s' := ⟨_, _, rfl⟩
  obtain ⟨loaded, s', hrun⟩ := hrun
  exact ⟨loaded, s', hrun, DynamicImage.run_takesOnly_iff protProcess (relroImage 0x1000)
    (plainHelper []) (protMmap_protects [] 0) hrun rfl rfl rfl hbase relroPhdr_inside
    fun _ _ => hwritable⟩

/-- Half a page of RELRO takes the other half. -/
theorem relro_half_page :
    ∃ loaded s', (relroImage 0x800).run protProcess (plainHelper []) none none writableMemory () ()
        = .ok loaded s' ∧
      ¬ TakesOnly (relroPhdr 0x800) dataPhdr 0x10000 writableMemory.kernel s'.os.kernel := by
  refine ⟨_, _, rfl, fun htakes => ?_⟩
  have hwritable := htakes.writable 0x11800 ⟨by decide, by decide⟩ (by decide)
  exact absurd hwritable (by decide)

end Sample

end ElfLoader
