import ElfLoader.Library.Footprint
import ElfLoader.Relocation.Run

/-! # What relocation leaves in memory

Every entry has a place, which is all that the default logic writes for it. If no two
places overlap, then the memory after a run is a matter of the memory before it, entry
by entry: no order of the entries shows.
-/

namespace ElfLoader

open ByteMemory Footprint

variable {w : Nat} {K P Q : Type}

/-- The pass that treats an entry. -/
inductive Part where
  | relative
  | dyn
  | plt
deriving DecidableEq, Repr

section Copies

variable (proc : Process w K)

/-- Only `relocate_dynrel` copies symbols. -/
def Copies (x : Part × RelRef w) : Prop := x.1 = .dyn ∧ x.2.rel.rType = proc.arch.relCopy

instance (x : Part × RelRef w) : Decidable (Copies proc x) := inferInstanceAs (Decidable (_ ∧ _))

variable {proc}

theorem not_copies_of_ne {x : Part × RelRef w} (h : x.2.rel.rType ≠ proc.arch.relCopy) :
    ¬ Copies proc x := fun hx => h hx.2

theorem irelative_not_copies {x : Part × RelRef w}
    (h : x.2.rel.rType = proc.arch.relIrelative) : ¬ Copies proc x := by
  refine not_copies_of_ne fun hcopy => proc.arch.not_mem_symbolTypes.2.2 ?_
  rw [← h, hcopy]
  simp [Arch.symbolTypes]

end Copies

section Memory

variable [CustomHasher]

section Places

variable (proc : Process w K) (image : DynamicImage proc.arch)

/-- The entries with their passes, in the order of the run. -/
def DynamicImage.items : List (Part × RelRef w) :=
  (match image.relocation.relative with
    | .rel rels => rels.map fun ref => (.relative, ref)
    | .relr _ => []) ++
  image.relocation.dynrel.map (fun ref => (.dyn, ref)) ++
  image.relocation.pltrel.map fun ref => (.plt, ref)

/-- How many bytes an entry patches: a word, or a copy of its symbol. -/
def DynamicImage.placeLen (x : Part × RelRef w) : Nat :=
  if Copies proc x then
    match image.core.symtab.symbolIdx x.2.rel.rSymbol with
    | .ok own => own.1.sym.stSize.toNat
    | .error _ => 0
  else w / 8

def DynamicImage.slot (x : Part × RelRef w) : BitVec w := image.core.base + x.2.rel.rOffset

def DynamicImage.place (x : Part × RelRef w) : Set (BitVec w) :=
  { a | Within (image.slot proc x) (image.placeLen proc x) a }

/-- The word that `prepare_lazy_bind` writes for the trampoline, and the one for the module. -/
def resolverSlot (got : BitVec w) : BitVec w :=
  got + BitVec.ofNat w (proc.arch.resolveFunctionOffset * (w / 8))

def moduleSlot (got : BitVec w) : BitVec w :=
  got + BitVec.ofNat w (proc.arch.dylibOffset * (w / 8))

/-- The bytes that the end of `relocate_pltrel` writes. -/
def DynamicImage.reserved (isLazy : Bool) : Set (BitVec w) :=
  { a | isLazy = true ∧ image.relocation.pltrel ≠ [] ∧ ∃ got, image.gotPlt = some got ∧
    (Within (resolverSlot proc got) (w / 8) a ∨ Within (moduleSlot proc got) (w / 8) a) }

/-- What no entry and no other write of a run touches. -/
def DynamicImage.elsewhere (isLazy : Bool) : Set (BitVec w) :=
  { a | (∀ x ∈ image.items proc, a ∉ image.place proc x) ∧ a ∉ image.reserved proc isLazy }

end Places

/-- A handler that writes no memory. -/
def RelocationHandler.Quiet (handler : RelocationHandler w P) : Prop :=
  ∀ ctx p m answer p' m', handler.handle ctx (p, m) = .ok answer (p', m') → m' = m

/-- A handler that takes an entry. -/
def RelocationHandler.Takes (handler : RelocationHandler w P) (ctx : RelocationContext w) : Prop :=
  ∃ s s' idx, handler.handle ctx s = .ok (some (.ok idx)) s'

def RelocHelper.context (helper : RelocHelper w P Q) (core : ElfCore w) (ref : RelRef w) :
    RelocationContext w :=
  { rel := ref, lib := core, scope := helper.scope }

section Settled

variable (proc : Process w K) (image : DynamicImage proc.arch) (helper : RelocHelper w P Q)

/-- The memory `m` before and `m'` after, at the place of an entry. What a copy copies is
known if it is read from `stable`. -/
inductive Settled (isLazy : Bool) (stable : Set (BitVec w)) (m m' : Bytes w) :
    Part × RelRef w → Prop
  | relative {ref} (h : readWord m' (image.slot proc (.relative, ref)) =
      image.core.base + ref.rel.addend proc.arch image.core.base m) :
      Settled isLazy stable m m' (.relative, ref)
  | symbol {ref v idx}
      (hty : ref.rel.rType = proc.arch.relGot ∨ ref.rel.rType = proc.arch.relSymbolic)
      (hfind : image.findAddr proc helper ref = .ok (some (v, idx)))
      (h : readWord m' (image.slot proc (.dyn, ref)) =
        v + ref.rel.addend proc.arch image.core.base m) :
      Settled isLazy stable m m' (.dyn, ref)
  | tls {ref symdef sym idx} (hty : ref.rel.rType = proc.arch.relDtpoff)
      (hfind : image.findDef proc helper ref = .ok (some (symdef, idx)))
      (hsym : symdef.sym = some sym)
      (h : readWord m' (image.slot proc (.dyn, ref)) = sym.sym.stValue +
        ref.rel.addend proc.arch image.core.base m - proc.arch.tlsDtvOffset) :
      Settled isLazy stable m m' (.dyn, ref)
  | copy {ref symdef sym idx own} (hty : ref.rel.rType = proc.arch.relCopy)
      (hfind : image.findDef proc helper ref = .ok (some (symdef, idx)))
      (hsym : symdef.sym = some sym)
      (hown : image.core.symtab.symbolIdx ref.rel.rSymbol = .ok own)
      (h : (∀ a, Within (symdef.lib.base + sym.sym.stValue) own.1.sym.stSize.toNat a →
          a ∈ stable) →
        read m' (image.slot proc (.dyn, ref)) own.1.sym.stSize.toNat =
          read m (symdef.lib.base + sym.sym.stValue) own.1.sym.stSize.toNat) :
      Settled isLazy stable m m' (.dyn, ref)
  | irelative {part ref} (hpart : part ≠ .relative) (hty : ref.rel.rType = proc.arch.relIrelative)
      (h : readWord m' (image.slot proc (part, ref)) =
        proc.ifunc (image.core.base + ref.rel.addend proc.arch image.core.base m)) :
      Settled isLazy stable m m' (part, ref)
  | nothing {ref} (hty : ref.rel.rType = relNone)
      (h : ∀ a ∈ image.place proc (.dyn, ref), m' a = m a) : Settled isLazy stable m m' (.dyn, ref)
  | slot {ref v idx} (hty : ref.rel.rType = proc.arch.relJumpSlot) (hlazy : isLazy = false)
      (hfind : image.findAddr proc helper ref = .ok (some (v, idx)))
      (h : readWord m' (image.slot proc (.plt, ref)) = v) : Settled isLazy stable m m' (.plt, ref)
  | skipped {ref} (hty : ref.rel.rType = proc.arch.relJumpSlot) (hlazy : isLazy = false)
      (hfind : image.findAddr proc helper ref = .ok none)
      (h : ∀ a ∈ image.place proc (.plt, ref), m' a = m a) : Settled isLazy stable m m' (.plt, ref)
  | lazySlot {ref} (hty : ref.rel.rType = proc.arch.relJumpSlot) (hlazy : isLazy = true)
      (h : readWord m' (image.slot proc (.plt, ref)) =
        readWord m (image.slot proc (.plt, ref)) + image.core.base) :
      Settled isLazy stable m m' (.plt, ref)
  | handled {part ref} (hpart : part ≠ .relative)
      (htaken : helper.preHandler.Takes (helper.context image.core ref) ∨
        helper.postHandler.Takes (helper.context image.core ref))
      (h : ∀ a ∈ image.place proc (part, ref), m' a = m a) : Settled isLazy stable m m' (part, ref)

/-- The memory before and after a run. -/
structure RelocatedMemory (isLazy : Bool) (m m' : Bytes w) : Prop where
  settled : ∀ x ∈ image.items proc,
    Settled proc image helper isLazy (image.elsewhere proc isLazy) m m' x
  elsewhere : ∀ a ∈ image.elsewhere proc isLazy, m' a = m a
  resolver : isLazy = true → image.relocation.pltrel ≠ [] → ∃ got, image.gotPlt = some got ∧
    readWord m' (resolverSlot proc got) = proc.dlRuntimeResolve ∧
    (WordsApart (moduleSlot proc got) (resolverSlot proc got) →
      readWord m' (moduleSlot proc got) = proc.coreAddr image.core.id)

end Settled

/-! ## The step of an entry -/

section Steps

variable {proc : Process w K} {image : DynamicImage proc.arch} {helper : RelocHelper w P Q}
  {isLazy : Bool} {ref : RelRef w} {s s' : RelocState w K P Q}

/-- The memory around the step of an entry. -/
def SettledStep (proc : Process w K) (image : DynamicImage proc.arch) (helper : RelocHelper w P Q)
    (isLazy : Bool) (x : Part × RelRef w) (m m' : Bytes w) : Prop :=
  Settled proc image helper isLazy Set.univ m m' x ∧ ∀ a ∉ image.place proc x, m' a = m a

theorem setFlag?_os {idx : Option Nat}
    (h : (Reloc.setFlag? idx : Reloc w K P Q Unit) s = .ok () s') : s'.os = s.os := by
  cases idx with
  | none =>
      cases h
      rfl
  | some i =>
      change (if i < s.dependencyFlags.length then _ else _ : Reloc w K P Q Unit) s = _ at h
      split at h
      · cases h
        rfl
      · cases h

/-- An entry that copies nothing patches a word. -/
theorem word_place {x : Part × RelRef w} (hx : ¬ Copies proc x) (a : BitVec w) :
    a ∈ image.place proc x ↔ Within (image.slot proc x) (w / 8) a := by
  unfold DynamicImage.place DynamicImage.placeLen
  rw [if_neg hx]
  rfl

theorem copy_place {own : SymRef w × SymbolInfo} (hty : ref.rel.rType = proc.arch.relCopy)
    (hown : image.core.symtab.symbolIdx ref.rel.rSymbol = .ok own) (a : BitVec w) :
    a ∈ image.place proc (.dyn, ref) ↔
      Within (image.slot proc (.dyn, ref)) own.1.sym.stSize.toNat a := by
  have hcopies : Copies proc (.dyn, ref) := ⟨rfl, hty⟩
  unfold DynamicImage.place DynamicImage.placeLen
  rw [if_pos hcopies]
  dsimp only
  rw [hown]
  rfl

theorem writeWord_outside {x : Part × RelRef w} (hx : ¬ Copies proc x) (m : Bytes w)
    (v : BitVec w) : ∀ a ∉ image.place proc x, writeWord m (image.slot proc x) v a = m a :=
  fun a ha => writeWord_of_not_within fun hin => ha ((word_place hx a).mpr hin)

variable [WordSize w]

/-- An entry whose step stores one word. -/
theorem settledStep_word {x : Part × RelRef w} {m : Bytes w} {v : BitVec w}
    (hx : ¬ Copies proc x)
    (h : ∀ m', readWord m' (image.slot proc x) = v →
      Settled proc image helper isLazy Set.univ m m' x) :
    SettledStep proc image helper isLazy x m (writeWord m (image.slot proc x) v) :=
  ⟨h _ (readWord_writeWord _ _ _ (WordSize.mod_eight w)), writeWord_outside hx m v⟩

theorem relativeStep_settled (h : image.relativeStep proc ref s = .ok () s') :
    SettledStep proc image helper isLazy (.relative, ref) s.os.mem s'.os.mem := by
  cases h
  exact settledStep_word (by simp [Copies]) fun _ => .relative

/-- The default logic of `relocate_dynrel`: an entry is settled, or nothing is written. -/
theorem dynrelDefault_settled {taken : Bool}
    (h : image.dynrelDefault proc helper ref s = .ok taken s') :
    if taken then SettledStep proc image helper isLazy (.dyn, ref) s.os.mem s'.os.mem
    else s'.os.mem = s.os.mem := by
  unfold DynamicImage.dynrelDefault at h
  rw [Exec.bind_of_ok (Exec.get_apply s)] at h
  dsimp only at h
  split at h
  · rename_i hty
    obtain ⟨found, s₁, hfind, h⟩ := Exec.bind_ok_iff.mp h
    obtain ⟨hfind, hs⟩ := Exec.lift_ok_iff.mp hfind
    rw [hs] at h
    cases found with
    | none =>
        cases h
        rfl
    | some found =>
        obtain ⟨v, idx⟩ := found
        dsimp only at h
        obtain ⟨_, s₂, hflag, h⟩ := Exec.bind_ok_iff.mp h
        cases h
        rw [← setFlag?_os hflag]
        change SettledStep proc image helper isLazy (.dyn, ref) s₂.os.mem
          (writeWord s₂.os.mem (image.slot proc (.dyn, ref)) _)
        exact settledStep_word (not_copies_of_ne (proc.arch.addr_type_ne hty).2.2.2.2.2)
          fun _ => .symbol hty hfind
  split at h
  · rename_i _ hty
    obtain ⟨found, s₁, hfind, h⟩ := Exec.bind_ok_iff.mp h
    obtain ⟨hfind, hs⟩ := Exec.lift_ok_iff.mp hfind
    rw [hs] at h
    cases found with
    | none =>
        cases h
        rfl
    | some found =>
        obtain ⟨symdef, idx⟩ := found
        dsimp only at h
        obtain ⟨_, s₂, hflag, h⟩ := Exec.bind_ok_iff.mp h
        obtain ⟨sym, s₃, hunwrap, h⟩ := Exec.bind_ok_iff.mp h
        obtain ⟨hunwrap, hs₃⟩ := Exec.lift_ok_iff.mp hunwrap
        rw [hs₃] at h
        cases h
        rw [← setFlag?_os hflag]
        change SettledStep proc image helper isLazy (.dyn, ref) s₂.os.mem
          (writeWord s₂.os.mem (image.slot proc (.dyn, ref)) _)
        have hne : ref.rel.rType ≠ proc.arch.relCopy := fun hcopy =>
          proc.arch.copy_ne_dtpoff (hcopy.symm.trans hty)
        exact settledStep_word (not_copies_of_ne hne) fun _ =>
          .tls hty hfind (unwrapSym_ok hunwrap)
  split at h
  · rename_i _ _ hty
    obtain ⟨found, s₁, hfind, h⟩ := Exec.bind_ok_iff.mp h
    obtain ⟨hfind, hs⟩ := Exec.lift_ok_iff.mp hfind
    rw [hs] at h
    cases found with
    | none =>
        cases h
        rfl
    | some found =>
        obtain ⟨symdef, idx⟩ := found
        dsimp only at h
        obtain ⟨own, s₂, hown, h⟩ := Exec.bind_ok_iff.mp h
        obtain ⟨hown, hs₂⟩ := Exec.lift_ok_iff.mp hown
        rw [hs₂] at h
        obtain ⟨_, s₃, hflag, h⟩ := Exec.bind_ok_iff.mp h
        obtain ⟨sym, s₄, hunwrap, h⟩ := Exec.bind_ok_iff.mp h
        obtain ⟨hunwrap, hs₄⟩ := Exec.lift_ok_iff.mp hunwrap
        rw [hs₄] at h
        cases h
        rw [← setFlag?_os hflag]
        refine ⟨.copy hty hfind (unwrapSym_ok hunwrap) hown fun _ => ?_, fun a ha => ?_⟩
        · have hread := read_write_self s₃.os.mem (image.slot proc (.dyn, ref))
            (read s₃.os.mem (symdef.lib.base + sym.sym.stValue) own.1.sym.stSize.toNat)
            (by
              rw [read_length]
              exact Nat.le_of_lt own.1.sym.stSize.isLt)
          rwa [read_length] at hread
        · rw [copy_place hty hown] at ha
          exact write_of_not_within (by rwa [read_length])
  split at h
  · rename_i _ _ _ hty
    cases h
    change SettledStep proc image helper isLazy (.dyn, ref) s.os.mem
      (writeWord s.os.mem (image.slot proc (.dyn, ref)) _)
    exact settledStep_word (irelative_not_copies hty) fun _ => .irelative (by simp) hty
  split at h
  · rename_i hty
    cases h
    exact ⟨.nothing hty fun _ _ => rfl, fun _ _ => rfl⟩
  · cases h
    rfl

/-- The branches of `relocate_pltrel`. -/
theorem pltrelDefault_settled {taken : Bool}
    (h : image.pltrelDefault proc helper isLazy ref s = .ok taken s') :
    if taken then SettledStep proc image helper isLazy (.plt, ref) s.os.mem s'.os.mem
    else s'.os.mem = s.os.mem := by
  have hword : ¬ Copies proc (.plt, ref) := by simp [Copies]
  unfold DynamicImage.pltrelDefault at h
  rw [Exec.bind_of_ok (Exec.get_apply s)] at h
  dsimp only at h
  split at h
  · rename_i hty
    cases isLazy with
    | true =>
        cases h
        change SettledStep proc image helper true (.plt, ref) s.os.mem
          (writeWord s.os.mem (image.slot proc (.plt, ref)) _)
        exact settledStep_word hword fun _ => .lazySlot hty rfl
    | false =>
        rw [if_neg Bool.false_ne_true] at h
        obtain ⟨found, s₁, hfind, h⟩ := Exec.bind_ok_iff.mp h
        obtain ⟨hfind, hs⟩ := Exec.lift_ok_iff.mp hfind
        rw [hs] at h
        cases found with
        | none =>
            cases h
            exact ⟨.skipped hty rfl hfind fun _ _ => rfl, fun _ _ => rfl⟩
        | some found =>
            obtain ⟨v, idx⟩ := found
            dsimp only at h
            obtain ⟨_, s₂, hflag, h⟩ := Exec.bind_ok_iff.mp h
            cases h
            rw [← setFlag?_os hflag]
            change SettledStep proc image helper false (.plt, ref) s₂.os.mem
              (writeWord s₂.os.mem (image.slot proc (.plt, ref)) _)
            exact settledStep_word hword fun _ => .slot hty rfl hfind
  split at h
  · rename_i _ hty
    cases h
    change SettledStep proc image helper isLazy (.plt, ref) s.os.mem
      (writeWord s.os.mem (image.slot proc (.plt, ref)) _)
    exact settledStep_word hword fun _ => .irelative (by simp) hty
  · cases h
    rfl

/-! ## The handlers -/

omit [WordSize w] in
theorem accept_spec {answer : Answer} {again : Bool}
    (h : (Reloc.accept answer : Reloc w K P Q Bool) s = .ok again s') :
    s'.os = s.os ∧ (again = false → ∃ idx, answer = some (.ok idx)) := by
  cases answer with
  | none =>
      cases h
      exact ⟨rfl, nofun⟩
  | some answer =>
      cases answer with
      | error e => cases h
      | ok idx =>
          obtain ⟨_, s₁, hflag, h⟩ := Exec.bind_ok_iff.mp h
          cases h
          exact ⟨setFlag?_os hflag, fun _ => ⟨idx, rfl⟩⟩

omit [WordSize w] in
/-- Asking a handler does to the memory what the handler does. -/
theorem ask_spec {stage : Stage} {handler : Reloc w K P Q Answer} {again : Bool}
    (h : Reloc.ask stage ref handler s = .ok again s') :
    ∃ answer s₁ s₂, handler s₁ = .ok answer s₂ ∧ s₁.os = s.os ∧ s'.os = s₂.os ∧
      (again = false → ∃ idx, answer = some (.ok idx)) := by
  unfold Reloc.ask at h
  obtain ⟨_, s₁, hasked, h⟩ := Exec.bind_ok_iff.mp h
  cases hasked
  obtain ⟨answer, s₂, hhandler, h⟩ := Exec.bind_ok_iff.mp h
  obtain ⟨_, s₃, hanswered, h⟩ := Exec.bind_ok_iff.mp h
  cases hanswered
  obtain ⟨hos, htaken⟩ := accept_spec h
  exact ⟨answer, _, s₂, hhandler, rfl, hos, htaken⟩

omit [WordSize w] in
theorem handlePre_spec {ctx : RelocationContext w} {again : Bool}
    (hquiet : helper.preHandler.Quiet) (h : helper.handlePre ctx s = .ok again s') :
    s'.os.mem = s.os.mem ∧ (again = false → helper.preHandler.Takes ctx) := by
  obtain ⟨answer, s₁, s₂, hrun, hos, hos', htaken⟩ := ask_spec h
  unfold Reloc.onPre at hrun
  split at hrun
  · rename_i a pre mem hhandle
    cases hrun
    rw [hos', ← hos]
    refine ⟨hquiet _ _ _ _ _ _ hhandle, fun hagain => ?_⟩
    obtain ⟨idx, rfl⟩ := htaken hagain
    exact ⟨_, _, idx, hhandle⟩
  · cases hrun

omit [WordSize w] in
theorem handlePost_spec {ctx : RelocationContext w} {again : Bool}
    (hquiet : helper.postHandler.Quiet) (h : helper.handlePost ctx s = .ok again s') :
    s'.os.mem = s.os.mem ∧ (again = false → helper.postHandler.Takes ctx) := by
  obtain ⟨answer, s₁, s₂, hrun, hos, hos', htaken⟩ := ask_spec h
  unfold Reloc.onPost at hrun
  split at hrun
  · rename_i a post mem hhandle
    cases hrun
    rw [hos', ← hos]
    refine ⟨hquiet _ _ _ _ _ _ hhandle, fun hagain => ?_⟩
    obtain ⟨idx, rfl⟩ := htaken hagain
    exact ⟨_, _, idx, hhandle⟩
  · cases hrun

omit [WordSize w] in
/-- One iteration of either loop. -/
theorem relocStep_settled {part : Part} (hpart : part ≠ .relative)
    {default : RelRef w → Reloc w K P Q Bool} (hpre : helper.preHandler.Quiet)
    (hpost : helper.postHandler.Quiet)
    (hdefault : ∀ {s s' taken}, default ref s = .ok taken s' →
      if taken then SettledStep proc image helper isLazy (part, ref) s.os.mem s'.os.mem
      else s'.os.mem = s.os.mem)
    (h : image.relocStep proc helper default ref s = .ok () s') :
    SettledStep proc image helper isLazy (part, ref) s.os.mem s'.os.mem := by
  have hhandled : ∀ {m : Bytes w}, m = s.os.mem →
      helper.preHandler.Takes (helper.context image.core ref) ∨
        helper.postHandler.Takes (helper.context image.core ref) →
      SettledStep proc image helper isLazy (part, ref) s.os.mem m := by
    rintro m rfl htaken
    exact ⟨.handled hpart htaken fun _ _ => rfl, fun _ _ => rfl⟩
  obtain ⟨again, s₁, hasked, h⟩ := Exec.bind_ok_iff.mp h
  obtain ⟨hmem, htaken⟩ := handlePre_spec hpre hasked
  cases again with
  | false =>
      cases h
      exact hhandled hmem (.inl (htaken rfl))
  | true =>
      obtain ⟨taken, s₂, hrun, h⟩ := Exec.bind_ok_iff.mp h
      have hstep := hdefault hrun
      rw [hmem] at hstep
      cases taken with
      | true =>
          cases h
          exact hstep
      | false =>
          -- the default logic has declined
          obtain ⟨again, s₃, hoffered, h⟩ := Exec.bind_ok_iff.mp h
          obtain ⟨hmem', htaken'⟩ := handlePost_spec hpost hoffered
          cases again with
          | false =>
              cases h
              exact hhandled (hmem'.trans hstep) (.inr (htaken' rfl))
          | true =>
              obtain ⟨_, s₄, _, h⟩ := Exec.bind_ok_iff.mp h
              obtain ⟨e, s₅, _, h⟩ := Exec.bind_ok_iff.mp h
              cases h

end Steps

/-! ## From the step to the run -/

section Transfer

variable {proc : Process w K} {image : DynamicImage proc.arch} {helper : RelocHelper w P Q}
  {isLazy : Bool} {stable : Set (BitVec w)} {m m' before after : Bytes w}

theorem readWord_place {x : Part × RelRef w} (hx : ¬ Copies proc x)
    (h : ∀ a ∈ image.place proc x, m' a = m a) :
    readWord m' (image.slot proc x) = readWord m (image.slot proc x) :=
  readWord_congr fun a ha => h a ((word_place hx a).mpr ha)

theorem addend_place {x : Part × RelRef w} (hx : ¬ Copies proc x)
    (h : ∀ a ∈ image.place proc x, m' a = m a) :
    x.2.rel.addend proc.arch image.core.base m' = x.2.rel.addend proc.arch image.core.base m := by
  have hslot : x.2.rel.rOffset + image.core.base = image.slot proc x := BitVec.add_comm _ _
  unfold ElfRelType.addend
  rw [hslot, readWord_place hx h]

/-- What a step leaves is left by every run in which the step finds the memory of the
start at its place, and nothing changes the place afterwards. -/
theorem Settled.transfer {x : Part × RelRef w}
    (h : Settled proc image helper isLazy Set.univ before after x)
    (hfound : ∀ a ∈ image.place proc x, before a = m a)
    (hkept : ∀ a ∈ image.place proc x, m' a = after a) (hstable : ∀ a ∈ stable, before a = m a) :
    Settled proc image helper isLazy stable m m' x := by
  cases h with
  | @relative ref h =>
      have hx : ¬ Copies proc (.relative, ref) := by simp [Copies]
      refine .relative ?_
      rw [readWord_place hx hkept, h, addend_place hx hfound]
  | @symbol ref v idx hty hfind h =>
      have hx : ¬ Copies proc (.dyn, ref) :=
        not_copies_of_ne (proc.arch.addr_type_ne hty).2.2.2.2.2
      refine .symbol hty hfind ?_
      rw [readWord_place hx hkept, h, addend_place hx hfound]
  | @tls ref symdef sym idx hty hfind hsym h =>
      have hx : ¬ Copies proc (.dyn, ref) := not_copies_of_ne fun hcopy =>
        proc.arch.copy_ne_dtpoff (hcopy.symm.trans hty)
      refine .tls hty hfind hsym ?_
      rw [readWord_place hx hkept, h, addend_place hx hfound]
  | @copy ref symdef sym idx own hty hfind hsym hown h =>
      have hfit := Nat.le_of_lt own.1.sym.stSize.isLt
      refine .copy hty hfind hsym hown fun hsource => ?_
      calc read m' (image.slot proc (.dyn, ref)) own.1.sym.stSize.toNat
          = read after (image.slot proc (.dyn, ref)) own.1.sym.stSize.toNat :=
            read_congr hfit fun a ha => hkept a ((copy_place hty hown a).mpr ha)
        _ = read before (symdef.lib.base + sym.sym.stValue) own.1.sym.stSize.toNat :=
            h fun _ _ => Set.mem_univ _
        _ = read m (symdef.lib.base + sym.sym.stValue) own.1.sym.stSize.toNat :=
            read_congr hfit fun a ha => hstable a (hsource a ha)
  | @irelative part ref hpart hty h =>
      have hx : ¬ Copies proc (part, ref) := irelative_not_copies hty
      refine .irelative hpart hty ?_
      rw [readWord_place hx hkept, h, addend_place hx hfound]
  | nothing hty h =>
      exact .nothing hty fun a ha => by rw [hkept a ha, h a ha, hfound a ha]
  | @slot ref v idx hty hlazy hfind h =>
      have hx : ¬ Copies proc (.plt, ref) := by simp [Copies]
      refine .slot hty hlazy hfind ?_
      rw [readWord_place hx hkept, h]
  | skipped hty hlazy hfind h =>
      exact .skipped hty hlazy hfind fun a ha => by rw [hkept a ha, h a ha, hfound a ha]
  | @lazySlot ref hty hlazy h =>
      have hx : ¬ Copies proc (.plt, ref) := by simp [Copies]
      refine .lazySlot hty hlazy ?_
      rw [readWord_place hx hkept, h, readWord_place hx hfound]
  | handled hpart htaken h =>
      exact .handled hpart htaken fun a ha => by rw [hkept a ha, h a ha, hfound a ha]

end Transfer

section Run

variable {proc : Process w K} {image : DynamicImage proc.arch} {helper : RelocHelper w P Q}
  {isLazy : Bool} {s s' : RelocState w K P Q}

/-- A loop over entries of one pass. -/
theorem forM_steps {part : Part} {body : RelRef w → Reloc w K P Q Unit}
    (hbody : ∀ {ref s s'}, body ref s = .ok () s' →
      SettledStep proc image helper isLazy (part, ref) s.os.mem s'.os.mem)
    {refs : List (RelRef w)} (h : refs.forM body s = .ok () s') :
    Steps (SettledStep proc image helper isLazy) (refs.map fun ref => (part, ref)) s.os.mem
      s'.os.mem := by
  induction refs generalizing s with
  | nil =>
      cases h
      exact .nil
  | cons ref refs ih =>
      obtain ⟨s₁, hhead, hrest⟩ := Exec.forM_cons_ok_iff.mp h
      exact .cons (hbody hhead) (ih hrest)

/-- The memory around the end of `relocate_pltrel`. -/
def AfterPltrel (proc : Process w K) (image : DynamicImage proc.arch) (isLazy : Bool)
    (m m' : Bytes w) : Prop :=
  if isLazy = true ∧ image.relocation.pltrel ≠ [] then
    ∃ got, image.gotPlt = some got ∧ m' =
      writeWord (writeWord m (moduleSlot proc got) (proc.coreAddr image.core.id))
        (resolverSlot proc got) proc.dlRuntimeResolve
  else m' = m

/-- The end of `relocate_pltrel`, where protecting pages changes no byte. -/
theorem afterPltrel_mem {lazyScope : Option (LazyScope w)}
    (hprotect : ∀ {addr len prot os u os'}, proc.mmap.mprotect addr len prot os = .ok u os' →
      os'.mem = os.mem)
    (h : image.afterPltrel proc isLazy lazyScope s = .ok () s') :
    AfterPltrel proc image isLazy s.os.mem s'.os.mem := by
  unfold AfterPltrel
  unfold DynamicImage.afterPltrel at h
  cases isLazy with
  | false =>
      rw [if_neg (by simp)]
      cases hrelro : image.relro with
      | none =>
          rw [hrelro] at h
          cases h
          rfl
      | some relro =>
          rw [hrelro] at h
          change DynamicImage.applyRelro proc relro s = _ at h
          unfold DynamicImage.applyRelro at h
          dsimp only at h
          split at h
          · rename_i hrun
            cases h
            exact hprotect hrun
          · cases h
  | true =>
      cases hplt : image.relocation.pltrel with
      | nil =>
          rw [if_neg (by simp)]
          rw [hplt] at h
          cases lazyScope with
          | none =>
              cases h
              rfl
          | some scope =>
              cases h
              rfl
      | cons ref refs =>
          rw [if_pos ⟨rfl, List.cons_ne_nil _ _⟩]
          rw [hplt] at h
          cases hgot : image.gotPlt with
          | none =>
              rw [hgot] at h
              cases h
          | some got =>
              rw [hgot] at h
              cases lazyScope with
              | none => cases h
              | some scope =>
                  cases h
                  exact ⟨got, rfl, rfl⟩

/-- The passes, up to the end of `relocate_pltrel`. -/
theorem passes_steps [WordSize w] {lazyScope : Option (LazyScope w)} {rels : List (RelRef w)}
    (hrelative : image.relocation.relative = .rel rels) (hpre : helper.preHandler.Quiet)
    (hpost : helper.postHandler.Quiet)
    (h : image.passes proc helper isLazy lazyScope s = .ok () s') :
    ∃ s₁ s₂ : RelocState w K P Q,
      Steps (SettledStep proc image helper isLazy) (image.items proc) s.os.mem s₁.os.mem ∧
      image.afterPltrel proc isLazy lazyScope s₁ = .ok () s₂ ∧ s'.os = s₂.os := by
  unfold DynamicImage.passes at h
  obtain ⟨_, s₁, hrel, h⟩ := Exec.bind_ok_iff.mp h
  obtain ⟨_, s₂, hdyn, h⟩ := Exec.bind_ok_iff.mp h
  obtain ⟨_, s₄, hplt, h⟩ := Exec.bind_ok_iff.mp h
  cases h
  unfold DynamicImage.relocatePltrel at hplt
  obtain ⟨_, s₃, hloop, hafter⟩ := Exec.bind_ok_iff.mp hplt
  unfold DynamicImage.relocateRelative at hrel
  rw [hrelative] at hrel
  dsimp only at hrel
  split at hrel
  · have hfirst : Steps (SettledStep proc image helper isLazy)
        (rels.map fun ref => (.relative, ref)) s.os.mem s₁.os.mem :=
      forM_steps relativeStep_settled hrel
    have hsecond : Steps (SettledStep proc image helper isLazy)
        (image.relocation.dynrel.map fun ref => (.dyn, ref)) s₁.os.mem s₂.os.mem :=
      forM_steps (relocStep_settled (by simp) hpre hpost dynrelDefault_settled) hdyn
    have hthird : Steps (SettledStep proc image helper isLazy)
        (image.relocation.pltrel.map fun ref => (.plt, ref)) s₂.os.mem s₃.os.mem :=
      forM_steps (relocStep_settled (by simp) hpre hpost pltrelDefault_settled) hloop
    refine ⟨s₃, s₄, ?_, hafter, rfl⟩
    unfold DynamicImage.items
    rw [hrelative]
    exact (hfirst.append hsecond).append hthird
  · cases hrel

/-- The memory around the passes. -/
theorem relocatedMemory_of_steps [WordSize w] {m m₁ m' : Bytes w}
    (hsteps : Steps (SettledStep proc image helper isLazy) (image.items proc) m m₁)
    (hafter : AfterPltrel proc image isLazy m₁ m')
    (hdisj : (image.items proc).Pairwise fun x y =>
      Disjoint (image.place proc x) (image.place proc y))
    (hreserved : ∀ x ∈ image.items proc,
      Disjoint (image.place proc x) (image.reserved proc isLazy)) :
    RelocatedMemory proc image helper isLazy m m' := by
  unfold AfterPltrel at hafter
  have hlocal : Local (image.place proc) (SettledStep proc image helper isLazy) :=
    fun _ _ _ h => h.2
  have hkept : ∀ a ∉ image.reserved proc isLazy, m' a = m₁ a := by
    intro a ha
    split at hafter
    · rename_i hlazy
      obtain ⟨got, hgot, rfl⟩ := hafter
      rw [writeWord_of_not_within fun hin => ha ⟨hlazy.1, hlazy.2, got, hgot, .inl hin⟩,
        writeWord_of_not_within fun hin => ha ⟨hlazy.1, hlazy.2, got, hgot, .inr hin⟩]
    · rw [hafter]
  refine ⟨fun x hx => ?_, fun a ha => ?_, fun hlazy hplt => ?_⟩
  · obtain ⟨before, after, hstep, haround⟩ := hsteps.around hlocal hdisj hx
    refine hstep.1.transfer haround.found (fun a ha => ?_) fun a ha => haround.outside a ha.1
    rw [hkept a (Set.disjoint_left.mp (hreserved x hx) ha), haround.kept a ha]
  · rw [hkept a ha.2, hsteps.frame hlocal ha.1]
  · rw [if_pos ⟨hlazy, hplt⟩] at hafter
    obtain ⟨got, hgot, rfl⟩ := hafter
    refine ⟨got, hgot, readWord_writeWord _ _ _ (WordSize.mod_eight w), fun hapart => ?_⟩
    rw [readWord_congr fun a ha => writeWord_of_not_within (hapart a ha),
      readWord_writeWord _ _ _ (WordSize.mod_eight w)]

/-- The entries one after the other, and the end of `relocate_pltrel`. -/
theorem run_steps [WordSize w] {lazy : Option Bool} {lazyScope : Option (SymbolLookup w)}
    {os : OsState w K} {pre : P} {post : Q} {loaded : LoadedCore w} {rels : List (RelRef w)}
    (hrelative : image.relocation.relative = .rel rels) (hpre : helper.preHandler.Quiet)
    (hpost : helper.postHandler.Quiet)
    (hprotect : ∀ {addr len prot os u os'}, proc.mmap.mprotect addr len prot os = .ok u os' →
      os'.mem = os.mem)
    (hrun : image.run proc helper lazy lazyScope os pre post = .ok loaded s') : ∃ m,
    Steps (SettledStep proc image helper (lazy.getD image.lazy)) (image.items proc) os.mem m ∧
      AfterPltrel proc image (lazy.getD image.lazy) m s'.os.mem := by
  cases hempty : image.relocation.isEmpty with
  | true =>
      rw [run_of_empty image helper lazy lazyScope os pre post hempty] at hrun
      cases hrun
      unfold DynamicRelocation.isEmpty at hempty
      rw [hrelative] at hempty
      simp only [Bool.and_eq_true, List.isEmpty_iff] at hempty
      obtain ⟨⟨hrels, hdyn⟩, hplt⟩ := hempty
      have hitems : image.items proc = [] := by
        unfold DynamicImage.items
        rw [hrelative, hdyn, hplt, hrels]
        rfl
      refine ⟨os.mem, hitems ▸ .nil, ?_⟩
      unfold AfterPltrel
      rw [if_neg fun h => h.2 hplt]
      rfl
  | false =>
      unfold DynamicImage.run at hrun
      rw [relocateImpl_eq image helper lazy lazyScope _ hempty] at hrun
      split at hrun
      · rename_i hpasses
        cases hrun
        obtain ⟨s₁, s₂, hsteps, hafter, hos⟩ := passes_steps hrelative hpre hpost hpasses
        rw [hos]
        exact ⟨_, hsteps, afterPltrel_mem hprotect hafter⟩
      · cases hrun

end Run

/-! ## Runs that look up no symbol -/

/-- A handler that takes no entry. -/
def RelocationHandler.Declines (handler : RelocationHandler w P) : Prop :=
  ∀ ctx s, handler.handle ctx s = .ok none s

theorem RelocationHandler.Declines.quiet {handler : RelocationHandler w P}
    (h : handler.Declines) : handler.Quiet := by
  intro ctx p m answer p' m' hrun
  rw [h ctx (p, m)] at hrun
  cases hrun
  rfl

/-- An entry whose step needs no symbol where slots are bound lazily. -/
inductive NeedsNoSymbol (proc : Process w K) : Part × RelRef w → Prop
  | relative {ref} (hty : ref.rel.rType = proc.arch.relRelative) :
      NeedsNoSymbol proc (.relative, ref)
  | irelative {part ref} (hpart : part ≠ .relative) (hty : ref.rel.rType = proc.arch.relIrelative) :
      NeedsNoSymbol proc (part, ref)
  | slot {ref} (hty : ref.rel.rType = proc.arch.relJumpSlot) : NeedsNoSymbol proc (.plt, ref)

section Returns

variable {proc : Process w K} {image : DynamicImage proc.arch} {helper : RelocHelper w P Q}
  {ref : RelRef w}

theorem forM_returns {α : Type} {body : α → Reloc w K P Q Unit} {l : List α}
    (hbody : ∀ a ∈ l, ∀ s, ∃ s', body a s = .ok () s') (s : RelocState w K P Q) :
    ∃ s', l.forM body s = .ok () s' := by
  induction l generalizing s with
  | nil => exact ⟨s, rfl⟩
  | cons a l ih =>
      obtain ⟨s₁, hhead⟩ := hbody a List.mem_cons_self s
      obtain ⟨s', hrest⟩ := ih (fun b hb => hbody b (List.mem_cons_of_mem _ hb)) s₁
      exact ⟨s', Exec.forM_cons_ok_iff.mpr ⟨s₁, hhead, hrest⟩⟩

theorem dynrelDefault_returns (hneeds : NeedsNoSymbol proc (.dyn, ref))
    (s : RelocState w K P Q) : ∃ s', image.dynrelDefault proc helper ref s = .ok true s' := by
  cases hneeds with
  | irelative _ hty =>
      have hother := proc.arch.not_mem_symbolTypes.2.2
      rw [← hty] at hother
      simp only [Arch.symbolTypes, List.mem_cons, List.not_mem_nil, or_false, not_or] at hother
      unfold DynamicImage.dynrelDefault
      rw [Exec.bind_of_ok (Exec.get_apply s)]
      dsimp only
      rw [if_neg (by tauto), if_neg (by tauto), if_neg (by tauto), if_pos hty]
      exact ⟨_, rfl⟩

theorem pltrelDefault_returns (hneeds : NeedsNoSymbol proc (.plt, ref))
    (s : RelocState w K P Q) :
    ∃ s', image.pltrelDefault proc helper true ref s = .ok true s' := by
  unfold DynamicImage.pltrelDefault
  rw [Exec.bind_of_ok (Exec.get_apply s)]
  dsimp only
  cases hneeds with
  | irelative _ hty =>
      rw [if_neg fun h => proc.arch.irelative_ne_jumpSlot (hty.symm.trans h), if_pos hty]
      exact ⟨_, rfl⟩
  | slot hty =>
      rw [if_pos hty, if_pos rfl]
      exact ⟨_, rfl⟩

/-- Where the pre handler declines and the default logic takes the entry. -/
theorem relocStep_returns {default : RelRef w → Reloc w K P Q Bool}
    (hpre : helper.preHandler.Declines) (hdefault : ∀ s, ∃ s', default ref s = .ok true s')
    (s : RelocState w K P Q) : ∃ s', image.relocStep proc helper default ref s = .ok () s' := by
  have hasked : ∃ s', helper.handlePre (helper.context image.core ref) s = .ok true s' := by
    have hhandler : ∀ s : RelocState w K P Q, Reloc.onPre (helper.preHandler.handle
        (helper.context image.core ref)) s = .ok none s := by
      intro s
      unfold Reloc.onPre
      rw [hpre]
    exact ⟨_, Exec.bind_ok_iff.mpr ⟨(), _, rfl, Exec.bind_ok_iff.mpr
      ⟨none, _, hhandler _, Exec.bind_ok_iff.mpr ⟨(), _, rfl, rfl⟩⟩⟩⟩
  obtain ⟨s₁, hasked⟩ := hasked
  obtain ⟨s', htaken⟩ := hdefault s₁
  exact ⟨s', Exec.bind_ok_iff.mpr ⟨true, s₁, hasked, Exec.bind_ok_iff.mpr ⟨true, s', htaken, rfl⟩⟩⟩

theorem afterPltrel_returns (hgot : image.relocation.pltrel ≠ [] → image.gotPlt ≠ none)
    (scope : LazyScope w) (s : RelocState w K P Q) :
    ∃ s', image.afterPltrel proc true (some scope) s = .ok () s' := by
  unfold DynamicImage.afterPltrel
  cases hplt : image.relocation.pltrel with
  | nil => exact ⟨_, rfl⟩
  | cons ref refs =>
      obtain ⟨got, hsome⟩ := Option.ne_none_iff_exists'.mp (hgot (by rw [hplt]; simp))
      rw [hsome]
      exact ⟨_, rfl⟩

theorem relocateRelative_returns {rels : List (RelRef w)}
    (hrelative : image.relocation.relative = .rel rels)
    (hneeds : ∀ ref ∈ rels, NeedsNoSymbol proc (.relative, ref)) (s : RelocState w K P Q) :
    ∃ s', image.relocateRelative proc s = .ok () s' := by
  have hfirst : rels.head?.all (fun ref => ref.rel.rType = proc.arch.relRelative) = true := by
    cases rels with
    | nil => rfl
    | cons ref rels =>
        cases hneeds ref List.mem_cons_self with
        | relative hty => exact decide_eq_true hty
        | irelative hpart => exact absurd rfl hpart
  unfold DynamicImage.relocateRelative
  rw [hrelative]
  dsimp only
  rw [if_pos hfirst]
  exact forM_returns (fun _ _ _ => ⟨_, rfl⟩) s

theorem passes_returns {rels : List (RelRef w)}
    (hrelative : image.relocation.relative = .rel rels) (hpre : helper.preHandler.Declines)
    (hneeds : ∀ x ∈ image.items proc, NeedsNoSymbol proc x)
    (hgot : image.relocation.pltrel ≠ [] → image.gotPlt ≠ none) (scope : LazyScope w)
    (s : RelocState w K P Q) : ∃ s', image.passes proc helper true (some scope) s = .ok () s' := by
  unfold DynamicImage.items at hneeds
  rw [hrelative] at hneeds
  simp only [List.mem_append, List.mem_map] at hneeds
  obtain ⟨s₁, hrel⟩ := relocateRelative_returns hrelative
    (fun ref href => hneeds _ (.inl (.inl ⟨ref, href, rfl⟩))) s
  obtain ⟨s₂, hdyn⟩ : ∃ s', image.relocateDynrel proc helper s₁ = .ok () s' :=
    forM_returns (fun ref href => relocStep_returns hpre
      (dynrelDefault_returns (hneeds _ (.inl (.inr ⟨ref, href, rfl⟩))))) s₁
  obtain ⟨s₃, hplt⟩ : ∃ s', image.relocation.pltrel.forM (image.relocStep proc helper
      (image.pltrelDefault proc helper true)) s₂ = .ok () s' :=
    forM_returns (fun ref href => relocStep_returns hpre
      (pltrelDefault_returns (hneeds _ (.inr ⟨ref, href, rfl⟩)))) s₂
  obtain ⟨s₄, hafter⟩ := afterPltrel_returns hgot scope s₃
  exact ⟨_, Exec.bind_ok_iff.mpr ⟨(), s₁, hrel, Exec.bind_ok_iff.mpr ⟨(), s₂, hdyn,
    Exec.bind_ok_iff.mpr ⟨(), s₄, Exec.bind_ok_iff.mpr ⟨(), s₃, hplt, hafter⟩, rfl⟩⟩⟩⟩

/-- A lazy run over entries that need no symbol always returns. -/
theorem lazy_run_returns {lazy : Option Bool} (hlazy : lazy.getD image.lazy = true)
    {rels : List (RelRef w)}
    (hrelative : image.relocation.relative = .rel rels) (hpre : helper.preHandler.Declines)
    (hneeds : ∀ x ∈ image.items proc, NeedsNoSymbol proc x)
    (hgot : image.relocation.pltrel ≠ [] → image.gotPlt ≠ none)
    (lazyScope : Option (SymbolLookup w)) (os : OsState w K) (pre : P) (post : Q) :
    ∃ loaded s', image.run proc helper lazy lazyScope os pre post = .ok loaded s' := by
  cases hempty : image.relocation.isEmpty with
  | true => exact ⟨_, _, run_of_empty image helper _ lazyScope os pre post hempty⟩
  | false =>
      unfold DynamicImage.run
      rw [relocateImpl_eq image helper _ lazyScope _ hempty, hlazy]
      obtain ⟨s', hpasses⟩ := passes_returns hrelative hpre hneeds hgot _
        { RelocState.start os pre post with
          dependencyFlags := List.replicate helper.scope.length false }
      unfold DynamicImage.makeLazyScope
      rw [if_pos rfl, hpasses]
      exact ⟨_, _, rfl⟩

end Returns

end Memory

section Sample

attribute [local instance] constantHasher

end Sample

end ElfLoader
