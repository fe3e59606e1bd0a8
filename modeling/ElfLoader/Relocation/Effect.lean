import ElfLoader.Relocation.Dynamic

/-! # What the passes do, entry by entry

The effect of one iteration is the list of events it appends, the flags it
leaves and how it ends. The relations below list every effect an iteration can
have; a loop's effect is a sequence of them. The passes of the model have these
effects, and everything said about whole runs is derived from the relations.
-/

namespace ElfLoader

variable {w : Nat} {K P Q : Type}

/-- How an iteration or a loop ends. -/
inductive Ending where
  | done
  | stop (h : Halt)

/-- What the default logic makes of an entry. -/
inductive Verdict where
  | taken
  | declined
  | stop (h : Halt)

def setFlags (flags : List Bool) : Option Nat → List Bool
  | some i => flags.set i true
  | none => flags

@[simp] theorem setFlags_length (flags : List Bool) (idx : Option Nat) :
    (setFlags flags idx).length = flags.length := by
  cases idx with
  | none => rfl
  | some i => simp [setFlags]

theorem setFlags_mono {flags : List Bool} {i : Nat} (idx : Option Nat)
    (h : flags[i]? = some true) : (setFlags flags idx)[i]? = some true := by
  cases idx with
  | none => exact h
  | some j =>
      simp only [setFlags, List.getElem?_set]
      split
      · rename_i hji
        rw [hji, if_pos (List.getElem?_eq_some_iff.mp h).1]
      · exact h

theorem setFlags_self {flags : List Bool} {i : Nat} (h : i < flags.length) :
    (setFlags flags (some i))[i]? = some true := by
  simp [setFlags, h]

theorem setFlags_cases {flags : List Bool} {idx : Option Nat} {i : Nat}
    (h : (setFlags flags idx)[i]? = some true) : flags[i]? = some true ∨ idx = some i := by
  cases idx with
  | none => exact .inl h
  | some j =>
      simp only [setFlags, List.getElem?_set] at h
      split at h
      · rename_i hji
        exact .inr (by rw [hji])
      · exact .inl h

variable [CustomHasher]

section Relations

variable (proc : Process w K) (image : DynamicImage proc.arch) (helper : RelocHelper w P Q)

/-- The symbol of an entry cannot be resolved by the default logic. -/
def Unresolved (ref : RelRef w) : Prop :=
  ((ref.rel.rType = proc.arch.relGot ∨ ref.rel.rType = proc.arch.relSymbolic ∨
      ref.rel.rType = proc.arch.relJumpSlot) ∧ image.findAddr proc helper ref = .ok none) ∨
    ((ref.rel.rType = proc.arch.relDtpoff ∨ ref.rel.rType = proc.arch.relCopy) ∧
      image.findDef proc helper ref = .ok none)

/-- The default logic of `relocate_dynrel` on one entry. -/
inductive DynEffect (ref : RelRef w) (flags : List Bool) :
    List (Event w) → List Bool → Verdict → Prop
  | addr {v idx m}
      (hty : ref.rel.rType = proc.arch.relGot ∨ ref.rel.rType = proc.arch.relSymbolic)
      (hfind : image.findAddr proc helper ref = .ok (some (v, idx)))
      (hidx : ∀ i, idx = some i → i < flags.length) :
      DynEffect ref flags
        [.stored ref m (image.core.base + ref.rel.rOffset)
          (v + ref.rel.addend proc.arch image.core.base m)]
        (setFlags flags idx) .taken
  | tls {symdef sym idx m} (hty : ref.rel.rType = proc.arch.relDtpoff)
      (hfind : image.findDef proc helper ref = .ok (some (symdef, idx)))
      (hidx : ∀ i, idx = some i → i < flags.length) (hsym : symdef.sym = some sym) :
      DynEffect ref flags
        [.stored ref m (image.core.base + ref.rel.rOffset)
          (sym.sym.stValue + ref.rel.addend proc.arch image.core.base m - proc.arch.tlsDtvOffset)]
        (setFlags flags idx) .taken
  | copy {symdef sym idx own} (hty : ref.rel.rType = proc.arch.relCopy)
      (hfind : image.findDef proc helper ref = .ok (some (symdef, idx)))
      (hidx : ∀ i, idx = some i → i < flags.length) (hsym : symdef.sym = some sym)
      (hown : image.core.symtab.symbolIdx ref.rel.rSymbol = .ok own) :
      DynEffect ref flags
        [.copied ref (image.core.base + ref.rel.rOffset) (symdef.lib.base + sym.sym.stValue)
          own.1.sym.stSize.toNat]
        (setFlags flags idx) .taken
  | irelative {m} (hty : ref.rel.rType = proc.arch.relIrelative) :
      DynEffect ref flags
        [.stored ref m (image.core.base + ref.rel.rOffset)
          (proc.ifunc (image.core.base + ref.rel.addend proc.arch image.core.base m))]
        flags .taken
  | nothing (hty : ref.rel.rType = relNone) : DynEffect ref flags [] flags .taken
  | unresolved (hty : ref.rel.rType ≠ proc.arch.relJumpSlot)
      (hres : Unresolved proc image helper ref) : DynEffect ref flags [] flags .declined
  | unknown (hty : ref.rel.rType ∉ [proc.arch.relGot, proc.arch.relSymbolic, proc.arch.relDtpoff,
      proc.arch.relCopy, proc.arch.relIrelative, relNone]) : DynEffect ref flags [] flags .declined
  | stop {h flags'} (hty : ref.rel.rType ∈ [proc.arch.relGot, proc.arch.relSymbolic,
        proc.arch.relDtpoff, proc.arch.relCopy])
      (hres : ¬ Unresolved proc image helper ref) : DynEffect ref flags [] flags' (.stop h)

/-- The default logic of `relocate_pltrel` on one entry. -/
inductive PltEffect (isLazy : Bool) (ref : RelRef w) (flags : List Bool) :
    List (Event w) → List Bool → Verdict → Prop
  | lazySlot (hty : ref.rel.rType = proc.arch.relJumpSlot) (hlazy : isLazy = true) :
      PltEffect isLazy ref flags [.rebased ref (image.core.base + ref.rel.rOffset)] flags .taken
  | slot {v idx m} (hty : ref.rel.rType = proc.arch.relJumpSlot) (hlazy : isLazy = false)
      (hfind : image.findAddr proc helper ref = .ok (some (v, idx)))
      (hidx : ∀ i, idx = some i → i < flags.length) :
      PltEffect isLazy ref flags [.stored ref m (image.core.base + ref.rel.rOffset) v]
        (setFlags flags idx) .taken
  | skipped (hty : ref.rel.rType = proc.arch.relJumpSlot) (hlazy : isLazy = false)
      (hfind : image.findAddr proc helper ref = .ok none) :
      PltEffect isLazy ref flags [] flags .taken
  | irelative {m} (hty : ref.rel.rType = proc.arch.relIrelative) :
      PltEffect isLazy ref flags
        [.stored ref m (image.core.base + ref.rel.rOffset)
          (proc.ifunc (image.core.base + ref.rel.addend proc.arch image.core.base m))]
        flags .taken
  | unknown (hty : ref.rel.rType ∉ [proc.arch.relJumpSlot, proc.arch.relIrelative]) :
      PltEffect isLazy ref flags [] flags .declined
  | stop {h flags'} (hty : ref.rel.rType = proc.arch.relJumpSlot) (hlazy : isLazy = false)
      (hres : image.findAddr proc helper ref ≠ .ok none) :
      PltEffect isLazy ref flags [] flags' (.stop h)

/-- Asking a handler about an entry. -/
inductive AskEffect (stage : Stage) (ref : RelRef w) (flags : List Bool) :
    List (Event w) → List Bool → Verdict → Prop
  | stop {h} : AskEffect stage ref flags [.asked stage ref] flags (.stop h)
  | error {e} :
      AskEffect stage ref flags [.asked stage ref, .answered stage ref (some (.error e))] flags
        (.stop (.err e))
  | taken {idx} (hidx : ∀ i, idx = some i → i < flags.length) :
      AskEffect stage ref flags [.asked stage ref, .answered stage ref (some (.ok idx))]
        (setFlags flags idx) .taken
  | index {i} (hidx : flags.length ≤ i) :
      AskEffect stage ref flags [.asked stage ref, .answered stage ref (some (.ok (some i)))] flags
        (.stop (.panic "index out of bounds"))
  | declined :
      AskEffect stage ref flags [.asked stage ref, .answered stage ref none] flags .declined

/-- The effects of a default logic on entries. -/
abbrev Default (w : Nat) := RelRef w → List Bool → List (Event w) → List Bool → Verdict → Prop

/-- The end of an iteration that the default logic declined. -/
inductive OfferEffect (ref : RelRef w) (flags : List Bool) :
    List (Event w) → List Bool → Ending → Prop
  | taken {es flags'} (hpost : AskEffect .post ref flags es flags' .taken) :
      OfferEffect ref flags es flags' .done
  | stop {es flags' h} (hpost : AskEffect .post ref flags es flags' (.stop h)) :
      OfferEffect ref flags es flags' (.stop h)
  | unhandled {es flags' h} (hpost : AskEffect .post ref flags es flags' .declined)
      (herr : Unresolved proc image helper ref → ∃ e, h = .err e) :
      OfferEffect ref flags (es ++ [.unhandled ref]) flags' (.stop h)

/-- One iteration of a loop with the default logic `D`. -/
inductive StepEffect (D : Default w) (ref : RelRef w) (flags : List Bool) :
    List (Event w) → List Bool → Ending → Prop
  | pre {es flags'} (hpre : AskEffect .pre ref flags es flags' .taken) :
      StepEffect D ref flags es flags' .done
  | preStop {es flags' h} (hpre : AskEffect .pre ref flags es flags' (.stop h)) :
      StepEffect D ref flags es flags' (.stop h)
  | taken {es ds flags₁ flags'} (hpre : AskEffect .pre ref flags es flags₁ .declined)
      (hD : D ref flags₁ ds flags' .taken) : StepEffect D ref flags (es ++ ds) flags' .done
  | defaultStop {es ds flags₁ flags' h} (hpre : AskEffect .pre ref flags es flags₁ .declined)
      (hD : D ref flags₁ ds flags' (.stop h)) :
      StepEffect D ref flags (es ++ ds) flags' (.stop h)
  | offered {es ds es' flags₁ flags₂ flags' ending}
      (hpre : AskEffect .pre ref flags es flags₁ .declined)
      (hD : D ref flags₁ ds flags₂ .declined)
      (hpost : OfferEffect proc image helper ref flags₂ es' flags' ending) :
      StepEffect D ref flags (es ++ ds ++ es') flags' ending

/-- A loop: iterations that are done, and at most one that stops. -/
inductive LoopEffect (D : Default w) : List (RelRef w) → List Bool →
    List (Event w) → List Bool → Ending → Prop
  | nil {flags} : LoopEffect D [] flags [] flags .done
  | step {ref refs flags flags₁ flags' es es' ending}
      (h : StepEffect proc image helper D ref flags es flags₁ .done)
      (t : LoopEffect D refs flags₁ es' flags' ending) :
      LoopEffect D (ref :: refs) flags (es ++ es') flags' ending
  | stop {ref refs flags flags' es x}
      (h : StepEffect proc image helper D ref flags es flags' (.stop x)) :
      LoopEffect D (ref :: refs) flags es flags' (.stop x)

end Relations

/-! ## The model has these effects -/

def ending {α σ : Type} : EStateM.Result Halt σ α → Ending
  | .ok _ _ => .done
  | .error h _ => .stop h

/-- The verdict of a computation that returns `took` when the entry was taken. -/
def verdict {σ : Type} (took : Bool) : EStateM.Result Halt σ Bool → Verdict
  | .ok b _ => if b = took then .taken else .declined
  | .error h _ => .stop h

/-- The state `s'` is `s` with the events `es` appended. -/
def Appends (s : RelocState w K P Q) (es : List (Event w)) (s' : RelocState w K P Q) : Prop :=
  s'.trace = s.trace ++ es

theorem Appends.trans {s s₁ s₂ : RelocState w K P Q} {es es' : List (Event w)}
    (h : Appends s es s₁) (h' : Appends s₁ es' s₂) : Appends s (es ++ es') s₂ := by
  unfold Appends at *
  rw [h', h, List.append_assoc]

theorem setFlag?_of_lt {s : RelocState w K P Q} {idx : Option Nat}
    (h : ∀ i, idx = some i → i < s.dependencyFlags.length) :
    (Reloc.setFlag? idx : Reloc w K P Q Unit) s =
      .ok () { s with dependencyFlags := setFlags s.dependencyFlags idx } := by
  cases idx with
  | none => rfl
  | some i =>
      change (if i < s.dependencyFlags.length then _ else _ : Reloc w K P Q Unit) s = _
      rw [if_pos (h i rfl)]
      rfl

theorem setFlag?_of_le {s : RelocState w K P Q} {i : Nat} (h : s.dependencyFlags.length ≤ i) :
    (Reloc.setFlag? (some i) : Reloc w K P Q Unit) s =
      .error (.panic "index out of bounds") s := by
  change (if i < s.dependencyFlags.length then _ else _ : Reloc w K P Q Unit) s = _
  rw [if_neg (Nat.not_lt.mpr h)]
  rfl

theorem record_apply (e : Event w) (s : RelocState w K P Q) :
    (Reloc.record e : Reloc w K P Q Unit) s = .ok () (s.push e) := rfl

@[simp] theorem push_trace (s : RelocState w K P Q) (e : Event w) :
    (s.push e).trace = s.trace ++ [e] := rfl

@[simp] theorem push_dependencyFlags (s : RelocState w K P Q) (e : Event w) :
    (s.push e).dependencyFlags = s.dependencyFlags := rfl

theorem accept_of_lt {s : RelocState w K P Q} {idx : Option Nat}
    (h : ∀ i, idx = some i → i < s.dependencyFlags.length) :
    (Reloc.accept (some (.ok idx)) : Reloc w K P Q Bool) s =
      .ok false { s with dependencyFlags := setFlags s.dependencyFlags idx } := by
  change (Reloc.setFlag? idx >>= fun _ => pure false : Reloc w K P Q Bool) s = _
  rw [Exec.bind_of_ok (setFlag?_of_lt h)]
  rfl

theorem accept_of_le {s : RelocState w K P Q} {i : Nat} (h : s.dependencyFlags.length ≤ i) :
    (Reloc.accept (some (.ok (some i))) : Reloc w K P Q Bool) s =
      .error (.panic "index out of bounds") s := by
  change (Reloc.setFlag? (some i) >>= fun _ => pure false : Reloc w K P Q Bool) s = _
  rw [Exec.bind_of_error (setFlag?_of_le h)]

theorem ask_effect (stage : Stage) (ref : RelRef w) {handler : Reloc w K P Q Answer}
    (hhandler : ∀ s, (Exec.finalState (handler s)).trace = s.trace ∧
      (Exec.finalState (handler s)).dependencyFlags = s.dependencyFlags)
    (s : RelocState w K P Q) :
    ∃ es, Appends s es (Exec.finalState (Reloc.ask stage ref handler s)) ∧
      AskEffect stage ref s.dependencyFlags es
        (Exec.finalState (Reloc.ask stage ref handler s)).dependencyFlags
        (verdict false (Reloc.ask stage ref handler s)) := by
  have hrun := hhandler (s.push (.asked stage ref))
  rw [push_trace, push_dependencyFlags] at hrun
  unfold Reloc.ask
  rw [Exec.bind_of_ok (record_apply (.asked stage ref) s)]
  cases hr : handler (s.push (.asked stage ref)) with
  | error h s₁ =>
      rw [hr, Exec.finalState_error] at hrun
      rw [Exec.bind_of_error hr]
      refine ⟨[.asked stage ref], hrun.1, ?_⟩
      rw [Exec.finalState_error, hrun.2]
      exact .stop
  | ok answer s₁ =>
      rw [hr, Exec.finalState_ok] at hrun
      rw [Exec.bind_of_ok hr, Exec.bind_of_ok (record_apply (.answered stage ref answer) s₁)]
      have happ : (s₁.push (.answered stage ref answer)).trace =
          s.trace ++ [.asked stage ref, .answered stage ref answer] := by
        rw [push_trace, hrun.1, List.append_assoc]
        rfl
      rw [← hrun.2]
      cases answer with
      | none => exact ⟨_, happ, .declined⟩
      | some result =>
          cases result with
          | error e => exact ⟨_, happ, .error⟩
          | ok idx =>
              by_cases hidx : ∀ i, idx = some i → i < s₁.dependencyFlags.length
              · rw [accept_of_lt (s := s₁.push _) hidx]
                exact ⟨_, happ, .taken hidx⟩
              · simp only [not_forall, Nat.not_lt] at hidx
                obtain ⟨i, rfl, hle⟩ := hidx
                rw [accept_of_le (s := s₁.push _) hle]
                exact ⟨_, happ, .index hle⟩

theorem onPre_frame (x : EStateM Halt (P × ByteMemory.Bytes w) Answer) (s : RelocState w K P Q) :
    (Exec.finalState (Reloc.onPre x s)).trace = s.trace ∧
      (Exec.finalState (Reloc.onPre x s)).dependencyFlags = s.dependencyFlags := by
  unfold Reloc.onPre
  cases x (s.pre, s.os.mem) with
  | ok a p => exact ⟨rfl, rfl⟩
  | error e p => exact ⟨rfl, rfl⟩

theorem onPost_frame (x : EStateM Halt (Q × ByteMemory.Bytes w) Answer)
    (s : RelocState w K P Q) :
    (Exec.finalState (Reloc.onPost x s)).trace = s.trace ∧
      (Exec.finalState (Reloc.onPost x s)).dependencyFlags = s.dependencyFlags := by
  unfold Reloc.onPost
  cases x (s.post, s.os.mem) with
  | ok a p => exact ⟨rfl, rfl⟩
  | error e p => exact ⟨rfl, rfl⟩

section Passes

variable {proc : Process w K} {image : DynamicImage proc.arch} {helper : RelocHelper w P Q}

/-- The run `r` of a default logic on `ref`, begun in `s`, has an effect of `D`. -/
def DefaultRun (D : Default w) (ref : RelRef w) (s : RelocState w K P Q)
    (r : EStateM.Result Halt (RelocState w K P Q) Bool) : Prop :=
  ∃ ds, Appends s ds (Exec.finalState r) ∧
    D ref s.dependencyFlags ds (Exec.finalState r).dependencyFlags (verdict true r)

theorem DefaultRun.of_eq {D : Default w} {ref : RelRef w} {s : RelocState w K P Q}
    {r r' : EStateM.Result Halt (RelocState w K P Q) Bool} (h : r = r')
    (hr : DefaultRun D ref s r') : DefaultRun D ref s r := h ▸ hr

theorem DefaultRun.nothing {D : Default w} {ref : RelRef w} {s : RelocState w K P Q}
    {r : EStateM.Result Halt (RelocState w K P Q) Bool} {flags : List Bool}
    (hs : Exec.finalState r = { s with dependencyFlags := flags })
    (hD : D ref s.dependencyFlags [] flags (verdict true r)) : DefaultRun D ref s r := by
  refine ⟨[], ?_, ?_⟩
  · unfold Appends
    rw [hs, List.append_nil]
  · rw [hs]
    exact hD

/-- `default` has the effects `D`. -/
def HasDefault (default : RelRef w → Reloc w K P Q Bool) (D : Default w) : Prop :=
  ∀ ref s, DefaultRun D ref s (default ref s)

/-- The symbol of an unresolved entry can be named, so its error can be built. -/
theorem relocError_of_unresolved {ref : RelRef w} (h : Unresolved proc image helper ref)
    (msg : String) : ∃ e, relocError proc.arch ref.rel msg image.core = .ok e := by
  have hsym : ∃ own, image.core.symtab.symbolIdx ref.rel.rSymbol = .ok own := by
    rcases h with ⟨-, hfind⟩ | ⟨-, hfind⟩
    · obtain ⟨own, hown, -⟩ := Exec.except_bind_ok_iff.mp hfind
      exact ⟨own, hown⟩
    · obtain ⟨own, hown, -⟩ := Exec.except_bind_ok_iff.mp hfind
      exact ⟨own, hown⟩
  obtain ⟨own, hown⟩ := hsym
  unfold relocError
  split
  · exact ⟨_, rfl⟩
  · rw [hown]
    exact ⟨_, rfl⟩

theorem handlePre_effect (helper : RelocHelper w P Q) (hctx : RelocationContext w)
    (s : RelocState w K P Q) :
    ∃ es, Appends s es (Exec.finalState (helper.handlePre hctx s)) ∧
      AskEffect .pre hctx.rel s.dependencyFlags es
        (Exec.finalState (helper.handlePre hctx s)).dependencyFlags
        (verdict false (helper.handlePre hctx s)) :=
  ask_effect .pre hctx.rel (onPre_frame (helper.preHandler.handle hctx)) s

theorem handlePost_effect (helper : RelocHelper w P Q) (hctx : RelocationContext w)
    (s : RelocState w K P Q) :
    ∃ es, Appends s es (Exec.finalState (helper.handlePost hctx s)) ∧
      AskEffect .post hctx.rel s.dependencyFlags es
        (Exec.finalState (helper.handlePost hctx s)).dependencyFlags
        (verdict false (helper.handlePost hctx s)) :=
  ask_effect .post hctx.rel (onPost_frame (helper.postHandler.handle hctx)) s

/-! ### The default logic -/

theorem unresolved_addr_iff (image : DynamicImage proc.arch) (helper : RelocHelper w P Q)
    {ref : RelRef w}
    (hty : ref.rel.rType = proc.arch.relGot ∨ ref.rel.rType = proc.arch.relSymbolic) :
    Unresolved proc image helper ref ↔ image.findAddr proc helper ref = .ok none := by
  have hne := proc.arch.addr_type_ne hty
  unfold Unresolved
  tauto

theorem unresolved_def_iff (image : DynamicImage proc.arch) (helper : RelocHelper w P Q)
    {ref : RelRef w}
    (hty : ref.rel.rType = proc.arch.relDtpoff ∨ ref.rel.rType = proc.arch.relCopy) :
    Unresolved proc image helper ref ↔ image.findDef proc helper ref = .ok none := by
  have hslot := proc.arch.jumpSlot_ne
  have hgot := proc.arch.addr_type_ne (t := proc.arch.relGot) (.inl rfl)
  have hsymbolic := proc.arch.addr_type_ne (t := proc.arch.relSymbolic) (.inr rfl)
  unfold Unresolved
  rcases hty with hty | hty
  · rw [hty]
    tauto
  · rw [hty]
    tauto

/-- Setting a flag either goes through or stops the computation. -/
theorem setFlag?_bind {α : Type} (idx : Option Nat) (k : Reloc w K P Q α)
    (s : RelocState w K P Q) :
    ((∀ i, idx = some i → i < s.dependencyFlags.length) ∧
        (Reloc.setFlag? idx >>= fun _ => k) s =
          k { s with dependencyFlags := setFlags s.dependencyFlags idx }) ∨
      ∃ h, (Reloc.setFlag? idx >>= fun _ => k) s = .error h s := by
  by_cases hidx : ∀ i, idx = some i → i < s.dependencyFlags.length
  · exact .inl ⟨hidx, Exec.bind_of_ok (setFlag?_of_lt hidx)⟩
  · simp only [not_forall, Nat.not_lt] at hidx
    obtain ⟨i, rfl, hle⟩ := hidx
    exact .inr ⟨_, Exec.bind_of_error (setFlag?_of_le hle)⟩

theorem unwrapSym_ok {symdef : SymDef w} {sym : SymRef w}
    (h : DynamicImage.unwrapSym symdef = .ok sym) : symdef.sym = some sym := by
  unfold DynamicImage.unwrapSym at h
  split at h
  · cases h
    assumption
  · cases h

theorem addr_default (image : DynamicImage proc.arch) (helper : RelocHelper w P Q)
    {ref : RelRef w} (s : RelocState w K P Q)
    (haddr : ref.rel.rType = proc.arch.relGot ∨ ref.rel.rType = proc.arch.relSymbolic) :
    DefaultRun (DynEffect proc image helper) ref s (image.dynrelDefault proc helper ref s) := by
  have hres := unresolved_addr_iff image helper haddr
  have hty : ref.rel.rType ∈ [proc.arch.relGot, proc.arch.relSymbolic, proc.arch.relDtpoff,
      proc.arch.relCopy] := by
    simp only [List.mem_cons]
    tauto
  unfold DynamicImage.dynrelDefault
  rw [Exec.bind_of_ok (Exec.get_apply s), if_pos haddr]
  cases hfind : image.findAddr proc helper ref with
  | error h => exact .nothing rfl (.stop hty (by rw [hres, hfind]; nofun))
  | ok found =>
      rw [Exec.bind_of_ok (Exec.lift_ok found s)]
      cases found with
      | none =>
          exact .nothing rfl (.unresolved (proc.arch.addr_type_ne haddr).2.2.1 (hres.mpr hfind))
      | some found =>
          obtain ⟨v, idx⟩ := found
          rcases setFlag?_bind idx (Reloc.store ref _ _ >>= fun _ => pure true) s with
            ⟨hidx, hrun⟩ | ⟨h, hrun⟩
          · exact .of_eq hrun ⟨_, rfl, .addr haddr hfind hidx⟩
          · exact .of_eq hrun (.nothing rfl (.stop hty (by rw [hres, hfind]; nofun)))

theorem tls_default (image : DynamicImage proc.arch) (helper : RelocHelper w P Q)
    {ref : RelRef w} (s : RelocState w K P Q) (htls : ref.rel.rType = proc.arch.relDtpoff) :
    DefaultRun (DynEffect proc image helper) ref s (image.dynrelDefault proc helper ref s) := by
  have hres := unresolved_def_iff image helper (.inl htls)
  have hslot : ref.rel.rType ≠ proc.arch.relJumpSlot := by
    rw [htls]
    exact proc.arch.jumpSlot_ne.1.symm
  have haddr : ¬ (ref.rel.rType = proc.arch.relGot ∨ ref.rel.rType = proc.arch.relSymbolic) :=
    fun h => (proc.arch.addr_type_ne h).2.2.2.1 htls
  have hstop {h : Halt} {flags' : List Bool} (hne : image.findDef proc helper ref ≠ .ok none) :
      DynEffect proc image helper ref s.dependencyFlags [] flags' (.stop h) :=
    .stop (by simp [htls]) (mt hres.mp hne)
  unfold DynamicImage.dynrelDefault
  rw [Exec.bind_of_ok (Exec.get_apply s), if_neg haddr, if_pos htls]
  cases hfind : image.findDef proc helper ref with
  | error h => exact .nothing rfl (hstop (by rw [hfind]; nofun))
  | ok found =>
      rw [Exec.bind_of_ok (Exec.lift_ok found s)]
      cases found with
      | none => exact .nothing rfl (.unresolved hslot (hres.mpr hfind))
      | some found =>
          obtain ⟨symdef, idx⟩ := found
          rcases setFlag?_bind idx (Exec.lift (DynamicImage.unwrapSym symdef) >>= fun sym =>
              Reloc.store ref _ (sym.sym.stValue + _ - _) >>= fun _ => pure true) s with
            ⟨hidx, hrun⟩ | ⟨h, hrun⟩
          · refine .of_eq hrun ?_
            cases hsym : DynamicImage.unwrapSym symdef with
            | error h => exact .nothing rfl (hstop (by rw [hfind]; nofun))
            | ok sym => exact ⟨_, rfl, .tls htls hfind hidx (unwrapSym_ok hsym)⟩
          · exact .of_eq hrun (.nothing rfl (hstop (by rw [hfind]; nofun)))

theorem copy_default (image : DynamicImage proc.arch) (helper : RelocHelper w P Q)
    {ref : RelRef w} (s : RelocState w K P Q) (hcopy : ref.rel.rType = proc.arch.relCopy) :
    DefaultRun (DynEffect proc image helper) ref s (image.dynrelDefault proc helper ref s) := by
  have hres := unresolved_def_iff image helper (.inr hcopy)
  have hslot : ref.rel.rType ≠ proc.arch.relJumpSlot := by
    rw [hcopy]
    exact proc.arch.jumpSlot_ne.2.symm
  have haddr : ¬ (ref.rel.rType = proc.arch.relGot ∨ ref.rel.rType = proc.arch.relSymbolic) :=
    fun h => (proc.arch.addr_type_ne h).2.2.2.2.2 hcopy
  have htls : ref.rel.rType ≠ proc.arch.relDtpoff := by
    rw [hcopy]
    exact proc.arch.copy_ne_dtpoff
  have hstop {h : Halt} {flags' : List Bool} (hne : image.findDef proc helper ref ≠ .ok none) :
      DynEffect proc image helper ref s.dependencyFlags [] flags' (.stop h) :=
    .stop (by simp [hcopy]) (mt hres.mp hne)
  unfold DynamicImage.dynrelDefault
  rw [Exec.bind_of_ok (Exec.get_apply s), if_neg haddr, if_neg htls, if_pos hcopy]
  cases hfind : image.findDef proc helper ref with
  | error h => exact .nothing rfl (hstop (by rw [hfind]; nofun))
  | ok found =>
      rw [Exec.bind_of_ok (Exec.lift_ok found s)]
      cases found with
      | none => exact .nothing rfl (.unresolved hslot (hres.mpr hfind))
      | some found =>
          obtain ⟨symdef, idx⟩ := found
          cases hown : image.core.symtab.symbolIdx ref.rel.rSymbol with
          | error h => exact .nothing rfl (hstop (by rw [hfind]; nofun))
          | ok own =>
              rcases setFlag?_bind idx (Exec.lift (DynamicImage.unwrapSym symdef) >>= fun sym =>
                  Reloc.record (.copied ref _ (_ + sym.sym.stValue) _) >>= fun _ =>
                  Reloc.modifyMem (fun m => ByteMemory.write m _
                    (ByteMemory.read m (_ + sym.sym.stValue) _)) >>= fun _ => pure true) s with
                ⟨hidx, hrun⟩ | ⟨h, hrun⟩
              · refine .of_eq hrun ?_
                cases hsym : DynamicImage.unwrapSym symdef with
                | error h => exact .nothing rfl (hstop (by rw [hfind]; nofun))
                | ok sym => exact ⟨_, rfl, .copy hcopy hfind hidx (unwrapSym_ok hsym) hown⟩
              · exact .of_eq hrun (.nothing rfl (hstop (by rw [hfind]; nofun)))

theorem dynrelDefault_effect (image : DynamicImage proc.arch) (helper : RelocHelper w P Q) :
    HasDefault (image.dynrelDefault proc helper) (DynEffect proc image helper) := by
  intro ref s
  by_cases haddr : ref.rel.rType = proc.arch.relGot ∨ ref.rel.rType = proc.arch.relSymbolic
  · exact addr_default image helper s haddr
  by_cases htls : ref.rel.rType = proc.arch.relDtpoff
  · exact tls_default image helper s htls
  by_cases hcopy : ref.rel.rType = proc.arch.relCopy
  · exact copy_default image helper s hcopy
  unfold DynamicImage.dynrelDefault
  rw [Exec.bind_of_ok (Exec.get_apply s), if_neg haddr, if_neg htls, if_neg hcopy]
  by_cases hirel : ref.rel.rType = proc.arch.relIrelative
  · rw [if_pos hirel]
    exact ⟨_, rfl, .irelative hirel⟩
  rw [if_neg hirel]
  by_cases hnone : ref.rel.rType = relNone
  · rw [if_pos hnone]
    exact .nothing rfl (.nothing hnone)
  · rw [if_neg hnone]
    refine .nothing rfl (.unknown ?_)
    simp only [List.mem_cons, List.not_mem_nil, or_false]
    tauto

theorem pltrelDefault_effect (image : DynamicImage proc.arch) (helper : RelocHelper w P Q)
    (isLazy : Bool) :
    HasDefault (image.pltrelDefault proc helper isLazy) (PltEffect proc image helper isLazy) := by
  intro ref s
  unfold DynamicImage.pltrelDefault
  rw [Exec.bind_of_ok (Exec.get_apply s)]
  by_cases hslot : ref.rel.rType = proc.arch.relJumpSlot
  · rw [if_pos hslot]
    cases isLazy with
    | true => exact ⟨_, rfl, .lazySlot hslot rfl⟩
    | false =>
        rw [if_neg Bool.false_ne_true]
        cases hfind : image.findAddr proc helper ref with
        | error h => exact .nothing rfl (.stop hslot rfl (by rw [hfind]; nofun))
        | ok found =>
            rw [Exec.bind_of_ok (Exec.lift_ok found s)]
            cases found with
            | none => exact .nothing rfl (.skipped hslot rfl hfind)
            | some found =>
                obtain ⟨v, idx⟩ := found
                rcases setFlag?_bind idx (Reloc.store ref _ _ >>= fun _ => pure true) s with
                  ⟨hidx, hrun⟩ | ⟨h, hrun⟩
                · exact .of_eq hrun ⟨_, rfl, .slot hslot rfl hfind hidx⟩
                · exact .of_eq hrun (.nothing rfl (.stop hslot rfl (by rw [hfind]; nofun)))
  · rw [if_neg hslot]
    by_cases hirel : ref.rel.rType = proc.arch.relIrelative
    · rw [if_pos hirel]
      exact ⟨_, rfl, .irelative hirel⟩
    · rw [if_neg hirel]
      refine .nothing rfl (.unknown ?_)
      simp [hslot, hirel]

/-! ### Iterations -/

theorem offerPost_effect (image : DynamicImage proc.arch) (helper : RelocHelper w P Q)
    (ref : RelRef w) (s : RelocState w K P Q) :
    ∃ es, Appends s es (Exec.finalState (image.offerPost proc helper ref s)) ∧
      OfferEffect proc image helper ref s.dependencyFlags es
        (Exec.finalState (image.offerPost proc helper ref s)).dependencyFlags
        (ending (image.offerPost proc helper ref s)) := by
  unfold DynamicImage.offerPost
  generalize hctx : ({ rel := ref, lib := image.core, scope := helper.scope } :
    RelocationContext w) = ctx
  obtain ⟨es, happ, hpost⟩ := handlePost_effect helper ctx s
  rw [show ctx.rel = ref by rw [← hctx]] at hpost
  cases hq : helper.handlePost ctx s with
  | error h s₁ =>
      rw [hq] at happ hpost
      rw [Exec.bind_of_error hq]
      exact ⟨es, happ, .stop hpost⟩
  | ok opened s₁ =>
      rw [hq] at happ hpost
      rw [Exec.bind_of_ok hq]
      cases opened with
      | false => exact ⟨es, happ, .taken hpost⟩
      | true =>
          rw [if_pos rfl, Exec.bind_of_ok (record_apply (.unhandled ref) s₁)]
          have hend : Appends s₁ [.unhandled ref] (s₁.push (.unhandled ref)) := rfl
          cases he : relocError proc.arch ref.rel "Unhandled relocation" image.core with
          | ok e =>
              rw [Exec.bind_of_ok (Exec.lift_ok e _)]
              exact ⟨_, happ.trans hend, .unhandled hpost (fun _ => ⟨e, rfl⟩)⟩
          | error h =>
              rw [Exec.bind_of_error (Exec.lift_error h _)]
              refine ⟨_, happ.trans hend, .unhandled hpost ?_⟩
              intro hres
              obtain ⟨e, hok⟩ := relocError_of_unresolved hres "Unhandled relocation"
              rw [he] at hok
              cases hok

theorem relocStep_effect (image : DynamicImage proc.arch) (helper : RelocHelper w P Q)
    {default : RelRef w → Reloc w K P Q Bool} {D : Default w}
    (hdefault : HasDefault default D) (ref : RelRef w) (s : RelocState w K P Q) :
    ∃ es, Appends s es (Exec.finalState (image.relocStep proc helper default ref s)) ∧
      StepEffect proc image helper D ref s.dependencyFlags es
        (Exec.finalState (image.relocStep proc helper default ref s)).dependencyFlags
        (ending (image.relocStep proc helper default ref s)) := by
  unfold DynamicImage.relocStep
  generalize hctx : ({ rel := ref, lib := image.core, scope := helper.scope } :
    RelocationContext w) = ctx
  obtain ⟨es, happ, hpre⟩ := handlePre_effect helper ctx s
  rw [show ctx.rel = ref by rw [← hctx]] at hpre
  cases hp : helper.handlePre ctx s with
  | error h s₁ =>
      rw [hp] at happ hpre
      rw [Exec.bind_of_error hp]
      exact ⟨es, happ, .preStop hpre⟩
  | ok opened s₁ =>
      rw [hp] at happ hpre
      rw [Exec.bind_of_ok hp]
      cases opened with
      | false => exact ⟨es, happ, .pre hpre⟩
      | true =>
          rw [if_pos rfl]
          obtain ⟨ds, happ₁, hD⟩ := hdefault ref s₁
          cases hd : default ref s₁ with
          | error h s₂ =>
              rw [hd] at happ₁ hD
              rw [Exec.bind_of_error hd]
              exact ⟨es ++ ds, happ.trans happ₁, .defaultStop hpre hD⟩
          | ok took s₂ =>
              rw [hd] at happ₁ hD
              rw [Exec.bind_of_ok hd]
              cases took with
              | true => exact ⟨es ++ ds, happ.trans happ₁, .taken hpre hD⟩
              | false =>
                  obtain ⟨es', happ₂, hpost⟩ := offerPost_effect image helper ref s₂
                  exact ⟨es ++ ds ++ es', (happ.trans happ₁).trans happ₂,
                    .offered hpre hD hpost⟩

theorem loop_effect (image : DynamicImage proc.arch) (helper : RelocHelper w P Q)
    {default : RelRef w → Reloc w K P Q Bool} {D : Default w}
    (hdefault : HasDefault default D) (refs : List (RelRef w)) (s : RelocState w K P Q) :
    ∃ es, Appends s es
        (Exec.finalState (refs.forM (image.relocStep proc helper default) s)) ∧
      LoopEffect proc image helper D refs s.dependencyFlags es
        (Exec.finalState (refs.forM (image.relocStep proc helper default) s)).dependencyFlags
        (ending (refs.forM (image.relocStep proc helper default) s)) := by
  induction refs generalizing s with
  | nil => exact ⟨[], (List.append_nil _).symm, .nil⟩
  | cons ref refs ih =>
      obtain ⟨es, happ, hstep⟩ := relocStep_effect image helper hdefault ref s
      rw [Exec.forM_cons_apply]
      cases hs : image.relocStep proc helper default ref s with
      | error h s₁ =>
          rw [hs] at happ hstep
          rw [Exec.bind_of_error hs]
          exact ⟨es, happ, .stop hstep⟩
      | ok u s₁ =>
          rw [hs] at happ hstep
          rw [Exec.bind_of_ok hs]
          obtain ⟨es', happ', htail⟩ := ih s₁
          exact ⟨es ++ es', happ.trans happ', .step hstep htail⟩

end Passes

end ElfLoader
