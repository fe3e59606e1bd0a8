import ElfLoader.Relocation.Run

/-! # COPY relocations

The entry names a symbol that the module defines as well, in its `.bss`. The
search of the entry is the one of every other entry: it takes the first library
of the scope that defines the symbol, and nothing in it passes over the module
itself.
-/

namespace ElfLoader

open Exec ByteMemory

variable {w : Nat} {K P Q : Type}

section Sources

variable [CustomHasher]
variable (core : ElfCore w) (scope : List (LoadedCore w))

/-- The first definition in a library of the scope other than the module. -/
def firstOther (info : SymbolInfo) : Except Halt (Option (LoadedCore w × Nat × SymRef w)) :=
  firstProvider (scope.filter fun lib => lib.core.id ≠ core.id) info

/-- The search for the symbol ends at the module's own definition, at this address. -/
inductive OwnSource (sym : SymRef w) (info : SymbolInfo) : BitVec w → Prop
  | entry (hlocal : sym.sym.isLocal = true) : OwnSource sym info (core.base + sym.sym.stValue)
  | scope {lib i found} (hlocal : sym.sym.isLocal = false)
      (hfirst : firstProvider scope info = .ok (some (lib, i, found)))
      (hself : lib.core.id = core.id) : OwnSource sym info (lib.core.base + found.sym.stValue)

variable {core scope} {sym : SymRef w} {info : SymbolInfo}

theorem firstOther_eq_none (h : firstProvider scope info = .ok none) :
    firstOther core scope info = .ok none :=
  firstProvider_eq_none_iff.mpr fun lib hlib =>
    firstProvider_eq_none_iff.mp h lib (List.mem_of_mem_filter hlib)

theorem firstOther_of_firstProvider {lib : LoadedCore w} {i : Nat} {found : SymRef w}
    (h : firstProvider scope info = .ok (some (lib, i, found))) (hother : lib.core.id ≠ core.id) :
    ∃ j, firstOther core scope info = .ok (some (lib, j, found)) := by
  obtain ⟨before, after, rfl, -, hlib, hbefore⟩ := firstProvider_eq_some_iff.mp h
  refine ⟨_, firstProvider_eq_some_iff.mpr ⟨before.filter fun lib => lib.core.id ≠ core.id,
    after.filter fun lib => lib.core.id ≠ core.id, ?_, rfl, hlib, fun lib' hlib' => ?_⟩⟩
  · rw [List.filter_append, List.filter_cons_of_pos (by simpa using hother)]
  · exact hbefore lib' (List.mem_of_mem_filter hlib')

theorem OwnSource.unique {src src' : BitVec w} (h : OwnSource core scope sym info src)
    (h' : OwnSource core scope sym info src') : src = src' := by
  cases h with
  | entry hlocal =>
      cases h' with
      | entry => rfl
      | scope hl => rw [hlocal] at hl; cases hl
  | scope hl hfirst _ =>
      cases h' with
      | entry hlocal => rw [hlocal] at hl; cases hl
      | scope _ hfirst' _ =>
          rw [hfirst] at hfirst'
          cases hfirst'
          rfl

/-- Where the definition that the search ends at stands. -/
theorem findSymdefImpl_source {lib : LoadedCore w} {i : Nat} {found : SymRef w}
    {result : Option (SymDef w × Option Nat)}
    (hother : firstOther core scope info = .ok (some (lib, i, found)))
    (h : findSymdefImpl core scope sym info = .ok result) :
    ∃ symdef idx def', result = some (symdef, idx) ∧ symdef.sym = some def' ∧
      (OwnSource core scope sym info (symdef.lib.base + def'.sym.stValue) ∨
        (∀ src, ¬ OwnSource core scope sym info src) ∧
          symdef.lib = lib.core ∧ def' = found) := by
  cases hlocal : sym.sym.isLocal with
  | true =>
      rw [findSymdefImpl_of_local hlocal] at h
      cases h
      exact ⟨_, _, _, rfl, rfl, .inl (.entry hlocal)⟩
  | false =>
      cases hfirst : firstProvider scope info with
      | error e =>
          rw [findSymdefImpl_of_error core hlocal hfirst] at h
          cases h
      | ok first =>
          cases first with
          | none =>
              rw [firstOther_eq_none hfirst] at hother
              cases hother
          | some first =>
              obtain ⟨lib', i', found'⟩ := first
              rw [findSymdefImpl_of_provider core hlocal hfirst] at h
              cases h
              refine ⟨_, _, _, rfl, rfl, ?_⟩
              by_cases hself : lib'.core.id = core.id
              · exact .inl (.scope hlocal hfirst hself)
              · obtain ⟨j, hother'⟩ := firstOther_of_firstProvider hfirst hself
                rw [hother] at hother'
                cases hother'
                refine .inr ⟨fun src hsrc => ?_, rfl, rfl⟩
                cases hsrc with
                | entry hl => rw [hl] at hlocal; cases hlocal
                | scope _ hfirst' hself' =>
                    rw [hfirst] at hfirst'
                    cases hfirst'
                    exact hself hself'

end Sources

/-! ## What an entry writes -/

section Frame

variable [CustomHasher]
variable (proc : Process w K) (image : DynamicImage proc.arch) (helper : RelocHelper w P Q)

/-- The bytes an entry may write: `st_size` of them for a COPY entry, else a word. -/
def DynamicImage.Field (ref : RelRef w) (a : BitVec w) : Prop :=
  if ref.rel.rType = proc.arch.relCopy then
    ∃ own, image.core.symtab.symbolIdx ref.rel.rSymbol = .ok own ∧
      Within (image.core.base + ref.rel.rOffset) own.1.sym.stSize.toNat a
  else Within (image.core.base + ref.rel.rOffset) (w / 8) a

/-- The handlers write nothing in `region`. -/
structure RelocHelper.Leaves (region : BitVec w → Prop) : Prop where
  pre : ∀ hctx st a, region a → (finalState (helper.preHandler.handle hctx st)).2 a = st.2 a
  post : ∀ hctx st a, region a → (finalState (helper.postHandler.handle hctx st)).2 a = st.2 a

/-- Memory is as `m` says in `region`. -/
def MemoryAt (region : BitVec w → Prop) (m : Bytes w) (s : RelocState w K P Q) : Prop :=
  ∀ a, region a → s.os.mem a = m a

variable {proc image helper} {region : BitVec w → Prop} {m : Bytes w}

namespace Reloc

theorem record_memory (e : Event w) :
    Keeps (MemoryAt region m) (record e : Reloc w K P Q Unit) :=
  Keeps.modify fun _ h => h

theorem modifyMem_memory {f : Bytes w → Bytes w} (hf : ∀ m' a, region a → f m' a = m' a) :
    Keeps (MemoryAt region m) (modifyMem f : Reloc w K P Q Unit) :=
  Keeps.modify fun s h a ha => (hf s.os.mem a ha).trans (h a ha)

theorem store_memory (ref : RelRef w) {addr value : BitVec w}
    (hfield : ∀ a, region a → ¬ Within addr (w / 8) a) :
    Keeps (MemoryAt region m) (store ref addr value : Reloc w K P Q Unit) :=
  Keeps.bind Keeps.get fun _ => Keeps.bind (record_memory _) fun _ =>
    modifyMem_memory fun _ a ha => writeWord_of_not_within (hfield a ha)

theorem setFlag?_memory (idx : Option Nat) :
    Keeps (MemoryAt region m) (setFlag? idx : Reloc w K P Q Unit) := by
  cases idx with
  | none => exact Keeps.pure ()
  | some idx =>
      intro s h
      change MemoryAt region m (finalState (setFlag idx s))
      unfold setFlag
      rw [bind_of_ok (get_apply s)]
      split
      · exact h
      · exact h

theorem accept_memory (answer : Answer) :
    Keeps (MemoryAt region m) (accept answer : Reloc w K P Q Bool) := by
  unfold accept
  split
  · exact Keeps.pure true
  · exact Keeps.throw _
  · exact Keeps.bind (setFlag?_memory _) fun _ => Keeps.pure false

theorem onPre_memory {x : EStateM Halt (P × Bytes w) Answer}
    (hx : ∀ st a, region a → (finalState (x st)).2 a = st.2 a) :
    Keeps (MemoryAt region m) (onPre x : Reloc w K P Q Answer) := by
  intro s h a ha
  have hkeep := hx (s.pre, s.os.mem) a ha
  unfold onPre
  split
  · rename_i hrun
    rw [hrun] at hkeep
    exact hkeep.trans (h a ha)
  · rename_i hrun
    rw [hrun] at hkeep
    exact hkeep.trans (h a ha)

theorem onPost_memory {x : EStateM Halt (Q × Bytes w) Answer}
    (hx : ∀ st a, region a → (finalState (x st)).2 a = st.2 a) :
    Keeps (MemoryAt region m) (onPost x : Reloc w K P Q Answer) := by
  intro s h a ha
  have hkeep := hx (s.post, s.os.mem) a ha
  unfold onPost
  split
  · rename_i hrun
    rw [hrun] at hkeep
    exact hkeep.trans (h a ha)
  · rename_i hrun
    rw [hrun] at hkeep
    exact hkeep.trans (h a ha)

theorem ask_memory (stage : Stage) (ref : RelRef w) {handler : Reloc w K P Q Answer}
    (hhandler : Keeps (MemoryAt region m) handler) :
    Keeps (MemoryAt region m) (ask stage ref handler) :=
  Keeps.bind (record_memory _) fun _ => Keeps.bind hhandler fun _ =>
    Keeps.bind (record_memory _) fun _ => accept_memory _

end Reloc

theorem handlePre_memory (h : helper.Leaves region) (hctx : RelocationContext w) :
    Keeps (MemoryAt region m) (helper.handlePre hctx : Reloc w K P Q Bool) :=
  Reloc.ask_memory _ _ (Reloc.onPre_memory fun st a => h.pre hctx st a)

theorem handlePost_memory (h : helper.Leaves region) (hctx : RelocationContext w) :
    Keeps (MemoryAt region m) (helper.handlePost hctx : Reloc w K P Q Bool) :=
  Reloc.ask_memory _ _ (Reloc.onPost_memory fun st a => h.post hctx st a)

/-- An entry writes nothing outside its field. -/
theorem dynrelDefault_memory {ref : RelRef w}
    (hfield : ∀ a, region a → ¬ image.Field proc ref a) :
    Keeps (MemoryAt region m) (image.dynrelDefault proc helper ref : Reloc w K P Q Bool) := by
  have hword : ref.rel.rType ≠ proc.arch.relCopy → ∀ a, region a →
      ¬ Within (image.core.base + ref.rel.rOffset) (w / 8) a := by
    intro hne a ha
    have hout := hfield a ha
    rwa [DynamicImage.Field, if_neg hne] at hout
  have hbytes : ref.rel.rType = proc.arch.relCopy → ∀ own,
      image.core.symtab.symbolIdx ref.rel.rSymbol = .ok own → ∀ a, region a →
        ¬ Within (image.core.base + ref.rel.rOffset) own.1.sym.stSize.toNat a := by
    intro heq own hown a ha hin
    have hout := hfield a ha
    rw [DynamicImage.Field, if_pos heq] at hout
    exact hout ⟨own, hown, hin⟩
  unfold DynamicImage.dynrelDefault
  refine Keeps.bind Keeps.get fun s => ?_
  dsimp only
  split_ifs with haddr htls hcopy hirel hnone
  · have hfield := hword (proc.arch.addr_type_ne haddr).2.2.2.2.2
    refine Keeps.bind (Keeps.lift _) fun found => ?_
    cases found with
    | none => exact Keeps.pure false
    | some found =>
        exact Keeps.bind (Reloc.setFlag?_memory _) fun _ =>
          Keeps.bind (Reloc.store_memory _ hfield) fun _ => Keeps.pure true
  · have hfield := hword (htls.trans_ne proc.arch.copy_ne_dtpoff.symm)
    refine Keeps.bind (Keeps.lift _) fun found => ?_
    cases found with
    | none => exact Keeps.pure false
    | some found =>
        exact Keeps.bind (Reloc.setFlag?_memory _) fun _ => Keeps.bind (Keeps.lift _) fun _ =>
          Keeps.bind (Reloc.store_memory _ hfield) fun _ => Keeps.pure true
  · refine Keeps.bind (Keeps.lift _) fun found => ?_
    cases found with
    | none => exact Keeps.pure false
    | some found =>
        refine Keeps.lift_bind fun own hown => Keeps.bind (Reloc.setFlag?_memory _) fun _ =>
          Keeps.bind (Keeps.lift _) fun sym => Keeps.bind (Reloc.record_memory _) fun _ =>
            Keeps.bind (Reloc.modifyMem_memory fun m' a ha => ?_) fun _ => Keeps.pure true
        apply write_of_not_within
        rw [read_length]
        exact hbytes hcopy own hown a ha
  · have hfield := hword hcopy
    exact Keeps.bind (Reloc.store_memory _ hfield) fun _ => Keeps.pure true
  · exact Keeps.pure true
  · exact Keeps.pure false

theorem offerPost_memory (h : helper.Leaves region) (ref : RelRef w) :
    Keeps (MemoryAt region m) (image.offerPost proc helper ref : Reloc w K P Q Unit) := by
  refine Keeps.bind (handlePost_memory h _) fun declined => Keeps.ite ?_ (Keeps.pure ())
  exact Keeps.bind (Reloc.record_memory _) fun _ =>
    Keeps.bind (Keeps.lift _) fun _ => Keeps.throw _

theorem dynrelStep_memory (h : helper.Leaves region) {ref : RelRef w}
    (hfield : ∀ a, region a → ¬ image.Field proc ref a) :
    Keeps (MemoryAt region m)
      (image.relocStep proc helper (image.dynrelDefault proc helper) ref) := by
  refine Keeps.bind (handlePre_memory h _) fun declined => Keeps.ite ?_ (Keeps.pure ())
  exact Keeps.bind (dynrelDefault_memory hfield) fun taken =>
    Keeps.ite (Keeps.pure ()) (offerPost_memory h ref)

/-- Entries that write nothing in `region` leave it as it was. -/
theorem dynrelLoop_memory (h : helper.Leaves region) {refs : List (RelRef w)}
    (hfield : ∀ ref ∈ refs, ∀ a, region a → ¬ image.Field proc ref a)
    {s s' : RelocState w K P Q}
    (hrun : refs.forM (image.relocStep proc helper (image.dynrelDefault proc helper)) s =
      .ok () s') : MemoryAt region s.os.mem s' := by
  have hkeeps : Keeps (MemoryAt region s.os.mem)
      (refs.forM (image.relocStep (K := K) proc helper (image.dynrelDefault proc helper))) :=
    Keeps.forM fun ref href => dynrelStep_memory h (hfield ref href)
  have hend := hkeeps s fun a _ => rfl
  rwa [hrun] at hend

end Frame

/-! ## The copy -/

section Copy

variable [CustomHasher]
variable (proc : Process w K) (image : DynamicImage proc.arch) (helper : RelocHelper w P Q)

/-- A COPY entry that `relocate_dynrel`, started in `s`, reaches in `s₁`, for a
symbol that another library of the scope defines. The handlers do not take the
entry and write in none of its bytes, and no later entry does. -/
structure CopyEntry (s s₁ : RelocState w K P Q) (ref : RelRef w) (sym : SymRef w)
    (info : SymbolInfo) (dest src : BitVec w) : Prop where
  type : ref.rel.rType = proc.arch.relCopy
  entry : image.core.symtab.symbolIdx ref.rel.rSymbol = .ok (sym, info)
  dest_eq : dest = image.core.base + ref.rel.rOffset
  other : ∃ lib i found, firstOther image.core helper.scope info = .ok (some (lib, i, found)) ∧
    src = lib.core.base + found.sym.stValue
  apart : ∀ a, Within dest sym.sym.stSize.toNat a → ¬ Within src sym.sym.stSize.toNat a
  reached : ∃ before after, image.relocation.dynrel = before ++ ref :: after ∧
    before.forM (image.relocStep proc helper (image.dynrelDefault proc helper)) s = .ok () s₁ ∧
    ∀ later ∈ after, ∀ a,
      Within dest sym.sym.stSize.toNat a ∨ Within src sym.sym.stSize.toNat a →
        ¬ image.Field proc later a
  left : ∃ st, helper.preHandler.handle { rel := ref, lib := image.core, scope := helper.scope }
    (s₁.pre, s₁.os.mem) = .ok none st
  handlers : helper.Leaves fun a =>
    Within dest sym.sym.stSize.toNat a ∨ Within src sym.sym.stSize.toNat a ∨
      ∃ own, OwnSource image.core helper.scope sym info own ∧ Within own sym.sym.stSize.toNat a

variable {proc image helper} {s s₁ s₂ s' : RelocState w K P Q} {ref : RelRef w} {sym : SymRef w}
variable {info : SymbolInfo} {dest src : BitVec w}

theorem RelocHelper.Leaves.mono {region region' : BitVec w → Prop} (h : helper.Leaves region)
    (hsub : ∀ a, region' a → region a) : helper.Leaves region' where
  pre := fun hctx st a ha => h.pre hctx st a (hsub a ha)
  post := fun hctx st a ha => h.post hctx st a (hsub a ha)

theorem handlePre_declined {hctx : RelocationContext w} {st : P × Bytes w}
    (h : helper.preHandler.handle hctx (s.pre, s.os.mem) = .ok none st) :
    ∃ s', (helper.handlePre hctx : Reloc w K P Q Bool) s = .ok true s' := by
  have hask : (Reloc.record (.asked .pre hctx.rel) : Reloc w K P Q Unit) s =
      .ok () (s.push (.asked .pre hctx.rel)) := rfl
  have hanswer : (Reloc.onPre (helper.preHandler.handle hctx) : Reloc w K P Q Answer)
      (s.push (.asked .pre hctx.rel)) = .ok none
        { s.push (.asked .pre hctx.rel) with pre := st.1, os := { s.os with mem := st.2 } } := by
    have h' : helper.preHandler.handle hctx ((s.push (.asked .pre hctx.rel)).pre,
        (s.push (.asked .pre hctx.rel)).os.mem) = .ok none st := h
    unfold Reloc.onPre
    rw [h']
    rfl
  exact ⟨_, (bind_of_ok hask).trans (bind_of_ok hanswer)⟩

theorem dynrelDefault_copy {taken : Bool} (hty : ref.rel.rType = proc.arch.relCopy)
    (hentry : image.core.symtab.symbolIdx ref.rel.rSymbol = .ok (sym, info))
    (hrun : image.dynrelDefault proc helper ref s = .ok taken s') :
    ∃ result, findSymdefImpl image.core helper.scope sym info = .ok result ∧
      ∀ symdef idx def', result = some (symdef, idx) → symdef.sym = some def' →
        taken = true ∧ s'.os.mem = write s.os.mem (image.core.base + ref.rel.rOffset)
          (ByteMemory.read s.os.mem (symdef.lib.base + def'.sym.stValue)
            sym.sym.stSize.toNat) := by
  have haddr : ¬ (ref.rel.rType = proc.arch.relGot ∨ ref.rel.rType = proc.arch.relSymbolic) :=
    fun h => (proc.arch.addr_type_ne h).2.2.2.2.2 hty
  have htls : ref.rel.rType ≠ proc.arch.relDtpoff := by
    rw [hty]
    exact proc.arch.copy_ne_dtpoff
  unfold DynamicImage.dynrelDefault at hrun
  rw [bind_of_ok (get_apply s), if_neg haddr, if_neg htls, if_pos hty] at hrun
  obtain ⟨result, s₁, hlift, hrun⟩ := bind_ok_iff.mp hrun
  obtain ⟨hfind, rfl⟩ := lift_ok_iff.mp hlift
  refine ⟨result, (findSymdef_eq hentry).symm.trans hfind, ?_⟩
  rintro symdef idx def' rfl hdef
  obtain ⟨own, s₂, hlift, hrun⟩ := bind_ok_iff.mp hrun
  obtain ⟨hown, rfl⟩ := lift_ok_iff.mp hlift
  rw [hentry] at hown
  cases hown
  have hunwrap : DynamicImage.unwrapSym symdef = .ok def' := by
    rw [DynamicImage.unwrapSym, hdef]
  have hrest : (Reloc.setFlag? idx >>= fun _ => Exec.lift (DynamicImage.unwrapSym symdef) >>=
      fun def' => Reloc.record (.copied ref (image.core.base + ref.rel.rOffset)
        (symdef.lib.base + def'.sym.stValue) sym.sym.stSize.toNat) >>= fun _ =>
      Reloc.modifyMem (fun m => write m (image.core.base + ref.rel.rOffset)
        (ByteMemory.read m (symdef.lib.base + def'.sym.stValue) sym.sym.stSize.toNat)) >>= fun _ =>
      pure true) s₂ = .ok taken s' := hrun
  rcases setFlag?_bind idx _ s₂ with ⟨-, heq⟩ | ⟨h, heq⟩
  · rw [heq, hunwrap] at hrest
    cases hrest
    exact ⟨rfl, rfl⟩
  · rw [heq] at hrest
    cases hrest

/-- The iteration of the entry: the handler leaves the watched bytes alone, and
then the bytes of the definition found are copied. -/
theorem CopyEntry.step (h : CopyEntry proc image helper s s₁ ref sym info dest src)
    (hrun : image.relocStep proc helper (image.dynrelDefault proc helper) ref s₁ = .ok () s₂) :
    ∃ m from', (∀ a, (Within dest sym.sym.stSize.toNat a ∨ Within src sym.sym.stSize.toNat a ∨
          ∃ own, OwnSource image.core helper.scope sym info own ∧
            Within own sym.sym.stSize.toNat a) → m a = s₁.os.mem a) ∧
      s₂.os.mem = write m dest (ByteMemory.read m from' sym.sym.stSize.toNat) ∧
      (OwnSource image.core helper.scope sym info from' ∨
        (∀ own, ¬ OwnSource image.core helper.scope sym info own) ∧ from' = src) := by
  obtain ⟨st, hleft⟩ := h.left
  obtain ⟨lib, i, found, hother, hsrc⟩ := h.other
  obtain ⟨s₃, hpre⟩ := handlePre_declined hleft
  have hkept := handlePre_memory h.handlers
    { rel := ref, lib := image.core, scope := helper.scope } s₁ fun a _ => rfl
  rw [hpre] at hkept
  unfold DynamicImage.relocStep at hrun
  rw [bind_of_ok hpre, if_pos rfl] at hrun
  obtain ⟨taken, s₄, hdefault, hrest⟩ := bind_ok_iff.mp hrun
  obtain ⟨result, hfind, hcopy⟩ := dynrelDefault_copy h.type h.entry hdefault
  obtain ⟨symdef, idx, def', rfl, hdef, hsource⟩ := findSymdefImpl_source hother hfind
  obtain ⟨rfl, hmem⟩ := hcopy symdef idx def' rfl hdef
  rw [if_pos rfl] at hrest
  cases hrest
  refine ⟨s₃.os.mem, symdef.lib.base + def'.sym.stValue, hkept, ?_, ?_⟩
  · rw [hmem, h.dest_eq]
  · rcases hsource with hown | ⟨hno, hlib, rfl⟩
    · exact .inl hown
    · refine .inr ⟨hno, ?_⟩
      rw [hlib, hsrc]

/-- After `relocate_dynrel` the destination holds the bytes of the first definition
in another library exactly when the search did not end at the module itself, or
its own definition held these bytes when the entry was reached. -/
theorem copied_from_other_iff (h : CopyEntry proc image helper s s₁ ref sym info dest src)
    (hrun : image.relocateDynrel proc helper s = .ok () s') :
    ByteMemory.read s'.os.mem dest sym.sym.stSize.toNat =
        ByteMemory.read s'.os.mem src sym.sym.stSize.toNat ↔
      ∀ own, OwnSource image.core helper.scope sym info own →
        ByteMemory.read s₁.os.mem own sym.sym.stSize.toNat =
          ByteMemory.read s₁.os.mem src sym.sym.stSize.toNat := by
  have hfit : sym.sym.stSize.toNat ≤ 2 ^ w := Nat.le_of_lt sym.sym.stSize.isLt
  obtain ⟨before, after, hsplit, hbefore, hlater⟩ := h.reached
  unfold DynamicImage.relocateDynrel at hrun
  rw [hsplit, forM_append_apply, bind_of_ok hbefore] at hrun
  obtain ⟨s₂, hstep, hafter⟩ := forM_cons_ok_iff.mp hrun
  obtain ⟨m, from', hkept, hmem, hfrom⟩ := h.step hstep
  -- the entries that follow write neither range
  have hrest := dynrelLoop_memory
    (h.handlers.mono fun a ha => ha.elim .inl fun hsrc => .inr (.inl hsrc)) hlater hafter
  have hdest : ByteMemory.read s'.os.mem dest sym.sym.stSize.toNat =
      ByteMemory.read m from' sym.sym.stSize.toNat := by
    have hlen : (ByteMemory.read m from' sym.sym.stSize.toNat).length ≤ 2 ^ w := by
      rw [read_length]
      exact hfit
    have hwrite := read_write_self m dest _ hlen
    rw [read_length] at hwrite
    rw [read_congr hfit fun a ha => hrest a (.inl ha), hmem, hwrite]
  have hsrc : ByteMemory.read s'.os.mem src sym.sym.stSize.toNat =
      ByteMemory.read s₁.os.mem src sym.sym.stSize.toNat := by
    refine read_congr hfit fun a ha => (hrest a (.inr ha)).trans ?_
    rw [hmem, write_of_not_within, hkept a (.inr (.inl ha))]
    rw [read_length]
    exact fun hin => h.apart a hin ha
  rw [hdest, hsrc]
  rcases hfrom with hown | ⟨hno, rfl⟩
  · have hread : ByteMemory.read m from' sym.sym.stSize.toNat =
        ByteMemory.read s₁.os.mem from' sym.sym.stSize.toNat :=
      read_congr hfit fun a ha => hkept a (.inr (.inr ⟨from', hown, ha⟩))
    rw [hread]
    constructor
    · intro heq own hown'
      rwa [hown'.unique hown]
    · exact fun hall => hall from' hown
  · refine iff_of_true ?_ fun own hown => absurd hown (hno own)
    exact read_congr hfit fun a ha => hkept a (.inr (.inl ha))

end Copy

section Sample

attribute [local instance] constantHasher

/-- A COPY entry for symbol 1, whose own definition is at `0x40`. -/
def copyRef : RelRef 64 := ⟨.dyn, 0, ⟨0x40, 0x100000005, 0⟩⟩

/-- A program that defines `f` in its `.bss` and copies it. -/
def copyImage : DynamicImage sampleProcess.arch where
  core := sampleCore 1 stbGlobal 1 0x40
  lazy := false
  gotPlt := none
  tables :=
    { pltrel := none
      dynrel := some ⟨0x10800, [copyRef.rel]⟩
      relr := none
      relCount := none }
  relro := none
  initFn := none
  initArray := none
  neededLibs := [[108]]
  relocation :=
    { relative := .rel []
      pltrel := []
      dynrel := [copyRef] }
  relocation_eq := rfl

/-- The library's `f` is not zero. -/
def libraryData : RelocState 64 Unit Unit Unit :=
  .start ⟨fun a => if a = 0x20100 then 7 else 0, ()⟩ () ()

/-- The scope `[copyImage, library]`, or the other way round. -/
def copyScope (itselfFirst : Bool) : List (LoadedCore 64) :=
  if itselfFirst then [.fromCore copyImage.core, definesF none]
  else [definesF none, .fromCore copyImage.core]

theorem copyEntry_reached (itselfFirst : Bool) :
    CopyEntry sampleProcess copyImage (plainHelper (copyScope itselfFirst))
      { libraryData with dependencyFlags := [false, false] }
      { libraryData with dependencyFlags := [false, false] } copyRef
      ⟨1, ⟨1, 0x40, 8, 0x12, 0, 1⟩⟩ { name := [102], version := none } 0x10040 0x20100 where
  type := rfl
  entry := rfl
  dest_eq := rfl
  other := by
    cases itselfFirst with
    | false => exact ⟨definesF none, 0, ⟨1, ⟨1, 0x100, 8, 0x12, 0, 1⟩⟩, rfl, rfl⟩
    | true => exact ⟨definesF none, 0, ⟨1, ⟨1, 0x100, 8, 0x12, 0, 1⟩⟩, rfl, rfl⟩
  apart := by
    intro a hdest hsrc
    unfold Within at hdest hsrc
    simp only [BitVec.toNat_sub] at hdest hsrc
    simp at hdest hsrc
    omega
  reached := ⟨[], [], rfl, rfl, fun later hlater => absurd hlater List.not_mem_nil⟩
  left := ⟨_, rfl⟩
  handlers := ⟨fun _ _ _ _ => rfl, fun _ _ _ _ => rfl⟩

/-- A program that comes first in its own scope copies its `.bss` onto itself. -/
theorem copy_onto_itself :
    CopyEntry sampleProcess copyImage (plainHelper (copyScope true))
        { libraryData with dependencyFlags := [false, false] }
        { libraryData with dependencyFlags := [false, false] } copyRef
        ⟨1, ⟨1, 0x40, 8, 0x12, 0, 1⟩⟩ { name := [102], version := none } 0x10040 0x20100 ∧
      ∃ s', copyImage.relocateDynrel sampleProcess (plainHelper (copyScope true))
          { libraryData with dependencyFlags := [false, false] } = .ok () s' ∧
        ByteMemory.read s'.os.mem 0x10040 8 = [0, 0, 0, 0, 0, 0, 0, 0] ∧
        ByteMemory.read s'.os.mem 0x20100 8 = [7, 0, 0, 0, 0, 0, 0, 0] :=
  ⟨copyEntry_reached true, _, rfl, by decide, by decide⟩

theorem copy_behind_library :
    ∃ s', copyImage.relocateDynrel sampleProcess (plainHelper (copyScope false))
        { libraryData with dependencyFlags := [false, false] } = .ok () s' ∧
      ByteMemory.read s'.os.mem 0x10040 8 = ByteMemory.read s'.os.mem 0x20100 8 := by
  have hrun : ∃ s', copyImage.relocateDynrel sampleProcess (plainHelper (copyScope false))
      { libraryData with dependencyFlags := [false, false] } = .ok () s' := ⟨_, rfl⟩
  obtain ⟨s', hrun⟩ := hrun
  refine ⟨s', hrun, (copied_from_other_iff (copyEntry_reached false) hrun).mpr fun own hown => ?_⟩
  -- the search meets the library first
  cases hown with
  | entry hlocal => cases hlocal
  | scope _ hfirst hself =>
      cases hfirst
      cases hself

end Sample

end ElfLoader
