import ElfLoader.Relocation.Dynamic

/-! # What the passes leave alone

The passes write memory, set dependency flags, run handlers and record what they
do. A property of the state that looks at none of these survives every operation
up to the end of the relocations.
-/

namespace ElfLoader

open Exec

variable {w : Nat} {K P Q : Type}

def Event.isInitCalled : Event w → Bool
  | .initCalled _ _ => true
  | _ => false

section Passes

variable [CustomHasher]

/-- The parts that the passes write do not matter for `I`. -/
structure Untouched (I : RelocState w K P Q → Prop) : Prop where
  push : ∀ {s e}, e.isInitCalled = false → I s → I (s.push e)
  update : ∀ {s} pre post mem dependencyFlags, I s →
    I { s with pre, post, dependencyFlags, os := { s.os with mem } }

variable {I : RelocState w K P Q → Prop} (hI : Untouched I)

include hI

/-! ## The operations of the passes -/

namespace Reloc

theorem record_keeps {e : Event w} (he : e.isInitCalled = false) :
    Keeps I (record e : Reloc w K P Q Unit) :=
  Keeps.modify fun _ h => hI.push he h

theorem modifyMem_keeps (f : ByteMemory.Bytes w → ByteMemory.Bytes w) :
    Keeps I (modifyMem f : Reloc w K P Q Unit) :=
  Keeps.modify fun s h => hI.update s.pre s.post _ s.dependencyFlags h

theorem store_keeps (ref : RelRef w) (addr value : BitVec w) :
    Keeps I (store ref addr value : Reloc w K P Q Unit) :=
  Keeps.bind Keeps.get fun _ => Keeps.bind (record_keeps hI rfl) fun _ => modifyMem_keeps hI _

theorem setFlag_keeps (idx : Nat) : Keeps I (setFlag idx : Reloc w K P Q Unit) := by
  intro s h
  unfold setFlag
  rw [bind_of_ok (get_apply s)]
  split
  · exact hI.update s.pre s.post s.os.mem _ h
  · exact h

theorem setFlagOption_keeps (idx : Option Nat) :
    Keeps I (setFlag? idx : Reloc w K P Q Unit) := by
  cases idx with
  | none => exact Keeps.pure ()
  | some idx => exact setFlag_keeps hI idx

theorem onPre_keeps (x : EStateM Halt (P × ByteMemory.Bytes w) Answer) :
    Keeps I (onPre x : Reloc w K P Q Answer) := by
  intro s h
  unfold onPre
  split
  · exact hI.update _ s.post _ s.dependencyFlags h
  · exact hI.update _ s.post _ s.dependencyFlags h

theorem onPost_keeps (x : EStateM Halt (Q × ByteMemory.Bytes w) Answer) :
    Keeps I (onPost x : Reloc w K P Q Answer) := by
  intro s h
  unfold onPost
  split
  · exact hI.update s.pre _ _ s.dependencyFlags h
  · exact hI.update s.pre _ _ s.dependencyFlags h

theorem accept_keeps (answer : Answer) : Keeps I (accept answer : Reloc w K P Q Bool) := by
  unfold accept
  split
  · exact Keeps.pure true
  · exact Keeps.throw _
  · exact Keeps.bind (setFlagOption_keeps hI _) fun _ => Keeps.pure false

theorem ask_keeps (stage : Stage) (ref : RelRef w) {handler : Reloc w K P Q Answer}
    (hhandler : Keeps I handler) : Keeps I (ask stage ref handler) :=
  Keeps.bind (record_keeps hI rfl) fun _ =>
    Keeps.bind hhandler fun _ => Keeps.bind (record_keeps hI rfl) fun _ => accept_keeps hI _

end Reloc

/-! ## The passes -/

namespace DynamicImage

variable (proc : Process w K) (image : DynamicImage proc.arch) (helper : RelocHelper w P Q)

theorem relativeStep_keeps (ref : RelRef w) :
    Keeps I (relativeStep proc image ref : Reloc w K P Q Unit) :=
  Keeps.bind Keeps.get fun _ => Reloc.store_keeps hI _ _ _

theorem relrWord_keeps (addr : BitVec w) :
    Keeps I (relrWord proc image addr : Reloc w K P Q Unit) :=
  Keeps.bind (Reloc.record_keeps hI rfl) fun _ => Reloc.modifyMem_keeps hI _

theorem relrBitmap_keeps (relocAddr : BitVec w) (fuel : Nat) (bitmap : BitVec w) (idx : Nat) :
    Keeps I (relrBitmap proc image relocAddr fuel bitmap idx : Reloc w K P Q Unit) := by
  induction fuel generalizing bitmap idx with
  | zero => exact Keeps.pure ()
  | succ fuel ih =>
      unfold relrBitmap
      refine Keeps.ite ?_ (Keeps.pure ())
      exact Keeps.ite (Keeps.bind (relrWord_keeps hI proc image _) fun _ => ih _ _) (ih _ _)

theorem relrLoop_keeps (words : List (BitVec w)) (relocAddr : BitVec w) :
    Keeps I (relrLoop proc image words relocAddr : Reloc w K P Q Unit) := by
  induction words generalizing relocAddr with
  | nil => exact Keeps.pure ()
  | cons value words ih =>
      unfold relrLoop
      refine Keeps.ite ?_ ?_
      · exact Keeps.bind (relrWord_keeps hI proc image _) fun _ => ih _
      · exact Keeps.bind (relrBitmap_keeps hI proc image _ _ _ _) fun _ => ih _

theorem relocateRelative_keeps :
    Keeps I (relocateRelative proc image : Reloc w K P Q Unit) := by
  unfold relocateRelative
  split
  · exact Keeps.ite (Keeps.forM fun ref _ => relativeStep_keeps hI proc image ref) (Keeps.throw _)
  · exact relrLoop_keeps hI proc image _ _

theorem handlePre_keeps (hctx : RelocationContext w) :
    Keeps I (helper.handlePre hctx : Reloc w K P Q Bool) :=
  Reloc.ask_keeps hI _ _ (Reloc.onPre_keeps hI _)

theorem handlePost_keeps (hctx : RelocationContext w) :
    Keeps I (helper.handlePost hctx : Reloc w K P Q Bool) :=
  Reloc.ask_keeps hI _ _ (Reloc.onPost_keeps hI _)

theorem dynrelDefault_keeps (ref : RelRef w) :
    Keeps I (dynrelDefault proc image helper ref : Reloc w K P Q Bool) := by
  unfold dynrelDefault
  refine Keeps.bind Keeps.get fun s => ?_
  refine Keeps.ite ?_ (Keeps.ite ?_ (Keeps.ite ?_ (Keeps.ite ?_ (Keeps.ite ?_ ?_))))
  · refine Keeps.bind (Keeps.lift _) fun found => ?_
    cases found with
    | none => exact Keeps.pure false
    | some found =>
        exact Keeps.bind (Reloc.setFlagOption_keeps hI _) fun _ =>
          Keeps.bind (Reloc.store_keeps hI _ _ _) fun _ => Keeps.pure true
  · refine Keeps.bind (Keeps.lift _) fun found => ?_
    cases found with
    | none => exact Keeps.pure false
    | some found =>
        exact Keeps.bind (Reloc.setFlagOption_keeps hI _) fun _ => Keeps.bind (Keeps.lift _) fun _ =>
          Keeps.bind (Reloc.store_keeps hI _ _ _) fun _ => Keeps.pure true
  · refine Keeps.bind (Keeps.lift _) fun found => ?_
    cases found with
    | none => exact Keeps.pure false
    | some found =>
        exact Keeps.bind (Keeps.lift _) fun _ => Keeps.bind (Reloc.setFlagOption_keeps hI _) fun _ =>
          Keeps.bind (Keeps.lift _) fun _ => Keeps.bind (Reloc.record_keeps hI rfl) fun _ =>
            Keeps.bind (Reloc.modifyMem_keeps hI _) fun _ => Keeps.pure true
  · exact Keeps.bind (Reloc.store_keeps hI _ _ _) fun _ => Keeps.pure true
  · exact Keeps.pure true
  · exact Keeps.pure false

theorem pltrelDefault_keeps (isLazy : Bool) (ref : RelRef w) :
    Keeps I (pltrelDefault proc image helper isLazy ref : Reloc w K P Q Bool) := by
  unfold pltrelDefault
  refine Keeps.bind Keeps.get fun s => ?_
  refine Keeps.ite (Keeps.ite ?_ ?_) (Keeps.ite ?_ ?_)
  · exact Keeps.bind (Reloc.record_keeps hI rfl) fun _ =>
      Keeps.bind (Reloc.modifyMem_keeps hI _) fun _ => Keeps.pure true
  · refine Keeps.bind (Keeps.lift _) fun found => ?_
    cases found with
    | none => exact Keeps.pure true
    | some found =>
        exact Keeps.bind (Reloc.setFlagOption_keeps hI _) fun _ =>
          Keeps.bind (Reloc.store_keeps hI _ _ _) fun _ => Keeps.pure true
  · exact Keeps.bind (Reloc.store_keeps hI _ _ _) fun _ => Keeps.pure true
  · exact Keeps.pure false

theorem offerPost_keeps (ref : RelRef w) :
    Keeps I (offerPost proc image helper ref : Reloc w K P Q Unit) := by
  refine Keeps.bind (handlePost_keeps hI helper _) fun declined => Keeps.ite ?_ (Keeps.pure ())
  exact Keeps.bind (Reloc.record_keeps hI rfl) fun _ =>
    Keeps.bind (Keeps.lift _) fun _ => Keeps.throw _

theorem relocStep_keeps {default : RelRef w → Reloc w K P Q Bool}
    (hdefault : ∀ ref, Keeps I (default ref)) (ref : RelRef w) :
    Keeps I (relocStep proc image helper default ref) := by
  refine Keeps.bind (handlePre_keeps hI helper _) fun declined => Keeps.ite ?_ (Keeps.pure ())
  exact Keeps.bind (hdefault ref) fun taken =>
    Keeps.ite (Keeps.pure ()) (offerPost_keeps hI proc image helper ref)

theorem relocateDynrel_keeps :
    Keeps I (relocateDynrel proc image helper : Reloc w K P Q Unit) :=
  Keeps.forM fun ref _ =>
    relocStep_keeps hI proc image helper (dynrelDefault_keeps hI proc image helper) ref

theorem pltrelLoop_keeps (isLazy : Bool) :
    Keeps I (image.relocation.pltrel.forM
      (relocStep proc image helper (pltrelDefault proc image helper isLazy))) :=
  Keeps.forM fun ref _ =>
    relocStep_keeps hI proc image helper (pltrelDefault_keeps hI proc image helper isLazy) ref

end DynamicImage

end Passes

end ElfLoader
