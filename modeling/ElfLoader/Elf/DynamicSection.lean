import ElfLoader.Relocation.Split
import ElfLoader.Segment.Basic

/-! # Parsing `.dynamic` (`src/elf/dynamic.rs`)

The section is a run of tag and value pairs in memory that ends with `DT_NULL`.
The loop only stores values; what they have to satisfy is checked behind it.
-/

namespace ElfLoader

open ByteMemory

variable {w : Nat}

def dtNull : Nat := 0
def dtNeeded : Nat := 1
def dtPltrelsz : Nat := 2
def dtPltgot : Nat := 3
def dtHash : Nat := 4
def dtStrtab : Nat := 5
def dtSymtab : Nat := 6
def dtRela : Nat := 7
def dtRelasz : Nat := 8
def dtInit : Nat := 12
def dtFini : Nat := 13
def dtRpath : Nat := 15
def dtRel : Nat := 17
def dtRelsz : Nat := 18
def dtPltrel : Nat := 20
def dtJmprel : Nat := 23
def dtInitArray : Nat := 25
def dtFiniArray : Nat := 26
def dtInitArraysz : Nat := 27
def dtFiniArraysz : Nat := 28
def dtRunpath : Nat := 29
def dtFlags : Nat := 30
def dtRelrsz : Nat := 35
def dtRelr : Nat := 36
def dtGnuHash : Nat := 0x6ffffef5
def dtVersym : Nat := 0x6ffffff0
def dtRelacount : Nat := 0x6ffffff9
def dtRelcount : Nat := 0x6ffffffa
def dtFlags1 : Nat := 0x6ffffffb
def dtVerdef : Nat := 0x6ffffffc
def dtVerdefnum : Nat := 0x6ffffffd
def dtVerneed : Nat := 0x6ffffffe
def dtVerneednum : Nat := 0x6fffffff

def dfBindNow : Nat := 8
def df1Now : Nat := 1

/-- The locals of `ElfDynamic::new` that the loop fills. -/
structure DynamicTags (w : Nat) where
  symtabOff : BitVec w := 0
  strtabOff : BitVec w := 0
  elfHashOff : Option (BitVec w) := none
  gnuHashOff : Option (BitVec w) := none
  gotOff : Option (BitVec w) := none
  pltrelSize : Option (BitVec w) := none
  pltrelOff : Option (BitVec w) := none
  relOff : Option (BitVec w) := none
  relSize : Option (BitVec w) := none
  relCount : Option (BitVec w) := none
  relrOff : Option (BitVec w) := none
  relrSize : Option (BitVec w) := none
  initOff : Option (BitVec w) := none
  finiOff : Option (BitVec w) := none
  initArrayOff : Option (BitVec w) := none
  initArraySize : Option (BitVec w) := none
  finiArrayOff : Option (BitVec w) := none
  finiArraySize : Option (BitVec w) := none
  versionIdsOff : Option (BitVec w) := none
  verneedOff : Option (BitVec w) := none
  verneedNum : Option (BitVec w) := none
  verdefOff : Option (BitVec w) := none
  verdefNum : Option (BitVec w) := none
  rpathOff : Option (BitVec w) := none
  runpathOff : Option (BitVec w) := none
  flags : BitVec w := 0
  flags1 : BitVec w := 0
  isRela : Option Bool := none
  neededLibs : List (BitVec w) := []
deriving DecidableEq

/-- `NonZeroUsize::new`. -/
def nonZero (un : BitVec w) : Option (BitVec w) := if un = 0 then none else some un

/-- The arms of the loop's `match` that store a value or `NonZeroUsize::new` of it. -/
def DynamicTags.set (t : DynamicTags w) (tag : Nat) (un : BitVec w) : DynamicTags w :=
  if tag = dtFlags then { t with flags := un }
  else if tag = dtFlags1 then { t with flags1 := un }
  else if tag = dtPltgot then { t with gotOff := nonZero un }
  else if tag = dtNeeded then { t with neededLibs := t.neededLibs ++ (nonZero un).toList }
  else if tag = dtHash then { t with elfHashOff := some un }
  else if tag = dtGnuHash then { t with gnuHashOff := some un }
  else if tag = dtSymtab then { t with symtabOff := un }
  else if tag = dtStrtab then { t with strtabOff := un }
  else if tag = dtPltrelsz then { t with pltrelSize := nonZero un }
  else if tag = dtPltrel then { t with isRela := some (un.toNat = dtRela) }
  else if tag = dtJmprel then { t with pltrelOff := nonZero un }
  else if tag = dtRelr then { t with relrOff := nonZero un }
  else if tag = dtRela ∨ tag = dtRel then
    { t with isRela := some (tag = dtRela), relOff := nonZero un }
  else if tag = dtRelasz ∨ tag = dtRelsz then { t with relSize := nonZero un }
  else if tag = dtRelrsz then { t with relrSize := nonZero un }
  else if tag = dtRelacount ∨ tag = dtRelcount then { t with relCount := nonZero un }
  else if tag = dtInit then { t with initOff := nonZero un }
  else if tag = dtFini then { t with finiOff := nonZero un }
  else if tag = dtInitArray then { t with initArrayOff := nonZero un }
  else if tag = dtInitArraysz then { t with initArraySize := nonZero un }
  else if tag = dtFiniArray then { t with finiArrayOff := nonZero un }
  else if tag = dtFiniArraysz then { t with finiArraySize := nonZero un }
  else t

/-- The arms that store `NonZeroUsize::new_unchecked` of the value. -/
def DynamicTags.setUnchecked (t : DynamicTags w) (tag : Nat) (val : BitVec w) : DynamicTags w :=
  if tag = dtVersym then { t with versionIdsOff := some val }
  else if tag = dtVerneed then { t with verneedOff := some val }
  else if tag = dtVerneednum then { t with verneedNum := some val }
  else if tag = dtVerdef then { t with verdefOff := some val }
  else if tag = dtVerdefnum then { t with verdefNum := some val }
  else if tag = dtRpath then { t with rpathOff := some val }
  else if tag = dtRunpath then { t with runpathOff := some val }
  else t

def uncheckedTags : List Nat :=
  [dtVersym, dtVerneed, dtVerneednum, dtVerdef, dtVerdefnum, dtRpath, dtRunpath]

/-- The `match` of the loop, for an entry that is not `DT_NULL`. A zero in an
unchecked `NonZeroUsize` is undefined behaviour. -/
def DynamicTags.store (t : DynamicTags w) (tag : Nat) (un : BitVec w) :
    Except Halt (DynamicTags w) :=
  if tag ∈ uncheckedTags then
    if un = 0 then .error .fault else .ok (t.setUnchecked tag un)
  else .ok (t.set tag un)

/-- The loop. A pointer that has been everywhere without meeting `DT_NULL` goes
round for ever. -/
def parseTags (m : Bytes w) : Nat → BitVec w → DynamicTags w → Except Halt (DynamicTags w)
  | 0, _, _ => .error .diverge
  | fuel + 1, ptr, t => do
      let tag := (readWord m ptr).toNat
      if tag = dtNull then return t
      else
        let t ← t.store tag (readWord m (ptr + BitVec.ofNat w (w / 8)))
        parseTags m fuel (ptr + BitVec.ofNat w (2 * (w / 8))) t

namespace ElfSegments

/-- `get_slice` for elements of `size` bytes. -/
def getSlice (segs : ElfSegments w) (size : Nat) (start len : BitVec w) : Slice w where
  ptr := segs.base + start
  count := len.toNat / size

def getPtr (segs : ElfSegments w) (offset : BitVec w) : BitVec w := segs.base + offset

end ElfSegments

/-- `ElfDynamicHashTab` with the address of the table. -/
inductive HashTabAddr (w : Nat) where
  | gnu (off : BitVec w)
  | elf (off : BitVec w)
deriving DecidableEq

def HashTabAddr.add (rhs : BitVec w) : HashTabAddr w → HashTabAddr w
  | .gnu off => .gnu (off + rhs)
  | .elf off => .elf (off + rhs)

structure ElfDynamic (w : Nat) where
  dynPtr : BitVec w
  hashtab : HashTabAddr w
  symtab : BitVec w
  strtab : BitVec w
  bindNow : Bool
  gotPlt : Option (BitVec w)
  initFn : Option (BitVec w)
  initArrayFn : Option (Slice w)
  finiFn : Option (BitVec w)
  finiArrayFn : Option (Slice w)
  pltrel : Option (Slice w)
  dynrel : Option (Slice w)
  relr : Option (Slice w)
  relCount : Option (BitVec w)
  neededLibs : List (BitVec w)
  versionIdx : Option (BitVec w)
  verneed : Option (BitVec w × BitVec w)
  verdef : Option (BitVec w × BitVec w)
  rpathOff : Option (BitVec w)
  runpathOff : Option (BitVec w)
deriving DecidableEq

namespace ElfDynamic

/-- The assertion that the file uses the relocation entries of the target. -/
def checkRelType (arch : Arch w) (t : DynamicTags w) : Except Halt Unit :=
  match t.isRela with
  | none => .ok ()
  | some isRela =>
      if isRela = !arch.inPlaceAddend then .ok ()
      else .error (.panic "assertion failed")

/-- `off.checked_add(base).unwrap()`. -/
def checkedBase (base off : BitVec w) : Except Halt (BitVec w) :=
  if off.toNat + base.toNat < 2 ^ w then .ok (off + base)
  else .error (.panic "called `Option::unwrap()` on a `None` value")

/-- A version table: its address and its number of records. -/
def versionTable (base : BitVec w) (off num : Option (BitVec w)) :
    Except Halt (Option (BitVec w × BitVec w)) :=
  match off with
  | none => .ok none
  | some off => do
      let ptr ← checkedBase base off
      match num with
      | none => .error (.panic "called `Option::unwrap()` on a `None` value")
      | some num => return some (ptr, num)

/-- The GNU hash table is preferred. -/
def hashOff (t : DynamicTags w) : Except Halt (HashTabAddr w) :=
  match t.gnuHashOff, t.elfHashOff with
  | some off, _ => .ok (.gnu off)
  | none, some off => .ok (.elf off)
  | none, none =>
      .error (.err (.parseDynamic "dynamic section does not have DT_GNU_HASH nor DT_HASH"))

/-- The address of `DT_VERSYM`. -/
def versionIds (base : BitVec w) (off : Option (BitVec w)) : Except Halt (Option (BitVec w)) :=
  match off with
  | none => .ok none
  | some off => do return some (← checkedBase base off)

/-- The record that `ElfDynamic::new` returns. -/
def assemble (arch : Arch w) (segs : ElfSegments w) (dynamicPtr : BitVec w) (t : DynamicTags w)
    (hashOff : HashTabAddr w) (verneed verdef : Option (BitVec w × BitVec w))
    (versionIdx : Option (BitVec w)) : ElfDynamic w :=
  let base := segs.base
  let slice (size : Nat) (off len : Option (BitVec w)) : Option (Slice w) :=
    off.map fun off => segs.getSlice size off (len.getD 0)
  { dynPtr := dynamicPtr
    hashtab := hashOff.add base
    symtab := t.symtabOff + base
    strtab := t.strtabOff + base
    bindNow := t.flags &&& BitVec.ofNat w dfBindNow ≠ 0 || t.flags1 &&& BitVec.ofNat w df1Now ≠ 0
    gotPlt := t.gotOff.bind fun off => nonZero (base + off)
    initFn := t.initOff.map segs.getPtr
    initArrayFn := slice (w / 8) t.initArrayOff t.initArraySize
    finiFn := t.finiOff.map segs.getPtr
    finiArrayFn := slice (w / 8) t.finiArrayOff t.finiArraySize
    pltrel := slice (entrySize arch) t.pltrelOff t.pltrelSize
    dynrel := slice (entrySize arch) t.relOff t.relSize
    relr := slice (w / 8) t.relrOff t.relrSize
    relCount := t.relCount
    neededLibs := t.neededLibs
    versionIdx
    verneed
    verdef
    rpathOff := t.rpathOff
    runpathOff := t.runpathOff }

/-- What `ElfDynamic::new` does with the parsed tags. -/
def ofTags (arch : Arch w) (segs : ElfSegments w) (dynamicPtr : BitVec w) (t : DynamicTags w) :
    Except Halt (ElfDynamic w) := do
  checkRelType arch t
  let hashOff ← hashOff t
  let verneed ← versionTable segs.base t.verneedOff t.verneedNum
  let verdef ← versionTable segs.base t.verdefOff t.verdefNum
  let versionIdx ← versionIds segs.base t.versionIdsOff
  return assemble arch segs dynamicPtr t hashOff verneed verdef versionIdx

/-- `ElfDynamic::new`. -/
def new (arch : Arch w) (m : Bytes w) (segs : ElfSegments w) (dynamicPtr : BitVec w) :
    Except Halt (ElfDynamic w) := do
  let t ← parseTags m (2 ^ w) dynamicPtr {}
  ofTags arch segs dynamicPtr t

end ElfDynamic

/-! ## When parsing returns `Err` -/

/-- A bind stops with `e` only if one of its parts does. -/
theorem bind_ne_err {α β : Type} {x : Except Halt α} {f : α → Except Halt β} {e : Error}
    (hx : x ≠ .error (.err e)) (hf : ∀ a, x = .ok a → f a ≠ .error (.err e)) :
    (x >>= f) ≠ .error (.err e) := by
  cases h : x with
  | ok a => exact hf a h
  | error h' =>
      rw [h] at hx
      intro hbind
      cases hbind
      exact hx rfl

theorem DynamicTags.store_ne_err {t : DynamicTags w} {tag : Nat} {un : BitVec w} {e : Error} :
    t.store tag un ≠ .error (.err e) := by
  unfold DynamicTags.store
  split
  · split <;> simp
  · simp

theorem parseTags_ne_err {m : Bytes w} {fuel : Nat} {ptr : BitVec w} {t : DynamicTags w}
    {e : Error} : parseTags m fuel ptr t ≠ .error (.err e) := by
  induction fuel generalizing ptr t with
  | zero => simp [parseTags]
  | succ fuel ih =>
      unfold parseTags
      dsimp only
      split
      · simp [pure, Except.pure]
      · exact bind_ne_err DynamicTags.store_ne_err fun _ _ => ih

namespace ElfDynamic

theorem checkRelType_ne_err {arch : Arch w} {t : DynamicTags w} {e : Error} :
    checkRelType arch t ≠ .error (.err e) := by
  unfold checkRelType
  split
  · simp
  · split <;> simp

theorem checkedBase_ne_err {base off : BitVec w} {e : Error} :
    checkedBase base off ≠ .error (.err e) := by
  unfold checkedBase
  split <;> simp

theorem versionTable_ne_err {base : BitVec w} {off num : Option (BitVec w)} {e : Error} :
    versionTable base off num ≠ .error (.err e) := by
  unfold versionTable
  split
  · simp
  · refine bind_ne_err checkedBase_ne_err fun _ _ => ?_
    split <;> simp [pure, Except.pure]

theorem versionIds_ne_err {base : BitVec w} {off : Option (BitVec w)} {e : Error} :
    versionIds base off ≠ .error (.err e) := by
  cases off with
  | none => simp [versionIds]
  | some off => exact bind_ne_err checkedBase_ne_err fun _ _ => by simp [pure, Except.pure]

/-- The section names no hash table, and the parser gets as far as to see that. -/
def LacksHash (arch : Arch w) (m : Bytes w) (dynamicPtr : BitVec w) : Prop :=
  ∃ t, parseTags m (2 ^ w) dynamicPtr {} = .ok t ∧ checkRelType arch t = .ok () ∧
    t.gnuHashOff = none ∧ t.elfHashOff = none

theorem hashOff_err_iff {t : DynamicTags w} :
    (∃ e, hashOff t = .error (.err e)) ↔ t.gnuHashOff = none ∧ t.elfHashOff = none := by
  unfold hashOff
  cases t.gnuHashOff with
  | some off => simp
  | none =>
      cases t.elfHashOff with
      | some off => simp
      | none => simp

theorem bind_err_iff {α β : Type} {x : Except Halt α} {f : α → Except Halt β} {e : Error}
    (hx : ∀ e, x ≠ .error (.err e)) :
    (x >>= f) = .error (.err e) ↔ ∃ a, x = .ok a ∧ f a = .error (.err e) := by
  cases h : x with
  | ok a => simp [bind, Except.bind]
  | error h' =>
      rw [h] at hx
      simp only [reduceCtorEq, false_and, exists_false, iff_false]
      intro hbind
      cases hbind
      exact hx e rfl

theorem new_err_iff {arch : Arch w} {m : Bytes w} {segs : ElfSegments w} {dynamicPtr : BitVec w} :
    (∃ e, new arch m segs dynamicPtr = .error (.err e)) ↔ LacksHash arch m dynamicPtr := by
  unfold new LacksHash ofTags
  simp only [bind_err_iff fun _ => parseTags_ne_err, bind_err_iff fun _ => checkRelType_ne_err]
  -- only the search for a hash table can return an error
  have hrest : ∀ t e, (hashOff t >>= fun hashOff => do
      let verneed ← versionTable segs.base t.verneedOff t.verneedNum
      let verdef ← versionTable segs.base t.verdefOff t.verdefNum
      let versionIdx ← versionIds segs.base t.versionIdsOff
      return assemble arch segs dynamicPtr t hashOff verneed verdef versionIdx) = .error (.err e) ↔
        hashOff t = .error (.err e) := by
    intro t e
    cases hashOff t with
    | error h => simp [bind, Except.bind]
    | ok off =>
        simp only [reduceCtorEq, iff_false]
        refine bind_ne_err (by simp) fun _ _ => bind_ne_err versionTable_ne_err fun _ _ => ?_
        refine bind_ne_err versionTable_ne_err fun _ _ => bind_ne_err versionIds_ne_err fun _ _ => ?_
        simp [pure, Except.pure]
  simp only [hrest]
  constructor
  · rintro ⟨e, t, ht, u, hcheck, hhash⟩
    exact ⟨t, ht, hcheck, hashOff_err_iff.mp ⟨e, hhash⟩⟩
  · rintro ⟨t, ht, hcheck, hhash⟩
    obtain ⟨e, he⟩ := hashOff_err_iff.mpr hhash
    exact ⟨e, t, ht, (), hcheck, he⟩

end ElfDynamic

end ElfLoader
