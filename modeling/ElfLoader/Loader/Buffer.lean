import ElfLoader.Library.Hidden
import ElfLoader.Library.Splice
import ElfLoader.Loader

/-! # The buffer of the loader (`ElfBuf` of `src/loader.rs`)

All headers are read into one buffer, which only grows and is shared by the calls of
one loader. They are looked at where they have been read, and the section headers are
changed there.
-/

namespace ElfLoader

open ByteMemory Exec

variable {w : Nat} {K O α : Type}

/-! ## Readers that fill a buffer -/

/-- Two reads into buffers that held different bytes. -/
def SameFill : (r r' : EStateM.Result Halt (O × List UInt8) Unit) → Prop
  | .ok _ s, .ok _ s' => s = s'
  | .error e s, .error e' s' => e = e' ∧ s.1 = s'.1
  | _, _ => False

/-- The trait `ElfReader`, with the buffer in the state. `read` does not look at what
the buffer held, and writes all of it when it returns; when it fails it may have written
a part. A slice has less than `isize::MAX` bytes. -/
structure BufReader (w : Nat) (O : Type) where
  read : (offset : BitVec w) → EStateM Halt (O × List UInt8) Unit
  asFd : O → Option Int
  length_read : ∀ offset s, s.2.length < 2 ^ (w - 1) →
    (finalState (read offset s)).2.length = s.2.length
  same_read : ∀ offset o {buf buf' : List UInt8}, buf.length = buf'.length →
    buf.length < 2 ^ (w - 1) → SameFill (read offset (o, buf)) (read offset (o, buf'))

/-- A vector has less than `isize::MAX` bytes. -/
def capacityOverflow : Halt := .panic "capacity overflow"

/-- The reader that hands out what it has read: a new buffer for every read. -/
def BufReader.toReader (R : BufReader w O) : ElfReader w O where
  read := fun len offset o =>
    if 2 ^ (w - 1) ≤ len then .error capacityOverflow o
    else
      match R.read offset (o, List.replicate len 0) with
      | .ok _ s => .ok s.2 s.1
      | .error e s => .error e s.1
  asFd := R.asFd

/-! ## The buffer in the state -/

structure BufState (w : Nat) (K O : Type) where
  load : LoadState w K O
  buf : List UInt8

abbrev BufLoad (w : Nat) (K O α : Type) := EStateM Halt (BufState w K O) α

/-- Code that does not touch the buffer. -/
def BufLoad.lift (x : Load w K O α) : BufLoad w K O α :=
  onView BufState.load (fun load s => { s with load }) x

def BufLoad.unwrapResult (x : BufLoad w K O α) : BufLoad w K O α := fun s =>
  match x s with
  | .ok a s => .ok a s
  | .error (.err _) s => .error (.panic "called `Result::unwrap()` on an `Err` value") s
  | .error h s => .error h s

namespace ElfBuf

/-- `ElfBuf::new`. -/
def new (w : Nat) : List UInt8 := List.replicate (ehdrSize w) 0

/-- `object.read(&mut self.buf[..size], offset)`. -/
def readInto (R : BufReader w O) (size : Nat) (offset : BitVec w) : BufLoad w K O Unit := fun s =>
  if s.buf.length < size then
    .error (.panic "range end index out of range for slice") s
  else
    match R.read offset (s.load.object, s.buf.take size) with
    | .ok _ (object, front) =>
        .ok () { load := { s.load with object }, buf := front ++ s.buf.drop size }
    | .error e (object, front) =>
        .error e { load := { s.load with object }, buf := front ++ s.buf.drop size }

/-- `self.buf.resize(size, 0)`, where the buffer is shorter. -/
def grow (size : Nat) : BufLoad w K O Unit := do
  let s ← get
  if size > s.buf.length then
    if 2 ^ (w - 1) ≤ size then throw capacityOverflow
    else set { s with buf := s.buf ++ List.replicate (size - s.buf.length) 0 }

/-- `prepare_ehdr`. -/
def prepareEhdrIn (emArch : UInt16) (R : BufReader w O) : BufLoad w K O (Ehdr w) := do
  readInto R (ehdrSize w) 0
  let s ← get
  Exec.lift (Ehdr.new emArch s.buf)

/-- The common body of `prepare_phdrs` and `prepare_shdrs_mut`: the records of a table,
where they stand in the buffer. -/
def prepareTable {T : Type} (ofBytes : List UInt8 → T) (recSize : Nat) (R : BufReader w O)
    (range : BitVec w × BitVec w) : BufLoad w K O (List T) := do
  let size := range.2 - range.1
  grow size.toNat
  readInto R size.toNat range.1
  let s ← get
  return records ofBytes recSize s.buf (size.toNat / recSize)

def preparePhdrsIn (R : BufReader w O) (ehdr : Ehdr w) : BufLoad w K O (List (ElfPhdr w)) :=
  prepareTable ElfPhdr.ofBytes (phdrSize w) R ehdr.phdrRange

def prepareShdrsMutIn (R : BufReader w O) (ehdr : Ehdr w) : BufLoad w K O (List (ElfShdr w)) :=
  prepareTable ElfShdr.ofBytes (shdrSize w) R ehdr.shdrRange

end ElfBuf

/-- A section header as it stands in the buffer. -/
def ElfShdr.toBytes (shdr : ElfShdr w) : List UInt8 :=
  leBytes shdr.shName.toBitVec ++ leBytes shdr.shType.toBitVec ++ leBytes shdr.shFlags ++
    leBytes shdr.shAddr ++ leBytes shdr.shOffset ++ leBytes shdr.shSize ++
    leBytes shdr.shLink.toBitVec ++ leBytes shdr.shInfo.toBitVec ++ leBytes shdr.shAddralign ++
    leBytes shdr.shEntsize

/-- The section headers of the file are changed through the slice that
`prepare_shdrs_mut` returned. -/
def ElfBuf.storeShdrs (shdrs : List (ElfShdr w)) : BufLoad w K O Unit :=
  modify fun s =>
    let bytes := shdrs.flatMap ElfShdr.toBytes
    { s with buf := bytes.take s.buf.length ++ s.buf.drop bytes.length }

/-! ## Views of the front of a buffer -/

/-- `f` does not look behind the first `size` bytes. -/
def FrontOnly {T : Type} (size : Nat) (f : List UInt8 → T) : Prop :=
  ∀ bytes rest : List UInt8, size ≤ bytes.length → f (bytes ++ rest) = f bytes

namespace FrontOnly

theorem comp {T T' : Type} {size : Nat} {f : List UInt8 → T} (hf : FrontOnly size f)
    (g : T → T') : FrontOnly size fun bytes => g (f bytes) :=
  fun bytes rest h => congrArg g (hf bytes rest h)

theorem fieldNat {size off len : Nat} (h : off + len ≤ size) :
    FrontOnly size fun bytes => fieldNat bytes off len := by
  intro bytes rest hsize
  dsimp only
  rw [ElfLoader.fieldNat, ElfLoader.fieldNat, List.drop_append_of_le_length (by omega),
    List.take_append_of_le_length (by rw [List.length_drop]; omega)]

theorem field16 {size off : Nat} (h : off + 2 ≤ size) :
    FrontOnly size fun bytes => field16 bytes off :=
  (fieldNat h).comp UInt16.ofNat

theorem field32 {size off : Nat} (h : off + 4 ≤ size) :
    FrontOnly size fun bytes => field32 bytes off :=
  (fieldNat h).comp UInt32.ofNat

theorem fieldWord {size off : Nat} (h : off + w / 8 ≤ size) :
    FrontOnly size fun bytes => (fieldWord bytes off : BitVec w) :=
  (fieldNat h).comp (BitVec.ofNat w)

/-- Records that look at their own bytes only. -/
theorem records {T : Type} {ofBytes : List UInt8 → T} {recSize : Nat}
    (h : FrontOnly recSize ofBytes) {size count : Nat} (hcount : count * recSize ≤ size) :
    FrontOnly size fun bytes => records ofBytes recSize bytes count := by
  intro bytes rest hsize
  apply List.map_congr_left
  intro k hk
  have hend : (k + 1) * recSize ≤ size :=
    (Nat.mul_le_mul_right recSize (List.mem_range.mp hk)).trans hcount
  rw [Nat.add_one_mul] at hend
  rw [List.drop_append_of_le_length (by omega)]
  exact h _ _ (by rw [List.length_drop]; omega)

end FrontOnly

theorem Ehdr.ofBytes_frontOnly :
    FrontOnly (ehdrSize w) (Ehdr.ofBytes : List UInt8 → Ehdr w) := by
  intro bytes rest hsize
  have h16 : ∀ off, off + 2 ≤ ehdrSize w → field16 (bytes ++ rest) off = field16 bytes off :=
    fun off h => FrontOnly.field16 h bytes rest hsize
  have h32 : ∀ off, off + 4 ≤ ehdrSize w → field32 (bytes ++ rest) off = field32 bytes off :=
    fun off h => FrontOnly.field32 h bytes rest hsize
  have hword : ∀ off, off + w / 8 ≤ ehdrSize w →
      (fieldWord (bytes ++ rest) off : BitVec w) = fieldWord bytes off :=
    fun off h => FrontOnly.fieldWord h bytes rest hsize
  unfold ehdrSize at hsize h16 h32 hword
  simp (disch := omega) only [Ehdr.ofBytes, h16, h32, hword, List.take_append_of_le_length]

theorem Ehdr.new_frontOnly (emArch : UInt16) :
    FrontOnly (ehdrSize w) (Ehdr.new emArch : List UInt8 → Except Halt (Ehdr w)) := by
  intro bytes rest hsize
  rw [Ehdr.new, Ehdr.new, Ehdr.ofBytes_frontOnly bytes rest hsize]

theorem ElfPhdr.ofBytes_frontOnly [WordSize w] :
    FrontOnly (phdrSize w) (ElfPhdr.ofBytes : List UInt8 → ElfPhdr w) := by
  intro bytes rest hsize
  have h32 : ∀ off, off + 4 ≤ phdrSize w → field32 (bytes ++ rest) off = field32 bytes off :=
    fun off h => FrontOnly.field32 h bytes rest hsize
  have hword : ∀ off, off + w / 8 ≤ phdrSize w →
      (fieldWord (bytes ++ rest) off : BitVec w) = fieldWord bytes off :=
    fun off h => FrontOnly.fieldWord h bytes rest hsize
  rcases WordSize.eq_32_or_64 (w := w) with rfl | rfl
  all_goals
    simp (disch := decide) only [ElfPhdr.ofBytes, h32, hword]

theorem ElfShdr.ofBytes_frontOnly :
    FrontOnly (shdrSize w) (ElfShdr.ofBytes : List UInt8 → ElfShdr w) := by
  intro bytes rest hsize
  have h32 : ∀ off, off + 4 ≤ shdrSize w → field32 (bytes ++ rest) off = field32 bytes off :=
    fun off h => FrontOnly.field32 h bytes rest hsize
  have hword : ∀ off, off + w / 8 ≤ shdrSize w →
      (fieldWord (bytes ++ rest) off : BitVec w) = fieldWord bytes off :=
    fun off h => FrontOnly.fieldWord h bytes rest hsize
  unfold shdrSize at hsize h32 hword
  simp (disch := omega) only [ElfShdr.ofBytes, h32, hword]

/-! ## What stale bytes can do -/

namespace BufState

/-- The buffer has room for a file header, and is a vector. -/
def Ready (s : BufState w K O) : Prop :=
  ehdrSize w ≤ s.buf.length ∧ s.buf.length < 2 ^ (w - 1)

/-- Only the length of the buffer matters. -/
theorem Ready.of_length {s s' : BufState w K O} (h : s.Ready)
    (hlen : s'.buf.length = s.buf.length) : s'.Ready := by
  unfold Ready
  rwa [hlen]

end BufState

open BufState

theorem BufLoad.lift_hides (x : Load w K O α) :
    Hides BufState.load Ready (BufLoad.lift x) x := by
  apply Hides.onView
  · intro t s
    rfl
  · intro t s hs
    exact hs

theorem BufLoad.unwrapResult_hides {x : BufLoad w K O α} {y : Load w K O α}
    (h : Hides BufState.load Ready x y) :
    Hides BufState.load Ready (BufLoad.unwrapResult x) (ElfLoader.unwrapResult y) := by
  constructor
  · intro s hs
    have hresult := h.result s hs
    unfold BufLoad.unwrapResult ElfLoader.unwrapResult
    rw [← hresult]
    cases x s with
    | ok a t => rfl
    | error e t => cases e <;> rfl
  · intro s hs
    have hkeeps := h.keeps s hs
    unfold BufLoad.unwrapResult
    cases hrun : x s with
    | ok a t =>
        rw [hrun] at hkeeps
        exact hkeeps
    | error e t =>
        rw [hrun] at hkeeps
        cases e <;> exact hkeeps

namespace ElfBuf

/-- A read into the front of the buffer is a read into a new one. -/
theorem readInto_spec (R : BufReader w O) {size : Nat} (offset : BitVec w)
    {s : BufState w K O} (hsize : size ≤ s.buf.length) (hcap : size < 2 ^ (w - 1)) :
    match R.toReader.read size offset s.load.object with
    | .ok bytes object => bytes.length = size ∧ readInto R size offset s =
        .ok () { load := { s.load with object }, buf := bytes ++ s.buf.drop size }
    | .error e object => ∃ front : List UInt8, front.length = size ∧ readInto R size offset s =
        .error e { load := { s.load with object }, buf := front ++ s.buf.drop size } := by
  have hfront : (s.buf.take size).length = size := by
    rw [List.length_take]
    omega
  have hnew : (List.replicate size (0 : UInt8)).length = size := List.length_replicate
  have hsame := R.same_read offset s.load.object (hnew.trans hfront.symm) (by rwa [hnew])
  have hlen := R.length_read offset (s.load.object, List.replicate size 0) (by rwa [hnew])
  have hlen' := R.length_read offset (s.load.object, s.buf.take size) (by rwa [hfront])
  unfold readInto BufReader.toReader
  dsimp only
  rw [if_neg (by omega), if_neg (by omega)]
  cases hrun : R.read offset (s.load.object, List.replicate size 0) with
  | ok u t =>
      rw [hrun] at hsame hlen
      cases hrun' : R.read offset (s.load.object, s.buf.take size) with
      | ok u' t' =>
          rw [hrun'] at hsame
          cases hsame
          exact ⟨hlen.trans hnew, rfl⟩
      | error e t' =>
          rw [hrun'] at hsame
          exact hsame.elim
  | error e t =>
      rw [hrun] at hsame
      cases hrun' : R.read offset (s.load.object, s.buf.take size) with
      | ok u' t' =>
          rw [hrun'] at hsame
          exact hsame.elim
      | error e' t' =>
          rw [hrun'] at hsame hlen'
          obtain ⟨rfl, hobject⟩ := hsame
          refine ⟨t'.2, hlen'.trans hfront, ?_⟩
          rw [hobject]

/-- What is looked at in the buffer after a read is what has been read, when only the
front of the buffer is looked at. -/
theorem readInto_hides (R : BufReader w O) {size : Nat} (offset : BitVec w)
    {f : List UInt8 → Except Halt α} (hf : FrontOnly size f) :
    Hides BufState.load (fun s : BufState w K O => s.Ready ∧ size ≤ s.buf.length)
      (do
        readInto R size offset
        let s ← get
        Exec.lift (f s.buf))
      (Load.onObject (R.toReader.read size offset >>= fun bytes => Exec.lift (f bytes))) := by
  have hboth : ∀ s : BufState w K O, s.Ready ∧ size ≤ s.buf.length →
      mapState BufState.load
          ((readInto R size offset >>= fun _ => get >>= fun s => Exec.lift (f s.buf)) s) =
        Load.onObject (R.toReader.read size offset >>= fun bytes => Exec.lift (f bytes)) s.load ∧
      (finalState ((readInto R size offset >>= fun _ => get >>= fun s =>
        Exec.lift (f s.buf)) s)).buf.length = s.buf.length := by
    rintro s ⟨hready, hsize⟩
    have hspec := readInto_spec R offset hsize (Nat.lt_of_le_of_lt hsize hready.2)
    have hlen : ∀ front : List UInt8, front.length = size →
        (front ++ s.buf.drop size).length = s.buf.length := by
      intro front hfront
      rw [List.length_append, List.length_drop, hfront]
      omega
    cases hread : R.toReader.read size offset s.load.object with
    | ok bytes object =>
        rw [hread] at hspec
        obtain ⟨hbytes, hrun⟩ := hspec
        rw [bind_of_ok hrun, bind_of_ok (get_apply _), hf bytes _ hbytes.ge, finalState_lift]
        refine ⟨?_, hlen bytes hbytes⟩
        rw [Load.onObject, bind_of_ok hread]
        cases f bytes with
        | ok a => rfl
        | error e => rfl
    | error e object =>
        rw [hread] at hspec
        obtain ⟨front, hfront, hrun⟩ := hspec
        rw [bind_of_error hrun]
        refine ⟨?_, hlen front hfront⟩
        rw [Load.onObject, bind_of_error hread]
        rfl
  refine ⟨fun s hs => (hboth s hs).1, fun s hs => ?_⟩
  have hlen := (hboth s hs).2
  exact ⟨hs.1.of_length hlen, by rw [hlen]; exact hs.2⟩

theorem grow_of_big {size : Nat} {s : BufState w K O} (hs : s.Ready) (hsize : 2 ^ (w - 1) ≤ size) :
    grow size s = .error capacityOverflow s := by
  have hroom := hs.2
  rw [grow, bind_of_ok (get_apply s), if_pos (by omega), if_pos hsize]
  rfl

theorem grow_of_small {size : Nat} {s : BufState w K O} (hs : s.Ready)
    (hsize : size < 2 ^ (w - 1)) :
    ∃ s', grow size s = .ok () s' ∧ s'.load = s.load ∧ s'.Ready ∧ size ≤ s'.buf.length := by
  rw [grow, bind_of_ok (get_apply s)]
  by_cases hlong : size > s.buf.length
  · rw [if_pos hlong, if_neg (by omega)]
    refine ⟨_, rfl, rfl, ?_⟩
    have hlen : (s.buf ++ List.replicate (size - s.buf.length) (0 : UInt8)).length = size := by
      rw [List.length_append, List.length_replicate]
      omega
    have hehdr := hs.1
    unfold Ready
    dsimp only
    rw [hlen]
    omega
  · rw [if_neg hlong]
    exact ⟨s, rfl, rfl, hs, by omega⟩

theorem prepareEhdrIn_hides (emArch : UInt16) (R : BufReader w O) :
    Hides BufState.load Ready (prepareEhdrIn emArch R : BufLoad w K O (Ehdr w))
      (Load.onObject (prepareEhdr emArch R.toReader)) := by
  have hread := readInto_hides (K := K) R 0 (Ehdr.new_frontOnly (w := w) emArch)
  constructor
  · intro s hs
    exact hread.result s ⟨hs, hs.1⟩
  · intro s hs
    exact (hread.keeps s ⟨hs, hs.1⟩).1

/-- The records of a table do not depend on what the buffer held, nor on its size. -/
theorem prepareTable_hides {T : Type} {ofBytes : List UInt8 → T} {recSize : Nat}
    (hfront : FrontOnly recSize ofBytes) (R : BufReader w O) (range : BitVec w × BitVec w) :
    Hides BufState.load Ready (prepareTable ofBytes recSize R range : BufLoad w K O (List T))
      (Load.onObject do
        let size := range.2 - range.1
        let buf ← R.toReader.read size.toNat range.1
        return records ofBytes recSize buf (size.toNat / recSize)) := by
  have hrecords := (hfront.records (Nat.div_mul_le_self (range.2 - range.1).toNat recSize)).comp
    (Except.ok : List T → Except Halt (List T))
  have hread := readInto_hides (K := K) R range.1 hrecords
  rcases Nat.lt_or_ge (range.2 - range.1).toNat (2 ^ (w - 1)) with hsmall | hbig
  · have hgrown : ∀ s : BufState w K O, s.Ready → ∃ s', s'.load = s.load ∧ s'.Ready ∧
        (range.2 - range.1).toNat ≤ s'.buf.length ∧
        prepareTable ofBytes recSize R range s =
          (readInto R (range.2 - range.1).toNat range.1 >>= fun _ => get >>= fun s =>
            Exec.lift (.ok (records ofBytes recSize s.buf
              ((range.2 - range.1).toNat / recSize)))) s' := by
      intro s hs
      obtain ⟨s', hgrow, hload, hready, hsize⟩ := grow_of_small hs hsmall
      refine ⟨s', hload, hready, hsize, ?_⟩
      rw [prepareTable, bind_of_ok hgrow]
      rfl
    constructor
    · intro s hs
      obtain ⟨s', hload, hready, hsize, hrun⟩ := hgrown s hs
      rw [hrun, hread.result s' ⟨hready, hsize⟩, hload]
      rfl
    · intro s hs
      obtain ⟨s', -, hready, hsize, hrun⟩ := hgrown s hs
      rw [hrun]
      exact (hread.keeps s' ⟨hready, hsize⟩).1
  · have hover : ∀ s : BufState w K O, s.Ready →
        prepareTable ofBytes recSize R range s = .error capacityOverflow s := by
      intro s hs
      rw [prepareTable, bind_of_error (grow_of_big hs hbig)]
    constructor
    · intro s hs
      have hread' : R.toReader.read (range.2 - range.1).toNat range.1 s.load.object =
          .error capacityOverflow s.load.object := if_pos hbig
      rw [hover s hs, Load.onObject, bind_of_error hread']
      rfl
    · intro s hs
      rw [hover s hs]
      exact hs

theorem preparePhdrsIn_hides [WordSize w] (R : BufReader w O) (ehdr : Ehdr w) :
    Hides BufState.load Ready (preparePhdrsIn R ehdr : BufLoad w K O (List (ElfPhdr w)))
      (Load.onObject (preparePhdrs R.toReader ehdr)) :=
  prepareTable_hides ElfPhdr.ofBytes_frontOnly R ehdr.phdrRange

theorem prepareShdrsMutIn_hides (R : BufReader w O) (ehdr : Ehdr w) :
    Hides BufState.load Ready (prepareShdrsMutIn R ehdr : BufLoad w K O (List (ElfShdr w)))
      (Load.onObject (prepareShdrsMut R.toReader ehdr)) :=
  prepareTable_hides ElfShdr.ofBytes_frontOnly R ehdr.shdrRange

/-- What is stored in the buffer afterwards is not looked at again. -/
theorem storeShdrs_hides (shdrs : List (ElfShdr w)) {x : BufLoad w K O α} {y : Load w K O α}
    (h : Hides BufState.load Ready x y) :
    Hides BufState.load Ready (storeShdrs shdrs >>= fun _ => x) y := by
  refine Hides.modify_bind (fun _ => rfl) (fun s hs => hs.of_length ?_) h
  dsimp only
  rw [List.length_append, List.length_take, List.length_drop]
  omega

end ElfBuf

end ElfLoader
