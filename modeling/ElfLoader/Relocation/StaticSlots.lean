import ElfLoader.Library.FirstCome
import ElfLoader.Relocation.StaticDeps

/-! # The slots of the GOT and the PLT

An entry that goes through the GOT or the PLT names a symbol and the kind of
slot it wants. The pairs in the order of their first requests determine the
whole state of the two tables: a pair has the GOT slot at its position, and a
pair of kind PLT has the PLT entry at its position among those.
-/

namespace ElfLoader

open ByteMemory

variable {K : Type}

inductive SlotKind where
  | got
  | plt
deriving DecidableEq

/-- What `add_got_entry` or `add_plt_entry` is asked for. -/
structure SlotKey where
  kind : SlotKind
  rSym : Nat
deriving DecidableEq

/-- A slot that was handed out for `key`, in the GOT or in the PLT. -/
structure Slot where
  key : SlotKey
  table : SlotKind
  addr : BitVec 64

/-- The size of an entry of the table. -/
def SlotKind.entrySize : SlotKind → Nat
  | .got => 8
  | .plt => PltGotSection.pltEntrySize

/-- The addresses of the slot. -/
def Slot.Covers (slot : Slot) (a : BitVec 64) : Prop :=
  Within slot.addr slot.table.entrySize a

namespace PltGotSection

/-- The call for `key`: the slots it hands out, and the tables after it. -/
def serve (pltgot : PltGotSection) (key : SlotKey) : List Slot × PltGotSection :=
  match key.kind with
  | .got =>
      match pltgot.addGotEntry key.rSym with
      | (.occupied addr, pltgot') => ([⟨key, .got, addr⟩], pltgot')
      | (.vacant addr, pltgot') => ([⟨key, .got, addr⟩], pltgot')
  | .plt =>
      match pltgot.addPltEntry key.rSym with
      | (.occupied addr, pltgot') => ([⟨key, .plt, addr⟩], pltgot')
      | (.vacant plt got, pltgot') => ([⟨key, .plt, plt⟩, ⟨key, .got, got⟩], pltgot')

end PltGotSection

/-! ## The order of the first requests -/

/-- The symbols of the PLT entries, in order. -/
def pltOrder (order : List SlotKey) : List Nat :=
  order.filterMap fun key => if key.kind = .plt then some key.rSym else none

theorem mem_pltOrder_iff {order : List SlotKey} {r : Nat} :
    r ∈ pltOrder order ↔ ⟨.plt, r⟩ ∈ order := by
  unfold pltOrder
  rw [List.mem_filterMap]
  constructor
  · rintro ⟨⟨kind, r'⟩, hmem, hsome⟩
    split at hsome
    · rename_i hkind
      cases hsome
      cases hkind
      exact hmem
    · cases hsome
  · intro hmem
    exact ⟨_, hmem, rfl⟩

theorem pltOrder_concat_plt (order : List SlotKey) (r : Nat) :
    pltOrder (order ++ [⟨.plt, r⟩]) = pltOrder order ++ [r] := by
  simp [pltOrder]

theorem pltOrder_concat_got (order : List SlotKey) (r : Nat) :
    pltOrder (order ++ [⟨.got, r⟩]) = pltOrder order := by
  simp [pltOrder]

theorem pltOrder_isPrefix {order order' : List SlotKey} (h : order <+: order') :
    pltOrder order <+: pltOrder order' := by
  obtain ⟨later, rfl⟩ := h
  unfold pltOrder
  rw [List.filterMap_append]
  exact List.prefix_append _ _

theorem nodup_pltOrder {order : List SlotKey} (h : order.Nodup) : (pltOrder order).Nodup := by
  induction order using List.reverseRecOn with
  | nil => exact List.nodup_nil
  | append_singleton order key ih =>
      obtain ⟨kind, r⟩ := key
      have hparts := List.nodup_append'.mp h
      cases kind with
      | got =>
          rw [pltOrder_concat_got]
          exact ih hparts.1
      | plt =>
          have hnot : r ∉ pltOrder order := by
            intro hr
            exact hparts.2.2 (mem_pltOrder_iff.mp hr) List.mem_cons_self
          rw [pltOrder_concat_plt, ← List.concat_eq_append]
          exact (ih hparts.1).concat hnot

namespace PltGotSection

/-- The place of a pair in a table, counted in entries. -/
def place (order : List SlotKey) (key : SlotKey) : SlotKind → Nat
  | .got => order.idxOf key
  | .plt => (pltOrder order).idxOf key.rSym

/-- The address of the entry at a place, the tables being at `base`. -/
def entryAddr (base : SlotKind → BitVec 64) (table : SlotKind) (i : Nat) : BitVec 64 :=
  base table + BitVec.ofNat 64 (i * table.entrySize)

def tableBase (pltgot : PltGotSection) : SlotKind → BitVec 64
  | .got => pltgot.gotBase
  | .plt => pltgot.pltBase

/-- The tables as the order of the first requests determines them. -/
structure Follows (pltgot : PltGotSection) (base : SlotKind → BitVec 64)
    (order : List SlotKey) : Prop where
  base : pltgot.tableBase = base
  nodup : order.Nodup
  gotIdx : pltgot.gotIdx = order.length
  pltIdx : pltgot.pltIdx = (pltOrder order).length
  gotMap : FirstCome.Lists (SlotKey.mk SlotKind.got) pltgot.gotMap order
  pltMap : FirstCome.Lists id pltgot.pltMap (pltOrder order)

theorem Follows.new (gotBase pltBase : BitVec 64) :
    (new gotBase pltBase).Follows (new gotBase pltBase).tableBase [] where
  base := rfl
  nodup := List.nodup_nil
  gotIdx := rfl
  pltIdx := rfl
  gotMap := fun _ => rfl
  pltMap := fun _ => rfl

section Calls

variable {pltgot : PltGotSection} {base : SlotKind → BitVec 64} {order : List SlotKey} {r : Nat}

theorem Follows.addGotEntry_of_mem (h : pltgot.Follows base order) (hr : ⟨.got, r⟩ ∈ order) :
    pltgot.addGotEntry r =
      (.occupied (entryAddr base .got (place order ⟨.got, r⟩ .got)), pltgot) := by
  unfold addGotEntry
  rw [h.gotMap.lookup_of_mem hr, ← h.base, entryAddr, BitVec.add_comm (pltgot.tableBase .got)]
  rfl

theorem Follows.addGotEntry_of_not_mem (h : pltgot.Follows base order)
    (hr : ⟨.got, r⟩ ∉ order) :
    ∃ pltgot', pltgot.addGotEntry r =
        (.vacant (entryAddr base .got (place (order ++ [⟨.got, r⟩]) ⟨.got, r⟩ .got)), pltgot') ∧
      pltgot'.Follows base (order ++ [⟨.got, r⟩]) := by
  have hplace : place (order ++ [⟨.got, r⟩]) ⟨.got, r⟩ .got = pltgot.gotIdx := by
    rw [place, FirstCome.idxOf_concat_self hr, h.gotIdx]
  refine ⟨{ pltgot with
    gotIdx := pltgot.gotIdx + 1
    gotMap := (r, pltgot.gotIdx) :: pltgot.gotMap }, ?_, ?_⟩
  · unfold addGotEntry
    rw [h.gotMap.lookup_of_not_mem hr, hplace, entryAddr, ← h.base,
      BitVec.add_comm (pltgot.tableBase .got)]
    rfl
  · have hinj : Function.Injective (SlotKey.mk SlotKind.got) := by
      intro r r' heq
      cases heq
      rfl
    exact {
      base := by rw [← h.base]; rfl
      nodup := by
        rw [← FirstCome.serve_of_not_mem hr]
        exact FirstCome.nodup_serve h.nodup _
      gotIdx := by simp [h.gotIdx]
      pltIdx := by rw [pltOrder_concat_got, ← h.pltIdx]
      gotMap := by
        rw [h.gotIdx]
        exact h.gotMap.insert hinj hr
      pltMap := by
        rw [pltOrder_concat_got]
        exact h.pltMap }

theorem Follows.addPltEntry_of_mem (h : pltgot.Follows base order) (hr : ⟨.plt, r⟩ ∈ order) :
    pltgot.addPltEntry r =
      (.occupied (entryAddr base .plt (place order ⟨.plt, r⟩ .plt)), pltgot) := by
  unfold addPltEntry
  rw [h.pltMap.lookup_of_mem (mem_pltOrder_iff.mpr hr), ← h.base, entryAddr,
    BitVec.add_comm (pltgot.tableBase .plt)]
  rfl

theorem Follows.addPltEntry_of_not_mem (h : pltgot.Follows base order)
    (hr : ⟨.plt, r⟩ ∉ order) :
    ∃ pltgot', pltgot.addPltEntry r =
        (.vacant (entryAddr base .plt (place (order ++ [⟨.plt, r⟩]) ⟨.plt, r⟩ .plt))
          (entryAddr base .got (place (order ++ [⟨.plt, r⟩]) ⟨.plt, r⟩ .got)), pltgot') ∧
      pltgot'.Follows base (order ++ [⟨.plt, r⟩]) := by
  have hr' : r ∉ pltOrder order := fun hmem => hr (mem_pltOrder_iff.mp hmem)
  have hgot : place (order ++ [⟨.plt, r⟩]) ⟨.plt, r⟩ .got = pltgot.gotIdx := by
    rw [place, FirstCome.idxOf_concat_self hr, h.gotIdx]
  have hplt : place (order ++ [⟨.plt, r⟩]) ⟨.plt, r⟩ .plt = pltgot.pltIdx := by
    rw [place, pltOrder_concat_plt, h.pltIdx]
    exact FirstCome.idxOf_concat_self hr'
  refine ⟨{ pltgot with
    pltIdx := pltgot.pltIdx + 1
    gotIdx := pltgot.gotIdx + 1
    pltMap := (r, pltgot.pltIdx) :: pltgot.pltMap }, ?_, ?_⟩
  · unfold addPltEntry
    rw [h.pltMap.lookup_of_not_mem (i := r) hr', hgot, hplt, entryAddr, entryAddr, ← h.base,
      BitVec.add_comm (pltgot.tableBase .plt), BitVec.add_comm (pltgot.tableBase .got)]
    rfl
  · exact {
      base := by rw [← h.base]; rfl
      nodup := by
        rw [← FirstCome.serve_of_not_mem hr]
        exact FirstCome.nodup_serve h.nodup _
      gotIdx := by simp [h.gotIdx]
      pltIdx := by simp [pltOrder_concat_plt, h.pltIdx]
      gotMap := h.gotMap.insert_other (by simp)
      pltMap := by
        rw [pltOrder_concat_plt, h.pltIdx]
        exact h.pltMap.insert (i := r) Function.injective_id hr' }

/-- A slot that is where the order of the first requests puts it. -/
structure Located (base : SlotKind → BitVec 64) (order : List SlotKey) (slot : Slot) : Prop where
  mem : slot.key ∈ order
  table : slot.table = .plt → slot.key.kind = .plt
  addr : slot.addr = entryAddr base slot.table (place order slot.key slot.table)

theorem place_of_isPrefix {order' : List SlotKey} (hpre : order <+: order') {key : SlotKey}
    (hkey : key ∈ order) {table : SlotKind} (htable : table = .plt → key.kind = .plt) :
    place order' key table = place order key table := by
  cases table with
  | got => exact FirstCome.idxOf_of_isPrefix hpre hkey
  | plt =>
      obtain ⟨kind, r⟩ := key
      obtain rfl : kind = .plt := htable rfl
      exact FirstCome.idxOf_of_isPrefix (pltOrder_isPrefix hpre) (mem_pltOrder_iff.mpr hkey)

/-- A slot stays where it is. -/
theorem Located.of_isPrefix {order' : List SlotKey} {slot : Slot} (h : Located base order slot)
    (hpre : order <+: order') : Located base order' slot where
  mem := hpre.subset h.mem
  table := h.table
  addr := by rw [h.addr, place_of_isPrefix hpre h.mem h.table]

/-- One call keeps the tables in step with the order, and hands out the slots of
the pair. -/
theorem Follows.serve (h : pltgot.Follows base order) (key : SlotKey) :
    (pltgot.serve key).2.Follows base (FirstCome.serve order key) ∧
      ∀ slot ∈ (pltgot.serve key).1, slot.key = key ∧
        Located base (FirstCome.serve order key) slot := by
  obtain ⟨kind, r⟩ := key
  unfold PltGotSection.serve
  by_cases hmem : ⟨kind, r⟩ ∈ order
  · rw [FirstCome.serve_of_mem hmem]
    cases kind with
    | got =>
        simp only [h.addGotEntry_of_mem hmem, List.mem_singleton, forall_eq]
        exact ⟨h, trivial, hmem, nofun, rfl⟩
    | plt =>
        simp only [h.addPltEntry_of_mem hmem, List.mem_singleton, forall_eq]
        exact ⟨h, trivial, hmem, fun _ => rfl, rfl⟩
  · rw [FirstCome.serve_of_not_mem hmem]
    cases kind with
    | got =>
        obtain ⟨pltgot', hcall, hfollows⟩ := h.addGotEntry_of_not_mem hmem
        simp only [hcall, List.mem_singleton, forall_eq]
        exact ⟨hfollows, trivial, by simp, nofun, rfl⟩
    | plt =>
        obtain ⟨pltgot', hcall, hfollows⟩ := h.addPltEntry_of_not_mem hmem
        simp only [hcall, List.mem_cons, List.not_mem_nil, or_false, forall_eq_or_imp, forall_eq]
        exact ⟨hfollows, ⟨trivial, by simp, fun _ => rfl, rfl⟩, trivial, by simp, nofun, rfl⟩

end Calls

/-! ## Capacity -/

/-- The pairs that the sets of `count_needed_entries` foresee. -/
def Foreseen (sets : Finset Nat × Finset Nat) (key : SlotKey) : Prop :=
  match key.kind with
  | .got => key.rSym ∈ sets.1
  | .plt => key.rSym ∈ sets.2

/-- The entries that `count_needed_entries` reserves in each table. -/
def capacity (sets : Finset Nat × Finset Nat) : SlotKind → Nat
  | .got => sets.1.card + sets.2.card
  | .plt => sets.2.card

section Capacity

variable {sets : Finset Nat × Finset Nat} {order : List SlotKey}

theorem foreseen_serve (h : ∀ key ∈ order, Foreseen sets key) {key : SlotKey}
    (hkey : Foreseen sets key) : ∀ key' ∈ FirstCome.serve order key, Foreseen sets key' := by
  intro key' hmem
  rcases FirstCome.mem_serve_iff.mp hmem with hmem | rfl
  · exact h key' hmem
  · exact hkey

theorem order_length_le (hnodup : order.Nodup) (h : ∀ key ∈ order, Foreseen sets key) :
    order.length ≤ capacity sets .got := by
  have hkeys : ∀ key ∈ order,
      key ∈ sets.1.image (SlotKey.mk .got) ∪ sets.2.image (SlotKey.mk .plt) := by
    rintro ⟨kind, r⟩ hmem
    have hforeseen := h _ hmem
    cases kind with
    | got => exact Finset.mem_union_left _ (Finset.mem_image_of_mem _ hforeseen)
    | plt => exact Finset.mem_union_right _ (Finset.mem_image_of_mem _ hforeseen)
  calc order.length
      ≤ (sets.1.image (SlotKey.mk .got) ∪ sets.2.image (SlotKey.mk .plt)).card :=
        FirstCome.length_le_card hnodup hkeys
    _ ≤ (sets.1.image (SlotKey.mk .got)).card + (sets.2.image (SlotKey.mk .plt)).card :=
        Finset.card_union_le _ _
    _ ≤ sets.1.card + sets.2.card := Nat.add_le_add Finset.card_image_le Finset.card_image_le

theorem pltOrder_length_le (hnodup : order.Nodup) (h : ∀ key ∈ order, Foreseen sets key) :
    (pltOrder order).length ≤ capacity sets .plt := by
  apply FirstCome.length_le_card (nodup_pltOrder hnodup)
  intro r hr
  exact h _ (mem_pltOrder_iff.mp hr)

theorem place_lt_capacity (hnodup : order.Nodup) (h : ∀ key ∈ order, Foreseen sets key)
    {key : SlotKey} (hkey : key ∈ order) {table : SlotKind}
    (htable : table = .plt → key.kind = .plt) : place order key table < capacity sets table := by
  cases table with
  | got =>
      exact Nat.lt_of_lt_of_le (List.idxOf_lt_length_of_mem hkey) (order_length_le hnodup h)
  | plt =>
      obtain ⟨kind, r⟩ := key
      obtain rfl : kind = .plt := htable rfl
      exact Nat.lt_of_lt_of_le (List.idxOf_lt_length_of_mem (mem_pltOrder_iff.mpr hkey))
        (pltOrder_length_le hnodup h)

/-- Symbol indices have 32 bits, so a table never reaches the size of the address
space. -/
theorem capacity_fits (h : ∀ r, r ∈ sets.1 ∨ r ∈ sets.2 → r < 2 ^ 32) (table : SlotKind) :
    capacity sets table * table.entrySize < 2 ^ 64 := by
  have hcard {set : Finset Nat} (hset : ∀ r ∈ set, r < 2 ^ 32) : set.card ≤ 2 ^ 32 := by
    rw [← Finset.card_range (2 ^ 32)]
    exact Finset.card_le_card fun r hr => Finset.mem_range.mpr (hset r hr)
  have hgot := hcard fun r hr => h r (.inl hr)
  have hplt := hcard fun r hr => h r (.inr hr)
  cases table with
  | got =>
      simp only [capacity, SlotKind.entrySize]
      omega
  | plt =>
      simp only [capacity, SlotKind.entrySize, pltEntrySize]
      omega

/-- Two pairs have different places in a table. -/
theorem place_ne {key key' : SlotKey} (hkey : key ∈ order) (hne : key ≠ key')
    {table : SlotKind} (htable : table = .plt → key.kind = .plt)
    (htable' : table = .plt → key'.kind = .plt) :
    place order key table ≠ place order key' table := by
  intro heq
  cases table with
  | got => exact hne ((List.idxOf_inj hkey).mp heq)
  | plt =>
      obtain ⟨kind, r⟩ := key
      obtain ⟨kind', r'⟩ := key'
      obtain rfl : kind = .plt := htable rfl
      obtain rfl : kind' = .plt := htable' rfl
      exact hne (congrArg (SlotKey.mk .plt) ((List.idxOf_inj (mem_pltOrder_iff.mpr hkey)).mp heq))

end Capacity

/-! ## Addresses -/

section Addresses

variable {base : SlotKind → BitVec 64} {table : SlotKind} {i n : Nat} {a : BitVec 64}

theorem within_entry_iff (hi : i < n) (hfit : n * table.entrySize < 2 ^ 64) :
    Within (entryAddr base table i) table.entrySize a ↔
      i * table.entrySize ≤ (a - base table).toNat ∧
        (a - base table).toNat < (i + 1) * table.entrySize := by
  have hle : (i + 1) * table.entrySize ≤ n * table.entrySize := Nat.mul_le_mul_right _ hi
  rw [Nat.add_mul, Nat.one_mul] at hle ⊢
  exact within_add_iff (Nat.le_trans hle (Nat.le_of_lt hfit))

/-- An entry of the table lies in the table. -/
theorem within_table_of_entry (hi : i < n) (hfit : n * table.entrySize < 2 ^ 64)
    (h : Within (entryAddr base table i) table.entrySize a) :
    Within (base table) (n * table.entrySize) a :=
  Nat.lt_of_lt_of_le ((within_entry_iff hi hfit).mp h).2 (Nat.mul_le_mul_right _ hi)

/-- Entries at different places share no address. -/
theorem entries_apart {j : Nat} (hi : i < n) (hj : j < n)
    (hfit : n * table.entrySize < 2 ^ 64) (hne : i ≠ j)
    (h : Within (entryAddr base table i) table.entrySize a) :
    ¬ Within (entryAddr base table j) table.entrySize a := by
  intro h'
  rw [within_entry_iff hi hfit] at h
  rw [within_entry_iff hj hfit] at h'
  rcases Nat.lt_or_gt_of_ne hne with hlt | hlt
  · have hle : (i + 1) * table.entrySize ≤ j * table.entrySize := Nat.mul_le_mul_right _ hlt
    omega
  · have hle : (j + 1) * table.entrySize ≤ i * table.entrySize := Nat.mul_le_mul_right _ hlt
    omega

end Addresses

end PltGotSection

/-! ## What relocating an entry asks for -/

namespace X86_64Relocator

/-- The state has these tables. -/
def HasTables (p : PltGotSection) (s : StaticState K) : Prop := s.pltgot = p

section Tables

variable {p : PltGotSection} {rel : ElfRelType 64}

theorem keeps_tables_unwrap {α : Type} (o : Option α) :
    Exec.Keeps (HasTables p) (Static.unwrap o : Static K α) := by
  cases o with
  | none => exact Exec.Keeps.throw _
  | some a => exact Exec.Keeps.pure a

theorem keeps_tables_modifyMem (f : Bytes 64 → Bytes 64) :
    Exec.Keeps (HasTables p) (Static.modifyMem f : Static K Unit) :=
  fun _ hs => hs

theorem keeps_tables_patch (addr sym : BitVec 64) (bytes : List UInt8) :
    Exec.Keeps (HasTables p) (Static.patch rel addr sym bytes : Static K Unit) :=
  fun _ hs => hs

theorem keeps_tables_fill (got sym : BitVec 64) :
    Exec.Keeps (HasTables p) (Static.fill rel got sym : Static K Unit) :=
  fun _ hs => hs

theorem keeps_tables_link (addr slot : BitVec 64) (bytes : List UInt8) :
    Exec.Keeps (HasTables p) (Static.link rel addr slot bytes : Static K Unit) :=
  fun _ hs => hs

theorem gotSlot_pltgot (rel : ElfRelType 64) (sym : BitVec 64) (s : StaticState K) :
    (Exec.finalState (gotSlot rel sym s)).pltgot = (s.pltgot.serve ⟨.got, rel.rSymbol⟩).2 := by
  unfold gotSlot
  refine Exec.finalState_bind_of_keeps (P := HasTables _) ?_ ?_
  · unfold Static.addGotEntry PltGotSection.serve
    cases s.pltgot.addGotEntry rel.rSymbol with
    | mk entry pltgot =>
        cases entry with
        | occupied addr => rfl
        | vacant addr => rfl
  · intro entry
    cases entry with
    | occupied got => exact Exec.Keeps.pure got
    | vacant got => exact (keeps_tables_fill got sym).bind fun _ => Exec.Keeps.pure got

theorem pltStub_pltgot (rel : ElfRelType 64) (sym : BitVec 64) (s : StaticState K) :
    (Exec.finalState (pltStub rel sym s)).pltgot = (s.pltgot.serve ⟨.plt, rel.rSymbol⟩).2 := by
  unfold pltStub
  refine Exec.finalState_bind_of_keeps (P := HasTables _) ?_ ?_
  · unfold Static.addPltEntry PltGotSection.serve
    rw [Exec.bind_of_ok (Exec.get_apply s)]
    cases s.pltgot.addPltEntry rel.rSymbol with
    | mk entry pltgot =>
        cases entry with
        | occupied addr => rfl
        | vacant plt got => rfl
  · intro entry
    cases entry with
    | occupied plt => exact Exec.Keeps.pure plt
    | vacant plt got =>
        refine (keeps_tables_fill got sym).bind fun _ => (keeps_tables_unwrap _).bind fun _ => ?_
        exact (keeps_tables_modifyMem _).bind fun _ => Exec.Keeps.pure plt

/-- The branches that refer to a slot which `get` provides. -/
theorem link_pltgot {get : Static K (BitVec 64)} {value : BitVec 64 → Option (BitVec 32)}
    {addr : BitVec 64} {s : StaticState K} (hget : (Exec.finalState (get s)).pltgot = p) :
    (Exec.finalState ((do
      let slot ← get
      let val ← Static.unwrap (value slot)
      Static.link rel addr slot (leBytes val) : Static K Unit) s)).pltgot = p :=
  Exec.finalState_bind_of_keeps (P := HasTables p) hget fun slot =>
    (keeps_tables_unwrap _).bind fun _ => keeps_tables_link addr slot _

end Tables

section Request

variable [CustomHasher]
variable (ifunc : BitVec 64 → BitVec 64) (core : ElfCore 64) (scope : List (LoadedCore 64))
  (preFind postFind : SymbolLookup 64)

/-- The kind of slot that relocating the entry asks for. A call asks for one when
its symbol is out of reach. -/
def request (rel : ElfRelType 64) : Option SlotKind :=
  match symbolAddr ifunc core scope preFind postFind rel.rSymbol with
  | none => none
  | some sym =>
      if rel.rType = rX86_64_GOTPCREL then some .got
      else if rel.rType = rX86_64_PLT32 ∧
          toI32 (sym + rel.rAddend - (core.base + rel.rOffset)) = none then some .plt
      else none

/-- The slots handed out while the entry is relocated, and the tables after it. -/
def serveEntry (rel : ElfRelType 64) (pltgot : PltGotSection) : List Slot × PltGotSection :=
  match request ifunc core scope preFind postFind rel with
  | none => ([], pltgot)
  | some kind => pltgot.serve ⟨kind, rel.rSymbol⟩

variable {ifunc core scope preFind postFind}
variable {rel : ElfRelType 64} {s : StaticState K}

section Keeps

variable {p : PltGotSection}

theorem keeps_tables_fail {α : Type} (err : String) :
    Exec.Keeps (HasTables p) (fail core rel err : Static K α) := by
  intro s hs
  obtain ⟨e, he⟩ := fail_error (α := α) core rel err s
  rw [he]
  exact hs

theorem keeps_tables_inRange {α : Type} (o : Option α) :
    Exec.Keeps (HasTables p) (inRange core rel o : Static K α) := by
  cases o with
  | none => exact keeps_tables_fail _
  | some a => exact Exec.Keeps.pure a

end Keeps

/-- Whatever comes of an entry, the tables are those after its request. -/
theorem relocate_pltgot (rel : ElfRelType 64) (s : StaticState K) :
    (Exec.finalState (relocate ifunc core scope preFind postFind rel s)).pltgot =
      (serveEntry ifunc core scope preFind postFind rel s.pltgot).2 := by
  cases hsym : symbolAddr ifunc core scope preFind postFind rel.rSymbol with
  | none =>
      obtain ⟨e, he⟩ := relocate_of_none (s := s) hsym
      simp only [he, serveEntry, request, hsym]
      rfl
  | some sym =>
      have hrange {α : Type} (o : Option α) (bytes : α → List UInt8) :
          Exec.Keeps (HasTables s.pltgot) (do
            let val ← inRange core rel o
            Static.patch rel (core.base + rel.rOffset) sym (bytes val) : Static K Unit) :=
        (keeps_tables_inRange o).bind fun val => keeps_tables_patch _ sym (bytes val)
      simp only [relocate_of_some hsym, serveEntry, request, hsym]
      by_cases h64 : rel.rType = rX86_64_64
      · simp only [h64, if_true]
        exact keeps_tables_patch (p := s.pltgot) _ sym _ s rfl
      by_cases hpc : rel.rType = rX86_64_PC32
      · simp only [hpc, if_true]
        exact hrange _ _ s rfl
      by_cases hplt : rel.rType = rX86_64_PLT32
      · cases hval : toI32 (sym + rel.rAddend - (core.base + rel.rOffset)) with
        | some val =>
            simp only [hplt]
            exact keeps_tables_patch (p := s.pltgot) _ sym _ s rfl
        | none =>
            simp only [hplt]
            exact link_pltgot (pltStub_pltgot rel sym s)
      by_cases hgot : rel.rType = rX86_64_GOTPCREL
      · simp only [hgot]
        exact link_pltgot (gotSlot_pltgot rel sym s)
      simp only [if_neg h64, if_neg hpc, if_neg hgot, hplt, false_and, if_false]
      split_ifs
      · exact hrange _ _ s rfl
      · exact hrange _ _ s rfl
      · exact keeps_tables_fail _ s rfl

theorem request_type {kind : SlotKind}
    (h : request ifunc core scope preFind postFind rel = some kind) :
    kind = .got ∧ rel.rType = rX86_64_GOTPCREL ∨ kind = .plt ∧ rel.rType = rX86_64_PLT32 := by
  unfold request at h
  split at h
  · cases h
  · split_ifs at h with hgot hplt
    · cases h
      exact .inl ⟨rfl, hgot⟩
    · cases h
      exact .inr ⟨rfl, hplt.1⟩

end Request

end X86_64Relocator

end ElfLoader
