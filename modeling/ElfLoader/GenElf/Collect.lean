import ElfLoader.GenElf.Sizes

/-! # The symbols that are collected

The descriptions alone determine the table: the index of a name is where its string
starts, the value of a symbol where its content starts among the contents of the
same section.
-/

namespace ElfLoader.GenElf

open ByteMemory Splice

namespace SymbolDesc

/-- The content of the symbol, if it goes to the section. -/
def contentIn (kind : SectionKind) (s : SymbolDesc) : List UInt8 :=
  match s.content with
  | some c => if c.kind = kind then c.data else []
  | none => []

/-- The string of the symbol with its NUL. -/
def nameBytes (s : SymbolDesc) : List UInt8 := s.name ++ [0]

def shdrType (s : SymbolDesc) : SectionKind :=
  match s.content with
  | some c => c.kind
  | none => s.undefinedKind

end SymbolDesc

section Entries

variable (symbols : List SymbolDesc)

/-- Where the content of the symbol at position `i` starts in its section. -/
def contentStart (i : Nat) (s : SymbolDesc) : Nat :=
  match s.content with
  | some c => start (symbols.map (SymbolDesc.contentIn c.kind)) i
  | none => 0

/-- The symbol at position `i`, before the sections are placed. -/
def entryAt (i : Nat) (s : SymbolDesc) : Symbol where
  nameIdx := BitVec.ofNat 32 (2 + start (symbols.map SymbolDesc.nameBytes) i)
  info := s.info
  other := 0
  shndx := 0
  value := contentStart symbols i s
  size := s.symSize

variable {symbols} {i : Nat}

theorem start_map_append {f : SymbolDesc → List UInt8} (more : List SymbolDesc)
    (hi : i ≤ symbols.length) : start ((symbols ++ more).map f) i = start (symbols.map f) i := by
  rw [start, start, List.map_append, List.take_append_of_le_length (by rwa [List.length_map])]

theorem contentStart_append (more : List SymbolDesc) (s : SymbolDesc) (hi : i ≤ symbols.length) :
    contentStart (symbols ++ more) i s = contentStart symbols i s := by
  unfold contentStart
  cases s.content with
  | none => rfl
  | some c => exact start_map_append more hi

theorem entryAt_append (more : List SymbolDesc) (s : SymbolDesc) (hi : i ≤ symbols.length) :
    entryAt (symbols ++ more) i s = entryAt symbols i s := by
  unfold entryAt
  rw [start_map_append more hi, contentStart_append more s hi]

end Entries

/-! ## Room in a section -/

/-- The sections that take contents. -/
def placeable : List SectionKind := [.text, .data, .tls, .plt]

namespace SymTabMetadata

/-- The end of what a section holds so far. -/
def offsetOf (symtab : SymTabMetadata) : SectionKind → Nat
  | .text => symtab.textOffset
  | .data => symtab.dataOffset
  | .tls => symtab.tlsOffset
  | .plt => symtab.pltOffset
  | _ => 0

theorem takeRoom_eq_some {symtab symtab' : SymTabMetadata} {content : Content} {off : Nat}
    (h : symtab.takeRoom content = some (symtab', off)) :
    content.kind ∈ placeable ∧ off = symtab.offsetOf content.kind ∧
      (∀ kind, symtab'.offsetOf kind =
        symtab.offsetOf kind + if content.kind = kind then content.data.length else 0) ∧
      ∃ t d l p, symtab' = { symtab with
        textOffset := t, dataOffset := d, tlsOffset := l, pltOffset := p } := by
  unfold takeRoom at h
  cases hkind : content.kind <;> rw [hkind] at h <;> cases h
  all_goals
    refine ⟨by decide, rfl, fun kind => ?_, _, _, _, _, rfl⟩
    cases kind <;> rfl

theorem getContent_eq (symtab : SymTabMetadata) (kind : SectionKind) :
    symtab.getContent kind = (symtab.symbols.map (SymbolDesc.contentIn kind)).flatten :=
  List.flatMap_def

/-- What has been collected is determined by the descriptions. -/
structure Collected (symtab : SymTabMetadata) : Prop where
  dynstr : symtab.dynstr.data = [0, 0] ++ (symtab.symbols.map SymbolDesc.nameBytes).flatten
  dynsym : symtab.dynsym.length = symtab.symbols.length + 1
  types : symtab.dynsymShdrTypes.length = symtab.symbols.length + 1
  null : symtab.dynsym[0]? = some Symbol.null
  entry : ∀ i s, symtab.symbols[i]? = some s →
    symtab.dynsym[i + 1]? = some (entryAt symtab.symbols i s) ∧
      symtab.dynsymShdrTypes[i + 1]? = some s.shdrType
  offset : ∀ kind, symtab.offsetOf kind = (symtab.getContent kind).length
  fresh : ∀ name, symtab.symIndex name = none ↔
    name ≠ [] ∧ name ∉ symtab.symbols.map SymbolDesc.name
  indexed : ∀ name idx, symtab.symIndex name = some idx → name ≠ [] →
    ∃ i s, idx = i + 1 ∧ symtab.symbols[i]? = some s ∧ s.name = name
  nodup : (symtab.symbols.map SymbolDesc.name).Nodup
  placeable : ∀ s ∈ symtab.symbols, ∀ c, s.content = some c → c.kind ∈ placeable

/-- The table with the null symbol. -/
theorem collected_empty (arch : Arch) :
    Collected ((empty arch).addSymbol [] Symbol.null .null) where
  dynstr := rfl
  dynsym := rfl
  types := rfl
  null := rfl
  entry := by
    intro i s h
    cases h
  offset := by
    intro kind
    cases kind <;> rfl
  fresh := by
    intro name
    by_cases hname : name = []
    · subst hname
      simp [addSymbol]
    · have hother : ((empty arch).addSymbol [] Symbol.null .null).symIndex name = none :=
        Function.update_of_ne hname _ _
      exact iff_of_true hother ⟨hname, List.not_mem_nil⟩
  indexed := by
    intro name idx h hname
    have hother : ((empty arch).addSymbol [] Symbol.null .null).symIndex name = none :=
      Function.update_of_ne hname _ _
    rw [hother] at h
    cases h
  nodup := List.nodup_nil
  placeable := fun s hs => absurd hs List.not_mem_nil

/-- The table when `s` has been added behind all symbols. -/
structure Added (symtab symtab' : SymTabMetadata) (s : SymbolDesc) : Prop where
  name : symtab.symIndex s.name = none
  symbols : symtab'.symbols = symtab.symbols ++ [s]
  index : symtab'.symIndex = Function.update symtab.symIndex s.name (some symtab.dynsym.length)
  dynstr : symtab'.dynstr.data = symtab.dynstr.data ++ s.nameBytes
  dynsym : symtab'.dynsym = symtab.dynsym ++
    [{ nameIdx := BitVec.ofNat 32 symtab.dynstr.data.length, info := s.info, other := 0, shndx := 0
       value := (s.content.map fun c => symtab.offsetOf c.kind).getD 0, size := s.symSize }]
  types : symtab'.dynsymShdrTypes = symtab.dynsymShdrTypes ++ [s.shdrType]
  offset : ∀ kind, symtab'.offsetOf kind = symtab.offsetOf kind + (s.contentIn kind).length
  placeable : ∀ c, s.content = some c → c.kind ∈ placeable
  arch : symtab'.arch = symtab.arch
  helperIndex : symtab'.helperIndex = symtab.helperIndex
  pltEntries : symtab'.pltEntries = symtab.pltEntries
  plt0Idx : symtab'.plt0Idx = symtab.plt0Idx

/-- A name that is known keeps its symbol, a new one is added. -/
theorem addSingleSymbol_cases {symtab symtab' : SymTabMetadata} {s : SymbolDesc} {idx : Nat}
    (h : symtab.addSingleSymbol s = some (symtab', idx)) :
    (symtab' = symtab ∧ symtab.symIndex s.name = some idx) ∨
      (Added symtab symtab' s ∧ idx = symtab.dynsym.length) := by
  unfold addSingleSymbol at h
  cases hindex : symtab.symIndex s.name with
  | some known =>
      rw [hindex] at h
      cases h
      exact Or.inl ⟨rfl, rfl⟩
  | none =>
      rw [hindex] at h
      right
      simp only [Option.bind_eq_bind, Option.bind_eq_some_iff, Option.pure_def,
        Option.some.injEq, Prod.mk.injEq] at h
      obtain ⟨⟨room, shdrType, value⟩, hlocate, rfl, rfl⟩ := h
      unfold locate at hlocate
      cases hcontent : s.content with
      | none =>
          rw [hcontent] at hlocate
          cases hlocate
          refine ⟨⟨hindex, rfl, rfl, ?_, ?_, ?_, fun kind => ?_, ?_, rfl, rfl, rfl, rfl⟩, rfl⟩
          · exact List.append_assoc _ _ _
          · rw [hcontent]
            rfl
          · unfold SymbolDesc.shdrType
            rw [hcontent]
            rfl
          · unfold SymbolDesc.contentIn
            rw [hcontent]
            cases kind <;> rfl
          · intro c hc
            rw [hcontent] at hc
            cases hc
      | some content =>
          rw [hcontent] at hlocate
          simp only [Option.bind_eq_bind, Option.bind_eq_some_iff, Option.pure_def,
            Option.some.injEq, Prod.mk.injEq] at hlocate
          obtain ⟨⟨room', off⟩, hroom, rfl, rfl, rfl⟩ := hlocate
          obtain ⟨hkind, rfl, hoffset, t, d, l, p, rfl⟩ := takeRoom_eq_some hroom
          refine ⟨⟨hindex, rfl, rfl, ?_, ?_, ?_, fun kind => ?_, ?_, rfl, rfl, rfl, rfl⟩, rfl⟩
          · exact List.append_assoc _ _ _
          · rw [hcontent]
            rfl
          · unfold SymbolDesc.shdrType
            rw [hcontent]
            rfl
          · unfold SymbolDesc.contentIn
            rw [hcontent]
            have hkinds := hoffset kind
            dsimp only
            rw [apply_ite List.length]
            cases kind <;> exact hkinds
          · intro c hc
            rw [hcontent] at hc
            cases hc
            exact hkind

/-- Adding a symbol keeps the table determined by its descriptions. -/
theorem Collected.added {symtab symtab' : SymTabMetadata} {s : SymbolDesc}
    (hc : Collected symtab) (ha : Added symtab symtab' s) : Collected symtab' where
  dynstr := by
    rw [ha.dynstr, ha.symbols, hc.dynstr, List.map_append, List.flatten_append,
      List.append_assoc, List.map_singleton, List.flatten_singleton]
  dynsym := by
    rw [ha.dynsym, ha.symbols, List.length_append, List.length_append, hc.dynsym]
    rfl
  types := by
    rw [ha.types, ha.symbols, List.length_append, List.length_append, hc.types]
    rfl
  null := by
    rw [ha.dynsym, List.getElem?_append_left (by rw [hc.dynsym]; omega)]
    exact hc.null
  entry := by
    intro i x hx
    rw [ha.symbols] at hx ⊢
    by_cases hi : i < symtab.symbols.length
    · rw [List.getElem?_append_left hi] at hx
      obtain ⟨hsym, htype⟩ := hc.entry i x hx
      rw [ha.dynsym, ha.types, List.getElem?_append_left (by rw [hc.dynsym]; omega),
        List.getElem?_append_left (by rw [hc.types]; omega), entryAt_append [s] x (by omega)]
      exact ⟨hsym, htype⟩
    · have hlen := (List.getElem?_eq_some_iff.mp hx).1
      rw [List.length_append, List.length_singleton] at hlen
      obtain rfl : i = symtab.symbols.length := by omega
      rw [List.getElem?_concat_length] at hx
      cases hx
      have hnames : start (symtab.symbols.map SymbolDesc.nameBytes) symtab.symbols.length =
          (symtab.symbols.map SymbolDesc.nameBytes).flatten.length := by
        rw [← start_length, List.length_map]
      have hvalue : contentStart symtab.symbols symtab.symbols.length s =
          (s.content.map fun c => symtab.offsetOf c.kind).getD 0 := by
        unfold contentStart
        cases s.content with
        | none => rfl
        | some c =>
            change start _ _ = symtab.offsetOf c.kind
            rw [hc.offset, getContent_eq, ← start_length, List.length_map]
      rw [ha.dynsym, ha.types, ← hc.dynsym, List.getElem?_concat_length, hc.dynsym, ← hc.types,
        List.getElem?_concat_length, entryAt_append [s] s (Nat.le_refl _), entryAt, hnames,
        hvalue, hc.dynstr, List.length_append]
      exact ⟨rfl, rfl⟩
  offset := by
    intro kind
    have hold := hc.offset kind
    rw [getContent_eq] at hold
    rw [ha.offset, getContent_eq, ha.symbols, List.map_append, List.flatten_append,
      List.length_append, hold, List.map_singleton, List.flatten_singleton]
  fresh := by
    intro name
    rw [ha.index, ha.symbols, List.map_append, List.mem_append, List.map_singleton,
      List.mem_singleton, not_or]
    by_cases hname : name = s.name
    · subst hname
      rw [Function.update_self]
      exact iff_of_false (by rintro ⟨⟩) fun h => h.2.2 rfl
    · rw [Function.update_of_ne hname, hc.fresh]
      exact ⟨fun h => ⟨h.1, h.2, hname⟩, fun h => ⟨h.1, h.2.1⟩⟩
  indexed := by
    intro name idx h hne
    rw [ha.index] at h
    by_cases hname : name = s.name
    · subst hname
      rw [Function.update_self] at h
      cases h
      refine ⟨symtab.symbols.length, s, hc.dynsym, ?_, rfl⟩
      rw [ha.symbols]
      exact List.getElem?_concat_length
    · rw [Function.update_of_ne hname] at h
      obtain ⟨i, x, hidx, hx, hxname⟩ := hc.indexed name idx h hne
      refine ⟨i, x, hidx, ?_, hxname⟩
      rw [ha.symbols, List.getElem?_append_left (List.getElem?_eq_some_iff.mp hx).1]
      exact hx
  nodup := by
    rw [ha.symbols, List.map_append, List.map_singleton]
    have hfresh := ((hc.fresh s.name).mp ha.name).2
    exact List.nodup_append.mpr ⟨hc.nodup, List.nodup_singleton _, fun a hmem b hb => by
      rw [List.mem_singleton.mp hb]
      rintro rfl
      exact hfresh hmem⟩
  placeable := by
    intro x hx
    rw [ha.symbols] at hx
    rcases List.mem_append.mp hx with hmem | hmem
    · exact hc.placeable x hmem
    · rw [List.mem_singleton.mp hmem]
      exact ha.placeable

end SymTabMetadata

/-! ## The symbols of the generator -/

/-- The names the generator makes itself. -/
def OwnName (name : Name) : Prop :=
  name = ifuncResolverName ∨ name = plt0Name ∨ pltSuffix <:+ name ∨ helperSuffix <:+ name

instance : DecidablePred OwnName := fun name =>
  inferInstanceAs (Decidable (name = ifuncResolverName ∨ name = plt0Name ∨ pltSuffix <:+ name ∨
    helperSuffix <:+ name))

def resolverDesc (arch : Arch) : SymbolDesc :=
  .globalFunc ifuncResolverName (getIfuncResolverCode arch)

def plt0Desc (arch : Arch) : SymbolDesc := .pltFunc plt0Name (generatePlt0Code arch)

/-- The symbols the generator adds for itself. -/
inductive Own (arch : Arch) (raw : List RelocEntry) : SymbolDesc → Prop where
  | resolver : Own arch raw (resolverDesc arch)
  | plt0 : Own arch raw (plt0Desc arch)
  | plt {r : RelocEntry} (hr : r ∈ SymTabMetadata.pltRelocs arch raw) (relocIdx : BitVec 32)
      (pltOffset : BitVec 64) :
      Own arch raw
        (.pltFunc (r.symbolName ++ pltSuffix) (generatePltEntryCode arch relocIdx pltOffset))
  | helper {r : RelocEntry} (hr : r ∈ SymTabMetadata.pltRelocs arch raw) :
      Own arch raw (.globalFunc (r.symbolName ++ helperSuffix) (generateHelperCode arch))

theorem getLast?_of_suffix {a l : Name} {b : UInt8} (h : a <:+ l) (ha : a.getLast? = some b) :
    l.getLast? = some b := by
  obtain ⟨t, rfl⟩ := h
  rw [List.getLast?_append, ha]
  rfl

section Own

variable {arch : Arch} {raw : List RelocEntry} {s : SymbolDesc}

theorem Own.name (h : Own arch raw s) : OwnName s.name := by
  cases h with
  | resolver => exact Or.inl rfl
  | plt0 => exact Or.inr (Or.inl rfl)
  | plt => exact Or.inr (Or.inr (Or.inl (List.suffix_append _ _)))
  | helper => exact Or.inr (Or.inr (Or.inr (List.suffix_append _ _)))

theorem Own.of_plt (h : Own arch raw s) (hname : pltSuffix <:+ s.name) :
    ∃ code, s.content = some ⟨code, .plt⟩ ∧ code.length = getPltEntrySize arch := by
  cases h with
  | resolver => exact absurd hname (by decide : ¬ pltSuffix <:+ ifuncResolverName)
  | plt0 => exact absurd hname (by decide : ¬ pltSuffix <:+ plt0Name)
  | plt _ relocIdx pltOffset =>
      exact ⟨_, rfl, generatePltEntryCode_length arch relocIdx pltOffset⟩
  | @helper r =>
      have ht := getLast?_of_suffix (b := 116) hname (by decide)
      have hr := getLast?_of_suffix (b := 114) (List.suffix_append r.symbolName helperSuffix)
        (by decide)
      rw [show (SymbolDesc.globalFunc (r.symbolName ++ helperSuffix) (generateHelperCode arch)).name =
        r.symbolName ++ helperSuffix from rfl, hr] at ht
      cases ht

theorem Own.of_helper (h : Own arch raw s) (hname : helperSuffix <:+ s.name) :
    s.content = some ⟨generateHelperCode arch, .text⟩ := by
  cases h with
  | resolver => exact absurd hname (by decide : ¬ helperSuffix <:+ ifuncResolverName)
  | plt0 => exact absurd hname (by decide : ¬ helperSuffix <:+ plt0Name)
  | @plt r =>
      have hr := getLast?_of_suffix (b := 114) hname (by decide)
      have ht := getLast?_of_suffix (b := 116) (List.suffix_append r.symbolName pltSuffix)
        (by decide)
      rw [show (SymbolDesc.pltFunc (r.symbolName ++ pltSuffix) _).name =
        r.symbolName ++ pltSuffix from rfl, ht] at hr
      cases hr
  | helper => rfl

end Own

/-! ## The loops -/

namespace SymTabMetadata

/-- The symbol at an index of the table is one that the generator added, with this
content. -/
def HasOwn (arch : Arch) (raw : List RelocEntry) (symtab : SymTabMetadata) (kind : SectionKind)
    (size idx : Nat) : Prop :=
  ∃ i s code, idx = i + 1 ∧ symtab.symbols[i]? = some s ∧ Own arch raw s ∧
    s.content = some ⟨code, kind⟩ ∧ code.length = size

/-- The table while the stubs are added: the listed symbols, and symbols of the
generator. -/
structure Stubbed (arch : Arch) (raw : List RelocEntry) (listed : List SymbolDesc)
    (symtab : SymTabMetadata) : Prop where
  collected : Collected symtab
  target : symtab.arch = arch
  symbols : ∃ rest, symtab.symbols = resolverDesc arch :: listed ++ rest ∧
    ∀ s ∈ rest, Own arch raw s
  helpers : ∀ e ∈ symtab.helperIndex,
    HasOwn arch raw symtab .text (generateHelperCode arch).length e.2
  entries : ∀ e ∈ symtab.pltEntries, HasOwn arch raw symtab .plt (getPltEntrySize arch) e.1
  plt0 : ∀ idx, symtab.plt0Idx = some idx →
    HasOwn arch raw symtab .plt (getPlt0Size arch) idx

section Loops

variable {arch : Arch} {raw : List RelocEntry} {listed : List SymbolDesc}
  {symtab symtab' : SymTabMetadata} {s : SymbolDesc} {idx : Nat}

theorem HasOwn.mono {kind : SectionKind} {size : Nat} (h : HasOwn arch raw symtab kind size idx)
    {more : List SymbolDesc} (hmore : symtab'.symbols = symtab.symbols ++ more) :
    HasOwn arch raw symtab' kind size idx := by
  obtain ⟨i, s, code, hidx, hs, hrest⟩ := h
  refine ⟨i, s, code, hidx, ?_, hrest⟩
  rw [hmore, List.getElem?_append_left (List.getElem?_eq_some_iff.mp hs).1]
  exact hs

theorem Stubbed.added (h : Stubbed arch raw listed symtab) (ha : Added symtab symtab' s)
    (hown : Own arch raw s) : Stubbed arch raw listed symtab' where
  collected := h.collected.added ha
  target := ha.arch.trans h.target
  symbols := by
    obtain ⟨rest, hsymbols, hrest⟩ := h.symbols
    refine ⟨rest ++ [s], by rw [ha.symbols, hsymbols, List.append_assoc], fun x hx => ?_⟩
    rcases List.mem_append.mp hx with hmem | hmem
    · exact hrest x hmem
    · rw [List.mem_singleton.mp hmem]
      exact hown
  helpers := by
    rw [ha.helperIndex]
    exact fun e he => (h.helpers e he).mono ha.symbols
  entries := by
    rw [ha.pltEntries]
    exact fun e he => (h.entries e he).mono ha.symbols
  plt0 := by
    rw [ha.plt0Idx]
    exact fun idx hidx => (h.plt0 idx hidx).mono ha.symbols

/-- A symbol of the generator is added, or was added before under its name. -/
theorem Stubbed.addSingleSymbol (h : Stubbed arch raw listed symtab)
    (hlisted : ∀ x ∈ listed, ¬ OwnName x.name) (hown : Own arch raw s) (hname : s.name ≠ [])
    (hadd : symtab.addSingleSymbol s = some (symtab', idx)) :
    Stubbed arch raw listed symtab' ∧ ∃ i x, idx = i + 1 ∧ symtab'.symbols[i]? = some x ∧
      Own arch raw x ∧ x.name = s.name ∧ (symtab.symIndex s.name = none → x = s) := by
  rcases addSingleSymbol_cases hadd with ⟨rfl, hknown⟩ | ⟨ha, rfl⟩
  · obtain ⟨i, x, hidx, hx, hxname⟩ := h.collected.indexed s.name idx hknown hname
    obtain ⟨rest, hsymbols, hrest⟩ := h.symbols
    refine ⟨h, i, x, hidx, hx, ?_, hxname, fun hnone => ?_⟩
    · have hmem := List.mem_of_getElem? hx
      rw [hsymbols] at hmem
      rcases List.mem_append.mp hmem with hfirst | hlast
      · rcases List.mem_cons.mp hfirst with rfl | hin
        · exact .resolver
        · exact absurd (hxname ▸ hown.name) (hlisted x hin)
      · exact hrest x hlast
    · rw [hknown] at hnone
      cases hnone
  · refine ⟨h.added ha hown, symtab.symbols.length, s, h.collected.dynsym, ?_, hown, rfl,
      fun _ => rfl⟩
    rw [ha.symbols]
    exact List.getElem?_concat_length

/-- New symbols are added in the order of the list. -/
theorem foldlM_added {ss : List SymbolDesc} (hc : Collected symtab)
    (hnodup : (ss.map SymbolDesc.name).Nodup)
    (hfresh : ∀ s ∈ ss, s.name ≠ [] ∧ s.name ∉ symtab.symbols.map SymbolDesc.name)
    (h : ss.foldlM (fun symtab s => (symtab.addSingleSymbol s).map Prod.fst) symtab =
      some symtab') :
    Collected symtab' ∧ symtab'.symbols = symtab.symbols ++ ss ∧ symtab'.arch = symtab.arch ∧
      symtab'.helperIndex = symtab.helperIndex ∧ symtab'.pltEntries = symtab.pltEntries := by
  induction ss generalizing symtab with
  | nil =>
      cases h
      exact ⟨hc, (List.append_nil _).symm, rfl, rfl, rfl⟩
  | cons s ss ih =>
      rw [List.foldlM_cons] at h
      obtain ⟨next, hnext, hrest⟩ := Option.bind_eq_some_iff.mp h
      obtain ⟨⟨added, idx⟩, hadd, rfl⟩ := Option.map_eq_some_iff.mp hnext
      obtain ⟨hne, hnot⟩ := hfresh s List.mem_cons_self
      obtain ⟨hhead, htail⟩ := List.nodup_cons.mp hnodup
      rcases addSingleSymbol_cases hadd with ⟨-, hknown⟩ | ⟨ha, -⟩
      · rw [(hc.fresh s.name).mpr ⟨hne, hnot⟩] at hknown
        cases hknown
      · obtain ⟨hcollected, hsymbols, harch, hhelper, hentries⟩ := ih (hc.added ha) htail
          (fun x hx => by
            obtain ⟨hxne, hxnot⟩ := hfresh x (List.mem_cons_of_mem _ hx)
            refine ⟨hxne, ?_⟩
            rw [ha.symbols, List.map_append, List.mem_append, not_or, List.map_singleton,
              List.mem_singleton]
            refine ⟨hxnot, fun hsame => hhead ?_⟩
            rw [← hsame]
            exact List.mem_map_of_mem hx)
          hrest
        refine ⟨hcollected, ?_, harch.trans ha.arch, hhelper.trans ha.helperIndex,
          hentries.trans ha.pltEntries⟩
        rw [hsymbols, ha.symbols, List.append_assoc]
        rfl

theorem HasOwn.of_symbols {kind : SectionKind} {size : Nat}
    (h : HasOwn arch raw symtab kind size idx) (hsame : symtab'.symbols = symtab.symbols) :
    HasOwn arch raw symtab' kind size idx :=
  h.mono (hsame.trans (List.append_nil _).symm)

theorem Stubbed.addPltEntry {gotPltIdx relocIdx : Nat} {reloc : RelocEntry}
    (h : Stubbed arch raw listed symtab) (hlisted : ∀ x ∈ listed, ¬ OwnName x.name)
    (hr : reloc ∈ pltRelocs arch raw)
    (hadd : symtab.addPltEntry gotPltIdx relocIdx reloc = some symtab') :
    Stubbed arch raw listed symtab' := by
  unfold SymTabMetadata.addPltEntry at hadd
  simp only [Option.bind_eq_bind, Option.bind_eq_some_iff, Option.pure_def,
    Option.some.injEq] at hadd
  obtain ⟨⟨s₁, pltIdx⟩, hplt, ⟨s₂, helperIdx⟩, hhelper, rfl⟩ := hadd
  rw [h.target] at hplt
  obtain ⟨h₁, i, x, hi, hx, hxown, hxname, -⟩ :=
    h.addSingleSymbol hlisted (.plt hr _ _) (by simp [SymbolDesc.pltFunc, pltSuffix, ascii]) hplt
  obtain ⟨code, hcontent, hlen⟩ := hxown.of_plt (by
    rw [hxname]
    exact List.suffix_append _ _)
  have hstub : Stubbed arch raw listed
      { s₁ with pltEntries := s₁.pltEntries ++ [(pltIdx, gotPltIdx)] } :=
    { collected := { h₁.collected with }
      target := h₁.target
      symbols := h₁.symbols
      helpers := fun e he => (h₁.helpers e he).of_symbols rfl
      entries := fun e he => by
        rcases List.mem_append.mp he with hmem | hmem
        · exact (h₁.entries e hmem).of_symbols rfl
        · rw [List.mem_singleton.mp hmem]
          exact ⟨i, x, code, hi, hx, hxown, hcontent, hlen⟩
      plt0 := fun idx hidx => (h₁.plt0 idx hidx).of_symbols rfl }
  have hcode : generateHelperCode s₁.arch = generateHelperCode arch := by rw [h₁.target]
  dsimp only at hhelper
  rw [hcode] at hhelper
  obtain ⟨h₂, j, y, hj, hy, hyown, hyname, -⟩ :=
    hstub.addSingleSymbol hlisted (.helper hr)
      (by simp [SymbolDesc.globalFunc, helperSuffix, ascii]) hhelper
  have hcontent₂ := hyown.of_helper (by
    rw [hyname]
    exact List.suffix_append _ _)
  exact
    { collected := { h₂.collected with }
      target := h₂.target
      symbols := h₂.symbols
      helpers := fun e he => by
        rcases List.mem_append.mp he with hmem | hmem
        · have hold : e ∈ s₂.helperIndex := (List.mem_filter.mp hmem).1
          exact (h₂.helpers e hold).of_symbols rfl
        · rw [List.mem_singleton.mp hmem]
          exact ⟨j, y, _, hj, hy, hyown, hcontent₂, rfl⟩
      entries := fun e he => (h₂.entries e he).of_symbols rfl
      plt0 := fun idx hidx => (h₂.plt0 idx hidx).of_symbols rfl }

theorem Stubbed.addPltEntries {gotPltIdx relocIdx : Nat} {relocs : List RelocEntry}
    (h : Stubbed arch raw listed symtab) (hlisted : ∀ x ∈ listed, ¬ OwnName x.name)
    (hrelocs : ∀ r ∈ relocs, r ∈ pltRelocs arch raw)
    (hadd : symtab.addPltEntries gotPltIdx relocIdx relocs = some symtab') :
    Stubbed arch raw listed symtab' := by
  induction relocs generalizing symtab gotPltIdx relocIdx with
  | nil =>
      cases hadd
      exact h
  | cons reloc relocs ih =>
      rw [SymTabMetadata.addPltEntries] at hadd
      obtain ⟨next, hnext, hrest⟩ := Option.bind_eq_some_iff.mp hadd
      exact ih (h.addPltEntry hlisted (hrelocs reloc List.mem_cons_self) hnext)
        (fun r hr => hrelocs r (List.mem_cons_of_mem _ hr)) hrest

/-- The whole table: the listed symbols between those of the generator. -/
theorem stubbed_of_collect {symbols : List SymbolDesc}
    (hnames : ∀ s ∈ symbols, s.name ≠ [] ∧ ¬ OwnName s.name)
    (hnodup : (symbols.map SymbolDesc.name).Nodup)
    (h : collect arch symbols raw = some symtab) : Stubbed arch raw symbols symtab := by
  unfold collect addSymbols addPltSymbols at h
  simp only [Option.bind_eq_bind, Option.bind_eq_some_iff] at h
  obtain ⟨s₂, ⟨⟨s₁, i₁⟩, hresolver, hfold⟩, ⟨s₃, i₃⟩, hplt0, hentries⟩ := h
  have hempty := collected_empty arch
  -- the resolver is the first symbol
  rcases addSingleSymbol_cases hresolver with ⟨-, hknown⟩ | ⟨ha, -⟩
  · have hfresh := (hempty.fresh ifuncResolverName).mpr ⟨by decide, List.not_mem_nil⟩
    exact absurd (hfresh.symm.trans hknown) nofun
  have hs₁ : s₁.symbols = [resolverDesc arch] := ha.symbols
  -- the listed symbols are new
  obtain ⟨hc₂, hs₂, harch, hhelper, hplt⟩ := foldlM_added (hempty.added ha) hnodup
    (fun s hs => by
      obtain ⟨hne, hown⟩ := hnames s hs
      refine ⟨hne, ?_⟩
      rw [hs₁, List.map_singleton, List.mem_singleton]
      rintro hsame
      exact hown (Or.inl hsame))
    hfold
  have harch₂ : s₂.arch = arch := harch.trans ha.arch
  have hhelper₂ : s₂.helperIndex = [] := hhelper.trans ha.helperIndex
  have hplt₂ : s₂.pltEntries = [] := hplt.trans ha.pltEntries
  have hsymbols₂ : s₂.symbols = resolverDesc arch :: symbols := by
    rw [hs₂, hs₁]
    rfl
  -- and so is the first stub
  rw [harch₂] at hplt0
  rcases addSingleSymbol_cases hplt0 with ⟨-, hknown⟩ | ⟨hb, -⟩
  · have hfresh : s₂.symIndex plt0Name = none := by
      refine (hc₂.fresh plt0Name).mpr ⟨by decide, fun hmem => ?_⟩
      rw [hsymbols₂] at hmem
      obtain ⟨s, hs, hname⟩ := List.mem_map.mp hmem
      rcases List.mem_cons.mp hs with rfl | hin
      · exact absurd hname (by decide : ifuncResolverName ≠ plt0Name)
      · exact (hnames s hin).2 (Or.inr (Or.inl hname))
    change s₂.symIndex plt0Name = some _ at hknown
    rw [hfresh] at hknown
    cases hknown
  have hlen₃ : s₃.dynsym.length = s₂.symbols.length + 2 := by
    rw [hb.dynsym, List.length_append, hc₂.dynsym]
    rfl
  have hstub : Stubbed arch raw symbols { s₃ with plt0Idx := some (s₃.dynsym.length - 1) } :=
    { collected := { hc₂.added hb with }
      target := hb.arch.trans harch₂
      symbols := ⟨[plt0Desc arch], by rw [← hsymbols₂]; exact hb.symbols, fun s hs => by
        rw [List.mem_singleton.mp hs]
        exact .plt0⟩
      helpers := by
        change ∀ e ∈ s₃.helperIndex, _
        rw [hb.helperIndex, hhelper₂]
        exact fun e he => absurd he List.not_mem_nil
      entries := by
        change ∀ e ∈ s₃.pltEntries, _
        rw [hb.pltEntries, hplt₂]
        exact fun e he => absurd he List.not_mem_nil
      plt0 := by
        intro idx hidx
        cases hidx
        refine ⟨s₂.symbols.length, plt0Desc arch, generatePlt0Code arch, ?_, ?_, .plt0, rfl,
          generatePlt0Code_length arch⟩
        · rw [hlen₃]
          rfl
        · change s₃.symbols[_]? = _
          rw [hb.symbols]
          exact List.getElem?_concat_length }
  have hrelocs : pltRelocs s₃.arch raw = pltRelocs arch raw := by
    rw [hb.arch, harch₂]
  dsimp only at hentries
  rw [hrelocs] at hentries
  exact hstub.addPltEntries (fun x hx => (hnames x hx).2) (fun r hr => hr) hentries

end Loops

end SymTabMetadata

end ElfLoader.GenElf
