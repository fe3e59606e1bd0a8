import ElfLoader.Arch.Basic
import ElfLoader.Elf.CountSyms
import ElfLoader.Elf.Custom
import ElfLoader.Elf.DynamicBound
import ElfLoader.Elf.DynamicOrder
import ElfLoader.Elf.DynamicSection
import ElfLoader.Elf.GnuHash
import ElfLoader.Elf.Hash
import ElfLoader.Elf.HashAgree
import ElfLoader.Elf.Header
import ElfLoader.Elf.InMemory
import ElfLoader.Elf.Lookup
import ElfLoader.Elf.Symbol
import ElfLoader.Elf.SysvHash
import ElfLoader.Elf.SysvWalk
import ElfLoader.Elf.Version
import ElfLoader.Elf.VersionLookup
import ElfLoader.Elf.VersionReads
import ElfLoader.Elf.VersionTable
import ElfLoader.Error
import ElfLoader.GenElf.ArmStubs
import ElfLoader.GenElf.Code
import ElfLoader.GenElf.Collect
import ElfLoader.GenElf.Common
import ElfLoader.GenElf.Contents
import ElfLoader.GenElf.DynamicTags
import ElfLoader.GenElf.Image
import ElfLoader.GenElf.InMemory
import ElfLoader.GenElf.Layout
import ElfLoader.GenElf.Linked
import ElfLoader.GenElf.Names
import ElfLoader.GenElf.Output
import ElfLoader.GenElf.OwnPhdrs
import ElfLoader.GenElf.ReadBack
import ElfLoader.GenElf.Reloc
import ElfLoader.GenElf.RelocClasses
import ElfLoader.GenElf.RelocTables
import ElfLoader.GenElf.RiscvStubs
import ElfLoader.GenElf.RoundTrip
import ElfLoader.GenElf.Section
import ElfLoader.GenElf.Sizes
import ElfLoader.GenElf.Symtab
import ElfLoader.GenElf.Tables
import ElfLoader.GenElf.WellFormed
import ElfLoader.GenElf.Writer
import ElfLoader.Image.Builder
import ElfLoader.Image.Core
import ElfLoader.Image.DropOrder
import ElfLoader.Image.EntryPoint
import ElfLoader.Image.Failure
import ElfLoader.Image.Generic
import ElfLoader.Image.Lifetime
import ElfLoader.Image.Object
import ElfLoader.Image.ObjectParts
import ElfLoader.Image.Paddr
import ElfLoader.Image.Phdrs
import ElfLoader.Image.Sharing
import ElfLoader.Image.State
import ElfLoader.Input.Backend
import ElfLoader.Library.Align
import ElfLoader.Library.Bits
import ElfLoader.Library.ByteMemory
import ElfLoader.Library.Checked
import ElfLoader.Library.Exec
import ElfLoader.Library.Fields
import ElfLoader.Library.FirstCome
import ElfLoader.Library.Footprint
import ElfLoader.Library.Hidden
import ElfLoader.Library.Isa.Arm
import ElfLoader.Library.Isa.Riscv
import ElfLoader.Library.LastWrite
import ElfLoader.Library.Partial
import ElfLoader.Library.Partly
import ElfLoader.Library.Placement
import ElfLoader.Library.RefCount
import ElfLoader.Library.RegisterMachine
import ElfLoader.Library.Registers
import ElfLoader.Library.Search
import ElfLoader.Library.SharedHeap
import ElfLoader.Library.Slots
import ElfLoader.Library.Splice
import ElfLoader.Library.Walk
import ElfLoader.Loader
import ElfLoader.Loader.Buffer
import ElfLoader.Loader.Mapped
import ElfLoader.Loader.Readers
import ElfLoader.Loader.Reuse
import ElfLoader.Os.DefaultMmap
import ElfLoader.Os.File
import ElfLoader.Os.Mmap
import ElfLoader.Os.Syscall
import ElfLoader.Relocation.Copy
import ElfLoader.Relocation.Deps
import ElfLoader.Relocation.Dynamic
import ElfLoader.Relocation.Eager
import ElfLoader.Relocation.Effect
import ElfLoader.Relocation.Finalisers
import ElfLoader.Relocation.Frame
import ElfLoader.Relocation.Init
import ElfLoader.Relocation.Lazy
import ElfLoader.Relocation.Relative
import ElfLoader.Relocation.Relr
import ElfLoader.Relocation.Relro
import ElfLoader.Relocation.Resolution
import ElfLoader.Relocation.Resolve
import ElfLoader.Relocation.Run
import ElfLoader.Relocation.Settled
import ElfLoader.Relocation.Split
import ElfLoader.Relocation.Static
import ElfLoader.Relocation.StaticCapacity
import ElfLoader.Relocation.StaticDeps
import ElfLoader.Relocation.StaticReach
import ElfLoader.Relocation.StaticSlots
import ElfLoader.Relocation.StaticValue
import ElfLoader.Relocation.Tables
import ElfLoader.Relocation.WeakUndef
import ElfLoader.Segment.Basic
import ElfLoader.Segment.Behind
import ElfLoader.Segment.ByteExact
import ElfLoader.Segment.Contained
import ElfLoader.Segment.Header
import ElfLoader.Segment.Pages
import ElfLoader.Segment.Program
import ElfLoader.Segment.Protection
import ElfLoader.Segment.Reserve
import ElfLoader.Segment.Section
import ElfLoader.Segment.SectionImage
import ElfLoader.Segment.SectionLayout
import ElfLoader.Segment.SectionProtection
import ElfLoader.Segment.SectionUnit
