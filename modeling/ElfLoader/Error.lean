import Mathlib.Tactic.Basic

/-! # Errors and other ways a call can end

The loader reports failures as `Error`. A call can also end without returning:
a Rust panic, an access outside the memory a raw pointer may touch, or a loop
that never leaves. These are kept apart, because "returns `Err`" and "does not
return" are different answers to a caller.
-/

namespace ElfLoader

/-- The bytes of a symbol or file name, without the terminating NUL. -/
abbrev Name := List UInt8

/-- The data `reloc_error` formats: the file, the relocation type, the symbol
name when the entry has a symbol, and the cause. -/
structure RelocMessage where
  file : Name
  relType : String
  symbolName : Option Name
  error : String
deriving DecidableEq, Repr

/-- `Error` of the crate. The messages of `Relocation` are structured; all other
messages are the literal texts. -/
inductive Error where
  | io (msg : String)
  | mmap (msg : String)
  | relocation (msg : RelocMessage)
  | parseDynamic (msg : String)
  | parseEhdr (msg : String)
  | parsePhdr (msg : String)
  | custom (msg : String)
deriving DecidableEq, Repr

/-- Why a call did not return `Ok`. -/
inductive Halt where
  /-- `Err(e)` was returned. -/
  | err (e : Error)
  /-- The code panicked: an assertion, an `unwrap`, an index or a divisor. -/
  | panic (msg : String)
  /-- A raw pointer was followed outside the table it belongs to. -/
  | fault
  /-- A loop of the source never leaves. -/
  | diverge
deriving DecidableEq, Repr

/-- The caller receives an `Err`. -/
def Halt.IsErr (h : Halt) : Prop := ∃ e, h = .err e

end ElfLoader
