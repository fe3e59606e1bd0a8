import ElfLoader.Library.ByteMemory
import Mathlib.Logic.Function.Basic

/-! # Register machines

A processor is a program counter, numbered registers and a byte memory. An
instruction set says what each of its instructions makes of that state.
-/

namespace RegisterMachine

open ByteMemory

structure State (w : Nat) where
  pc : BitVec w
  reg : Nat → BitVec w
  mem : Bytes w

namespace State

variable {w : Nat} (s : State w)

def set (r : Nat) (v : BitVec w) : State w := { s with reg := Function.update s.reg r v }

def jump (target : BitVec w) : State w := { s with pc := target }

/-- Go on `n` bytes behind the start of the instruction. -/
def advance (n : Nat) : State w := s.jump (s.pc + BitVec.ofNat w n)

def load (a : BitVec w) : BitVec w := readWord s.mem a

section Fields

variable (r r' n : Nat) (a v : BitVec w)

@[simp] theorem set_reg : (s.set r v).reg r' = if r' = r then v else s.reg r' :=
  Function.update_apply _ _ _ _

@[simp] theorem set_pc : (s.set r v).pc = s.pc := rfl
@[simp] theorem set_mem : (s.set r v).mem = s.mem := rfl
@[simp] theorem jump_reg : (s.jump a).reg = s.reg := rfl
@[simp] theorem jump_pc : (s.jump a).pc = a := rfl
@[simp] theorem jump_mem : (s.jump a).mem = s.mem := rfl
@[simp] theorem advance_reg : (s.advance n).reg = s.reg := rfl
@[simp] theorem advance_pc : (s.advance n).pc = s.pc + BitVec.ofNat w n := rfl
@[simp] theorem advance_mem : (s.advance n).mem = s.mem := rfl
@[simp] theorem load_mem : s.load a = readWord s.mem a := rfl

end Fields

end State

end RegisterMachine
