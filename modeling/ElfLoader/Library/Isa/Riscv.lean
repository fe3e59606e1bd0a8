import ElfLoader.Library.Fields
import ElfLoader.Library.RegisterMachine

/-! # RISC-V, both word sizes

The base instructions that position-independent code uses to reach data and jump.
Register 0 is constant.
-/

namespace RegisterMachine.Riscv

inductive Instr where
  | auipc (rd : Nat) (imm : BitVec 20)
  | jalr (rd rs1 : Nat) (imm : BitVec 12)
  /-- The load that is as wide as a register. -/
  | load (rd rs1 : Nat) (imm : BitVec 12)
deriving DecidableEq, Repr

def decode (w : Nat) (i : BitVec 32) : Option Instr :=
  let opcode := i.extractLsb' 0 7
  let rd := (i.extractLsb' 7 5).toNat
  let funct3 := i.extractLsb' 12 3
  let rs1 := (i.extractLsb' 15 5).toNat
  let imm := i.extractLsb' 20 12
  if opcode = 0x17 then some (.auipc rd (i.extractLsb' 12 20))
  else if opcode = 0x67 ∧ funct3 = 0 then some (.jalr rd rs1 imm)
  else if opcode = 0x03 ∧ funct3 = (if w = 64 then 3 else 2) then some (.load rd rs1 imm)
  else none

variable {w : Nat}

def getReg (s : State w) (r : Nat) : BitVec w := if r = 0 then 0 else s.reg r

def setReg (s : State w) (r : Nat) (v : BitVec w) : State w := if r = 0 then s else s.set r v

/-- The address that a load reads and a jump goes to. -/
def address (s : State w) (rs1 : Nat) (imm : BitVec 12) : BitVec w :=
  getReg s rs1 + imm.signExtend w

def exec (s : State w) : Instr → State w
  | .auipc rd imm => (setReg s rd (s.pc + (imm ++ 0#12).signExtend w)).advance 4
  | .jalr rd rs1 imm => (setReg s rd (s.pc + 4)).jump (address s rs1 imm &&& ~~~1#w)
  | .load rd rs1 imm => (setReg s rd (s.load (address s rs1 imm))).advance 4

/-- The second instruction of a pair takes the rest of the distance. -/
theorem address_auipc {s : State w} {rd : Nat} (hrd : rd ≠ 0) (hi : BitVec 20) (lo : BitVec 12) :
    address (exec s (.auipc rd hi)) rd lo =
      s.pc + ((hi ++ 0#12).signExtend w + lo.signExtend w) := by
  simp [address, exec, getReg, setReg, hrd, BitVec.add_assoc]

end RegisterMachine.Riscv
