import ElfLoader.Library.Fields
import ElfLoader.Library.RegisterMachine

/-! # ARM, the 32-bit instruction set

The instructions that position-independent code uses to reach data. The program
counter is register 15 and reads two instructions ahead. An immediate operand is
eight bits, rotated right by an even amount.
-/

namespace RegisterMachine.Arm

inductive Instr where
  | add (rd rn : Nat) (imm : BitVec 32)
  /-- A load that leaves its address in the base register. -/
  | ldrPre (rt rn : Nat) (imm : BitVec 12)
deriving DecidableEq, Repr

/-- Eight bits and half of the amount they are rotated by. -/
def expandImm (imm : BitVec 12) : BitVec 32 :=
  ((imm.extractLsb' 0 8).setWidth 32).rotateRight (2 * (imm.extractLsb' 8 4).toNat)

def decode (i : BitVec 32) : Option Instr :=
  let rn := (i.extractLsb' 16 4).toNat
  let rd := (i.extractLsb' 12 4).toNat
  let imm := i.extractLsb' 0 12
  if i.extractLsb' 20 12 = 0xe28 then some (.add rd rn (expandImm imm))
  else if i.extractLsb' 20 12 = 0xe5b then some (.ldrPre rd rn imm)
  else none

def getReg (s : State 32) (r : Nat) : BitVec 32 := if r = 15 then s.pc + 8 else s.reg r

/-- Write a register and go on with the next instruction, or where the program
counter now points. -/
def finish (s : State 32) (r : Nat) (v : BitVec 32) : State 32 :=
  if r = 15 then s.jump v else (s.set r v).advance 4

/-- The address that a load reads. -/
def address (s : State 32) (rn : Nat) (imm : BitVec 12) : BitVec 32 :=
  getReg s rn + imm.setWidth 32

def exec (s : State 32) : Instr → State 32
  | .add rd rn imm => finish s rd (getReg s rn + imm)
  | .ldrPre rt rn imm => finish (s.set rn (address s rn imm)) rt (s.load (address s rn imm))

/-- Two additions and the load take a distance from the program counter apart. -/
theorem address_add_add {s : State 32} {r : Nat} (hr : r ≠ 15) (a b : BitVec 32)
    (c : BitVec 12) :
    address (exec (exec s (.add r 15 a)) (.add r r b)) r c =
      s.pc + 8 + (a + b + c.setWidth 32) := by
  simp [address, exec, finish, getReg, hr, BitVec.add_assoc]

end RegisterMachine.Arm
