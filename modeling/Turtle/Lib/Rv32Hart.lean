import Turtle.Lib.MulDiv
import Turtle.Lib.Rv32c

/-!
# What the RV32 instructions do

A hart has a program counter and 32 registers. Each instruction takes it to the next
state; what the instruction reads outside the hart, from memory or from a CSR, is given
to it. The operations are stated over the integers that the words stand for.
-/

namespace Rv32

/-! ### Registers -/

/-- A register file. Register 0 is zero. -/
structure Regs where
  read : BitVec 5 → BitVec 32
  read_zero : read 0 = 0

namespace Regs

/-- The file with a register written. What is written to register 0 is lost. -/
def write (r : Regs) (rd : BitVec 5) (v : BitVec 32) : Regs where
  read := if rd = 0 then r.read else Function.update r.read rd v
  read_zero := by
    split_ifs with h
    · exact r.read_zero
    · rw [Function.update_of_ne (Ne.symm h), r.read_zero]

/-- The file that holds the values of a function, up to register 0. -/
def ofFun (f : BitVec 5 → BitVec 32) : Regs where
  read := Function.update f 0 0
  read_zero := Function.update_self ..

@[ext] theorem ext {r r' : Regs} (h : ∀ i, r.read i = r'.read i) : r = r' := by
  cases r
  cases r'
  congr
  exact funext h

@[simp] theorem write_zero (r : Regs) (v : BitVec 32) : r.write 0#5 v = r := rfl

theorem ofFun_read {f : BitVec 5 → BitVec 32} (h : f 0 = 0) : (ofFun f).read = f := by
  change Function.update f 0 0 = f
  rw [← h, Function.update_eq_self]

/-- Writing a register of a function and of its file. -/
theorem ofFun_update {f : BitVec 5 → BitVec 32} {rd : BitVec 5} (h : rd ≠ 0) (v : BitVec 32) :
    ofFun (Function.update f rd v) = (ofFun f).write rd v := by
  apply ext
  intro i
  simp only [ofFun, write, if_neg h]
  rw [Function.update_comm h.symm]

end Regs

/-! ### Operations -/

/-- The result of an operation on two registers. -/
def Alu.result (a b : BitVec 32) : Alu → BitVec 32
  | add => BitVec.ofInt 32 (a.toInt + b.toInt)
  | sub => BitVec.ofInt 32 (a.toInt - b.toInt)
  | sll => BitVec.ofNat 32 (a.toNat * 2 ^ (b.toNat % 32))
  | slt => if a.toInt < b.toInt then 1 else 0
  | sltu => if a.toNat < b.toNat then 1 else 0
  | xor => a ^^^ b
  | srl => BitVec.ofNat 32 (a.toNat / 2 ^ (b.toNat % 32))
  | sra => BitVec.ofInt 32 (a.toInt / 2 ^ (b.toNat % 32))
  | or => a ||| b
  | and => a &&& b
  | mul => MulDiv.Op.mul.result a b
  | mulh => MulDiv.Op.mulh.result a b
  | mulhsu => MulDiv.Op.mulhsu.result a b
  | mulhu => MulDiv.Op.mulhu.result a b
  | div => MulDiv.Op.div.result a b
  | divu => MulDiv.Op.divu.result a b
  | rem => MulDiv.Op.rem.result a b
  | remu => MulDiv.Op.remu.result a b

/-- The operation of an instruction with an immediate. -/
def AluImm.alu : AluImm → Alu
  | addi => .add
  | slti => .slt
  | sltiu => .sltu
  | xori => .xor
  | ori => .or
  | andi => .and

/-- The operation of a shift by a constant. -/
def Shift.alu : Shift → Alu
  | slli => .sll
  | srli => .srl
  | srai => .sra

/-- Whether a branch is taken. -/
def Branch.taken (a b : BitVec 32) : Branch → Bool
  | beq => decide (a = b)
  | bne => decide (a ≠ b)
  | blt => decide (a.toInt < b.toInt)
  | bge => decide (b.toInt ≤ a.toInt)
  | bltu => decide (a.toNat < b.toNat)
  | bgeu => decide (b.toNat ≤ a.toNat)

/-- What a load makes of the bytes that it reads, given with zeros above them. -/
def Load.extend (v : BitVec 32) : Load → BitVec 32
  | lb => (v.setWidth 8).signExtend 32
  | lh => (v.setWidth 16).signExtend 32
  | lw => v
  | lbu => v
  | lhu => v

/-! The operations, as operations on words. -/

section

variable (a b : BitVec 32)

theorem Alu.add_result : Alu.add.result a b = a + b := by
  change BitVec.ofInt 32 (a.toInt + b.toInt) = a + b
  rw [BitVec.ofInt_add, BitVec.ofInt_toInt, BitVec.ofInt_toInt]

theorem Alu.sub_result : Alu.sub.result a b = a - b := by
  change BitVec.ofInt 32 (a.toInt - b.toInt) = a - b
  rw [sub_eq_add_neg, BitVec.ofInt_add, BitVec.ofInt_neg, BitVec.ofInt_toInt,
    BitVec.ofInt_toInt, BitVec.sub_eq_add_neg]

theorem Alu.sll_result : Alu.sll.result a b = a <<< (b.toNat % 32) := by
  change BitVec.ofNat 32 (a.toNat * 2 ^ (b.toNat % 32)) = _
  apply BitVec.eq_of_toNat_eq
  rw [BitVec.toNat_ofNat, BitVec.toNat_shiftLeft, Nat.shiftLeft_eq]

theorem Alu.srl_result : Alu.srl.result a b = a >>> (b.toNat % 32) := by
  have hle : a.toNat / 2 ^ (b.toNat % 32) < 2 ^ 32 := (Nat.div_le_self ..).trans_lt a.isLt
  change BitVec.ofNat 32 (a.toNat / 2 ^ (b.toNat % 32)) = _
  apply BitVec.eq_of_toNat_eq
  rw [BitVec.toNat_ofNat, BitVec.toNat_ushiftRight, Nat.shiftRight_eq_div_pow,
    Nat.mod_eq_of_lt hle]

theorem Alu.sra_result : Alu.sra.result a b = a.sshiftRight (b.toNat % 32) := by
  change BitVec.ofInt 32 (a.toInt / 2 ^ (b.toNat % 32)) = _
  rw [← BitVec.ofInt_toInt (x := a.sshiftRight _), BitVec.toInt_sshiftRight,
    Int.shiftRight_eq_div_pow]
  norm_cast

theorem Alu.slt_result : Alu.slt.result a b = if a.slt b then 1 else 0 := by
  change (if a.toInt < b.toInt then 1 else 0) = _
  simp only [BitVec.slt_iff_toInt_lt]

theorem Alu.sltu_result : Alu.sltu.result a b = if a.ult b then 1 else 0 := by
  change (if a.toNat < b.toNat then 1 else 0) = _
  simp only [BitVec.ult_iff_toNat_lt]

/-- The comparison that decides a branch. -/
theorem Branch.taken_eq (op : Branch) : op.taken a b = match op with
    | beq => a == b
    | bne => a != b
    | blt => a.slt b
    | bge => !a.slt b
    | bltu => a.ult b
    | bgeu => !a.ult b := by
  cases op with
  | beq => rfl
  | bne => exact decide_not
  | blt => rfl
  | bge =>
    rw [taken, BitVec.slt, ← decide_not]
    exact decide_eq_decide.mpr not_lt.symm
  | bltu => rfl
  | bgeu =>
    rw [taken, BitVec.ult, ← decide_not]
    exact decide_eq_decide.mpr not_lt.symm

end

/-! ### Instructions -/

/-- The accesses that instructions make to memory. -/
inductive Access
  | load (size : ℕ)
  | store (size : ℕ) (data : BitVec 32)
  | lr
  | sc (data : BitVec 32)
  | amo (op : Amo) (data : BitVec 32)
  deriving DecidableEq, Repr

/-- The number of bytes of an access. -/
def Access.size : Access → ℕ
  | load size => size
  | store size _ => size
  | lr => 4
  | sc _ => 4
  | amo _ _ => 4

namespace Instr

/-- The access of an instruction and its address. -/
def access (r : Regs) : Instr → Option (BitVec 32 × Access)
  | load op _ rs1 imm => some (r.read rs1 + imm.signExtend 32, .load op.size)
  | store op rs1 rs2 imm => some (r.read rs1 + imm.signExtend 32, .store op.size (r.read rs2))
  | lr _ _ rs1 => some (r.read rs1, .lr)
  | sc _ _ rs1 rs2 => some (r.read rs1, .sc (r.read rs2))
  | amo op _ _ rs1 rs2 => some (r.read rs1, .amo op (r.read rs2))
  | _ => none

/-- The word that an instruction writes to its register. The instruction is at `pc` and has
`len` bytes; `got` is what it reads from memory or from a CSR. -/
def value (pc len : BitVec 32) (r : Regs) (got : BitVec 32) : Instr → BitVec 32
  | lui _ imm => imm ++ 0#12
  | auipc _ imm => pc + (imm ++ 0#12)
  | jal _ _ => pc + len
  | jalr _ _ _ => pc + len
  | load op _ _ _ => op.extend got
  | aluImm op _ rs1 imm => op.alu.result (r.read rs1) (imm.signExtend 32)
  | shift op _ rs1 shamt => op.alu.result (r.read rs1) (shamt.setWidth 32)
  | alu op _ rs1 rs2 => op.result (r.read rs1) (r.read rs2)
  | _ => got

/-- The address of the next instruction. A return goes to the address that it reads. -/
def next (pc len : BitVec 32) (r : Regs) (got : BitVec 32) : Instr → BitVec 32
  | jal _ offset => pc + (offset ++ 0#1).signExtend 32
  | jalr _ rs1 imm => (r.read rs1 + imm.signExtend 32) &&& ~~~1
  | branch op rs1 rs2 offset =>
    if op.taken (r.read rs1) (r.read rs2) then pc + (offset ++ 0#1).signExtend 32 else pc + len
  | system .mret => got
  | system .sret => got
  | _ => pc + len

theorem next_branch {pc len got : BitVec 32} {r : Regs} {op : Branch} {rs1 rs2 : BitVec 5}
    {offset : BitVec 12} : (branch op rs1 rs2 offset).next pc len r got =
      if op.taken (r.read rs1) (r.read rs2) then pc + (offset ++ 0#1).signExtend 32
      else pc + len := rfl

/-- The calls and breakpoints, which always trap. -/
def Calls : Instr → Prop
  | system .ecall => True
  | system .ebreak => True
  | _ => False

/-- The codes of the exceptions that an instruction can raise. -/
def causes : Instr → List (BitVec 32)
  | load _ _ _ _ => [4, 5, 13]
  | lr _ _ _ => [4, 5, 13]
  | store _ _ _ _ => [6, 7, 15]
  | sc _ _ _ _ => [6, 7, 15]
  | amo _ _ _ _ _ => [6, 7, 15]
  | csr _ _ _ _ => [2]
  | csrImm _ _ _ _ => [2]
  | sfenceVma _ _ => [2]
  | system .ecall => [8, 9, 11]
  | system .ebreak => [3]
  | system _ => [2]
  | _ => []

end Instr

/-- The architectural state of a hart. -/
@[ext] structure Hart where
  pc : BitVec 32
  regs : Regs

/-- The state after an instruction. -/
def Instr.exec (len : BitVec 32) (h : Hart) (got : BitVec 32) (i : Instr) : Hart where
  pc := i.next h.pc len h.regs got
  regs := match i.rd with
    | some rd => h.regs.write rd (i.value h.pc len h.regs got)
    | none => h.regs

/-- A word starts with the encoding of an instruction of the given length. -/
inductive Encodes (w : BitVec 32) : Instr → BitVec 32 → Prop
  | wide {i : Instr} : i.encode = w → Encodes w i 4
  | compressed {c : CInstr} : c.encode = w.setWidth 16 → Encodes w c.expand 2

end Rv32
