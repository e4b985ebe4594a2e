import Turtle.Lib.Rv32

/-!
# The compressed instructions of RV32

The instructions of RV32C without floating point, hints included, their encodings in
16 bits and the instructions that they stand for. Their immediates are given in the
order of their bits in the halfword; `expand` sorts them.
-/

namespace Rv32

/-- The fields of a halfword. -/
structure CFields where
  funct3 : BitVec 3
  bit12 : BitVec 1
  mid : BitVec 5
  low : BitVec 5
  op : BitVec 2
  deriving DecidableEq, Repr

/-- The halfword with the given fields. -/
def CFields.half (f : CFields) : BitVec 16 := f.funct3 ++ f.bit12 ++ f.mid ++ f.low ++ f.op

/-- The fields of a halfword. -/
def cfields (h : BitVec 16) : CFields where
  funct3 := h.extractLsb' 13 3
  bit12 := h.extractLsb' 12 1
  mid := h.extractLsb' 7 5
  low := h.extractLsb' 2 5
  op := h.extractLsb' 0 2

theorem CFields.toNat_half (f : CFields) : f.half.toNat =
    f.funct3.toNat * 2 ^ 13 + f.bit12.toNat * 2 ^ 12 + f.mid.toNat * 2 ^ 7 + f.low.toNat * 2 ^ 2 +
      f.op.toNat := by
  unfold half
  simp only [toNat_append]
  omega

/-- The fields of a halfword are those that it was made of. -/
theorem CFields.cfields_half (f : CFields) : cfields f.half = f := by
  obtain ⟨funct3, bit12, mid, low, op⟩ := f
  unfold cfields half
  congr 1
  · rw [slice_append _ _ 11, slice_append _ _ 6, slice_append _ _ 1]
    exact BitVec.extractLsb'_append_eq_left
  · rw [slice_append _ _ 10, slice_append _ _ 5, slice_append _ _ 0]
    exact BitVec.extractLsb'_append_eq_right
  · rw [slice_append _ _ 5, slice_append _ _ 0]
    exact BitVec.extractLsb'_append_eq_right
  · rw [slice_append _ _ 0]
    exact BitVec.extractLsb'_append_eq_right
  · exact BitVec.extractLsb'_append_eq_right

/-- The fields of a halfword, as numbers. -/
theorem CFields.toNat_slices (f : CFields) :
    f.half.toNat / 2 ^ 13 = f.funct3.toNat ∧ f.half.toNat / 2 ^ 12 % 2 = f.bit12.toNat ∧
      f.half.toNat / 2 ^ 7 % 2 ^ 5 = f.mid.toNat ∧ f.half.toNat / 2 ^ 2 % 2 ^ 5 = f.low.toNat ∧
      f.half.toNat % 2 ^ 2 = f.op.toNat := by
  have hfields := f.cfields_half
  have hfunct3 := toNat_of_slice (congrArg funct3 hfields)
  have hop := toNat_of_slice (congrArg op hfields)
  have hlt : f.half.toNat / 2 ^ 13 < 2 ^ 3 := Nat.div_lt_of_lt_mul f.half.isLt
  rw [Nat.mod_eq_of_lt hlt] at hfunct3
  rw [Nat.pow_zero, Nat.div_one] at hop
  exact ⟨hfunct3, toNat_of_slice (congrArg bit12 hfields), toNat_of_slice (congrArg mid hfields),
    toNat_of_slice (congrArg low hfields), hop⟩

/-- A halfword is made of its fields. -/
theorem half_cfields (h : BitVec 16) : (cfields h).half = h := by
  unfold cfields CFields.half
  rw [← slice_join h 12 1 3, ← slice_join h 7 5 4, ← slice_join h 2 5 9, ← slice_join h 0 2 14]
  exact BitVec.extractLsb'_eq_self

/-- The operations on two of the registers `x8` to `x15`. -/
inductive CArith
  | sub | xor | or | and
  deriving DecidableEq, Repr

/-- The two bits that tell them apart. -/
def CArith.funct2 : CArith → BitVec 2
  | sub => 0b00
  | xor => 0b01
  | or => 0b10
  | and => 0b11

/-- The operation in full. -/
def CArith.alu : CArith → Alu
  | sub => .sub
  | xor => .xor
  | or => .or
  | and => .and

/-- Compressed instructions. Registers of three bits are `x8` to `x15`. -/
inductive CInstr
  | addi4spn (rd : BitVec 3) (imm : BitVec 8) (himm : imm ≠ 0)
  | lw (rd rs1 : BitVec 3) (imm : BitVec 5)
  | sw (rs2 rs1 : BitVec 3) (imm : BitVec 5)
  | addi (rd : BitVec 5) (imm : BitVec 6)
  | jal (offset : BitVec 11)
  | li (rd : BitVec 5) (imm : BitVec 6)
  | addi16sp (imm : BitVec 6) (himm : imm ≠ 0)
  | lui (rd : BitVec 5) (imm : BitVec 6) (hrd : rd ≠ 2) (himm : imm ≠ 0)
  | srli (rd : BitVec 3) (shamt : BitVec 5)
  | srai (rd : BitVec 3) (shamt : BitVec 5)
  | andi (rd : BitVec 3) (imm : BitVec 6)
  | arith (op : CArith) (rd rs2 : BitVec 3)
  | j (offset : BitVec 11)
  | beqz (rs1 : BitVec 3) (offset : BitVec 8)
  | bnez (rs1 : BitVec 3) (offset : BitVec 8)
  | slli (rd shamt : BitVec 5)
  | lwsp (rd : BitVec 5) (imm : BitVec 6) (hrd : rd ≠ 0)
  | jr (rs1 : BitVec 5) (hrs1 : rs1 ≠ 0)
  | mv (rd rs2 : BitVec 5) (hrs2 : rs2 ≠ 0)
  | ebreak
  | jalr (rs1 : BitVec 5) (hrs1 : rs1 ≠ 0)
  | add (rd rs2 : BitVec 5) (hrs2 : rs2 ≠ 0)
  | swsp (rs2 : BitVec 5) (imm : BitVec 6)
  deriving DecidableEq, Repr

namespace CInstr

/-- The fields of the encoding. -/
@[simp] def fields : CInstr → CFields
  | addi4spn rd imm _ =>
    ⟨0b000, imm.extractLsb' 7 1, imm.extractLsb' 2 5, imm.extractLsb' 0 2 ++ rd, 0b00⟩
  | lw rd rs1 imm =>
    ⟨0b010, imm.extractLsb' 4 1, imm.extractLsb' 2 2 ++ rs1, imm.extractLsb' 0 2 ++ rd, 0b00⟩
  | sw rs2 rs1 imm =>
    ⟨0b110, imm.extractLsb' 4 1, imm.extractLsb' 2 2 ++ rs1, imm.extractLsb' 0 2 ++ rs2, 0b00⟩
  | addi rd imm => ⟨0b000, imm.extractLsb' 5 1, rd, imm.extractLsb' 0 5, 0b01⟩
  | jal offset =>
    ⟨0b001, offset.extractLsb' 10 1, offset.extractLsb' 5 5, offset.extractLsb' 0 5, 0b01⟩
  | li rd imm => ⟨0b010, imm.extractLsb' 5 1, rd, imm.extractLsb' 0 5, 0b01⟩
  | addi16sp imm _ => ⟨0b011, imm.extractLsb' 5 1, 2, imm.extractLsb' 0 5, 0b01⟩
  | lui rd imm _ _ => ⟨0b011, imm.extractLsb' 5 1, rd, imm.extractLsb' 0 5, 0b01⟩
  | srli rd shamt => ⟨0b100, 0, 0b00#2 ++ rd, shamt, 0b01⟩
  | srai rd shamt => ⟨0b100, 0, 0b01#2 ++ rd, shamt, 0b01⟩
  | andi rd imm => ⟨0b100, imm.extractLsb' 5 1, 0b10#2 ++ rd, imm.extractLsb' 0 5, 0b01⟩
  | arith op rd rs2 => ⟨0b100, 0, 0b11#2 ++ rd, op.funct2 ++ rs2, 0b01⟩
  | j offset =>
    ⟨0b101, offset.extractLsb' 10 1, offset.extractLsb' 5 5, offset.extractLsb' 0 5, 0b01⟩
  | beqz rs1 offset =>
    ⟨0b110, offset.extractLsb' 7 1, offset.extractLsb' 5 2 ++ rs1, offset.extractLsb' 0 5, 0b01⟩
  | bnez rs1 offset =>
    ⟨0b111, offset.extractLsb' 7 1, offset.extractLsb' 5 2 ++ rs1, offset.extractLsb' 0 5, 0b01⟩
  | slli rd shamt => ⟨0b000, 0, rd, shamt, 0b10⟩
  | lwsp rd imm _ => ⟨0b010, imm.extractLsb' 5 1, rd, imm.extractLsb' 0 5, 0b10⟩
  | jr rs1 _ => ⟨0b100, 0, rs1, 0, 0b10⟩
  | mv rd rs2 _ => ⟨0b100, 0, rd, rs2, 0b10⟩
  | ebreak => ⟨0b100, 1, 0, 0, 0b10⟩
  | jalr rs1 _ => ⟨0b100, 1, rs1, 0, 0b10⟩
  | add rd rs2 _ => ⟨0b100, 1, rd, rs2, 0b10⟩
  | swsp rs2 imm => ⟨0b110, imm.extractLsb' 5 1, imm.extractLsb' 0 5, rs2, 0b10⟩

/-- The encoding. -/
def encode (c : CInstr) : BitVec 16 := c.fields.half

end CInstr

/-- One of the registers `x8` to `x15`. -/
def creg (r : BitVec 3) : BitVec 5 := 0b01#2 ++ r

/-- Scaled and sorted immediates. The comment of each gives the order of the bits in the
halfword. -/
def immAddi4spn (imm : BitVec 8) : BitVec 12 := -- 5:4, 9:6, 2, 3
  0#2 ++ imm.extractLsb' 2 4 ++ imm.extractLsb' 6 2 ++ imm.extractLsb' 0 1 ++
    imm.extractLsb' 1 1 ++ 0#2

def immLw (imm : BitVec 5) : BitVec 12 := -- 5:3, 2, 6
  0#5 ++ imm.extractLsb' 0 1 ++ imm.extractLsb' 2 3 ++ imm.extractLsb' 1 1 ++ 0#2

def immAddi16sp (imm : BitVec 6) : BitVec 12 := -- 9, 4, 6, 8:7, 5
  (imm.extractLsb' 5 1 ++ imm.extractLsb' 1 2 ++ imm.extractLsb' 3 1 ++ imm.extractLsb' 0 1 ++
    imm.extractLsb' 4 1 ++ 0#4).signExtend 12

def immLwsp (imm : BitVec 6) : BitVec 12 := -- 5, 4:2, 7:6
  0#4 ++ imm.extractLsb' 0 2 ++ imm.extractLsb' 5 1 ++ imm.extractLsb' 2 3 ++ 0#2

def immSwsp (imm : BitVec 6) : BitVec 12 := -- 5:2, 7:6
  0#4 ++ imm.extractLsb' 0 2 ++ imm.extractLsb' 2 4 ++ 0#2

/-- An offset without its lowest bit. -/
def offsetJ (offset : BitVec 11) : BitVec 20 := -- 11, 4, 9:8, 10, 6, 7, 3:1, 5
  (offset.extractLsb' 10 1 ++ offset.extractLsb' 6 1 ++ offset.extractLsb' 7 2 ++
    offset.extractLsb' 4 1 ++ offset.extractLsb' 5 1 ++ offset.extractLsb' 0 1 ++
    offset.extractLsb' 9 1 ++ offset.extractLsb' 1 3).signExtend 20

def offsetB (offset : BitVec 8) : BitVec 12 := -- 8, 4:3, 7:6, 2:1, 5
  (offset.extractLsb' 7 1 ++ offset.extractLsb' 3 2 ++ offset.extractLsb' 0 1 ++
    offset.extractLsb' 5 2 ++ offset.extractLsb' 1 2).signExtend 12

/-- The instruction that a compressed one stands for. -/
@[simp] def CInstr.expand : CInstr → Instr
  | addi4spn rd imm _ => .aluImm .addi (creg rd) 2 (immAddi4spn imm)
  | lw rd rs1 imm => .load .lw (creg rd) (creg rs1) (immLw imm)
  | sw rs2 rs1 imm => .store .sw (creg rs1) (creg rs2) (immLw imm)
  | addi rd imm => .aluImm .addi rd rd (imm.signExtend 12)
  | jal offset => .jal 1 (offsetJ offset)
  | li rd imm => .aluImm .addi rd 0 (imm.signExtend 12)
  | addi16sp imm _ => .aluImm .addi 2 2 (immAddi16sp imm)
  | lui rd imm _ _ => .lui rd (imm.signExtend 20)
  | srli rd shamt => .shift .srli (creg rd) (creg rd) shamt
  | srai rd shamt => .shift .srai (creg rd) (creg rd) shamt
  | andi rd imm => .aluImm .andi (creg rd) (creg rd) (imm.signExtend 12)
  | arith op rd rs2 => .alu op.alu (creg rd) (creg rd) (creg rs2)
  | j offset => .jal 0 (offsetJ offset)
  | beqz rs1 offset => .branch .beq (creg rs1) 0 (offsetB offset)
  | bnez rs1 offset => .branch .bne (creg rs1) 0 (offsetB offset)
  | slli rd shamt => .shift .slli rd rd shamt
  | lwsp rd imm _ => .load .lw rd 2 (immLwsp imm)
  | jr rs1 _ => .jalr 0 rs1 0
  | mv rd rs2 _ => .alu .add rd 0 rs2
  | ebreak => .system .ebreak
  | jalr rs1 _ => .jalr 1 rs1 0
  | add rd rs2 _ => .alu .add rd rd rs2
  | swsp rs2 imm => .store .sw 2 rs2 (immSwsp imm)

/-- The encoding of some compressed instruction. -/
def CLegal (h : BitVec 16) : Prop := ∃ c : CInstr, c.encode = h

end Rv32
