import Mathlib.Data.BitVec

/-!
# The RV32 instruction set

The instructions of RV32IMA with Zicsr, Zifencei and the privileged instructions, as a
syntax, and their encodings in 32 bits. A word is made of six fields; the formats put
the bits of immediates into the fields that they do not need otherwise.
-/

namespace Rv32

/-! ### Fields -/

/-- The fields of an instruction word. -/
structure Fields where
  funct7 : BitVec 7
  rs2 : BitVec 5
  rs1 : BitVec 5
  funct3 : BitVec 3
  rd : BitVec 5
  opcode : BitVec 7
  deriving DecidableEq, Repr

/-- The word with the given fields. -/
def Fields.word (f : Fields) : BitVec 32 :=
  f.funct7 ++ f.rs2 ++ f.rs1 ++ f.funct3 ++ f.rd ++ f.opcode

/-- The fields of a word. -/
def fields (w : BitVec 32) : Fields where
  funct7 := w.extractLsb' 25 7
  rs2 := w.extractLsb' 20 5
  rs1 := w.extractLsb' 15 5
  funct3 := w.extractLsb' 12 3
  rd := w.extractLsb' 7 5
  opcode := w.extractLsb' 0 7

/-- Juxtaposition is a sum of numbers. -/
theorem toNat_append {m n : ℕ} (x : BitVec m) (y : BitVec n) :
    (x ++ y).toNat = x.toNat * 2 ^ n + y.toNat := by
  rw [BitVec.toNat_append, ← Nat.shiftLeft_add_eq_or_of_lt y.isLt, Nat.shiftLeft_eq]

/-- A slice is a remainder of a quotient. -/
theorem toNat_slice {m : ℕ} (x : BitVec m) (start len : ℕ) :
    (x.extractLsb' start len).toNat = x.toNat / 2 ^ start % 2 ^ len := by
  rw [BitVec.extractLsb'_toNat, Nat.shiftRight_eq_div_pow]

theorem toNat_of_slice {m start len : ℕ} {w : BitVec m} {x : BitVec len}
    (h : w.extractLsb' start len = x) : w.toNat / 2 ^ start % 2 ^ len = x.toNat := by
  rw [← toNat_slice, h]

theorem Fields.toNat_word (f : Fields) : f.word.toNat =
    f.funct7.toNat * 2 ^ 25 + f.rs2.toNat * 2 ^ 20 + f.rs1.toNat * 2 ^ 15 +
      f.funct3.toNat * 2 ^ 12 + f.rd.toNat * 2 ^ 7 + f.opcode.toNat := by
  unfold word
  simp only [toNat_append]
  omega

/-- A slice of the left part of a juxtaposition. -/
theorem slice_append {m n : ℕ} (x : BitVec m) (y : BitVec n) (start len : ℕ) :
    (x ++ y).extractLsb' (n + start) len = x.extractLsb' start len := by
  rw [BitVec.extractLsb'_append_eq_of_le (by omega), Nat.add_sub_cancel_left]

/-- Two adjacent slices. -/
theorem slice_join {n : ℕ} (x : BitVec n) (start len len' : ℕ) :
    x.extractLsb' start (len' + len) =
      x.extractLsb' (start + len) len' ++ x.extractLsb' start len :=
  (BitVec.extractLsb'_append_extractLsb'_eq_extractLsb' rfl).symm

/-- A slice of a slice. -/
theorem slice_slice {m : ℕ} (x : BitVec m) {start len i n : ℕ} (h : i + n ≤ len) :
    (x.extractLsb' start len).extractLsb' i n = x.extractLsb' (start + i) n := by
  apply BitVec.eq_of_getLsbD_eq
  intro j hj
  have hlt : i + j < len := by omega
  simp [hj, hlt, Nat.add_assoc]

/-- The fields of a word are those that it was made of. -/
theorem Fields.fields_word (f : Fields) : fields f.word = f := by
  obtain ⟨funct7, rs2, rs1, funct3, rd, opcode⟩ := f
  unfold fields word
  congr 1
  · rw [slice_append _ _ 18, slice_append _ _ 13, slice_append _ _ 10, slice_append _ _ 5]
    exact BitVec.extractLsb'_append_eq_left
  · rw [slice_append _ _ 13, slice_append _ _ 8, slice_append _ _ 5, slice_append _ _ 0]
    exact BitVec.extractLsb'_append_eq_right
  · rw [slice_append _ _ 8, slice_append _ _ 3, slice_append _ _ 0]
    exact BitVec.extractLsb'_append_eq_right
  · rw [slice_append _ _ 5, slice_append _ _ 0]
    exact BitVec.extractLsb'_append_eq_right
  · rw [slice_append _ _ 0]
    exact BitVec.extractLsb'_append_eq_right
  · exact BitVec.extractLsb'_append_eq_right

/-- The fields of a word, as numbers. -/
theorem Fields.toNat_slices (f : Fields) :
    f.word.toNat / 2 ^ 25 = f.funct7.toNat ∧ f.word.toNat / 2 ^ 20 % 2 ^ 5 = f.rs2.toNat ∧
      f.word.toNat / 2 ^ 15 % 2 ^ 5 = f.rs1.toNat ∧ f.word.toNat / 2 ^ 12 % 2 ^ 3 = f.funct3.toNat ∧
      f.word.toNat / 2 ^ 7 % 2 ^ 5 = f.rd.toNat ∧ f.word.toNat % 2 ^ 7 = f.opcode.toNat := by
  have hfields := f.fields_word
  have hfunct7 := toNat_of_slice (congrArg funct7 hfields)
  have hopcode := toNat_of_slice (congrArg opcode hfields)
  have hlt : f.word.toNat / 2 ^ 25 < 2 ^ 7 := Nat.div_lt_of_lt_mul f.word.isLt
  rw [Nat.mod_eq_of_lt hlt] at hfunct7
  rw [Nat.pow_zero, Nat.div_one] at hopcode
  exact ⟨hfunct7, toNat_of_slice (congrArg rs2 hfields), toNat_of_slice (congrArg rs1 hfields),
    toNat_of_slice (congrArg funct3 hfields), toNat_of_slice (congrArg rd hfields), hopcode⟩

/-- A word is made of its fields. -/
theorem word_fields (w : BitVec 32) : (fields w).word = w := by
  unfold fields Fields.word
  rw [← slice_join w 20 5 7, ← slice_join w 15 5 12, ← slice_join w 12 3 17, ← slice_join w 7 5 20,
    ← slice_join w 0 7 25]
  exact BitVec.extractLsb'_eq_self

/-- A word is a juxtaposition at every place. -/
theorem exists_append (m n : ℕ) (x : BitVec (m + n)) :
    ∃ (a : BitVec m) (b : BitVec n), x = a ++ b :=
  ⟨_, _, BitVec.extractLsb'_append_extractLsb'.symm⟩

/-- A word as the number of its slices. -/
theorem toNat_eq_slices {m n : ℕ} (x : BitVec (m + n)) :
    x.toNat = (x.extractLsb' n m).toNat * 2 ^ n + (x.extractLsb' 0 n).toNat := by
  rw [← toNat_append, BitVec.extractLsb'_append_extractLsb']

/-! ### Formats -/

namespace Fields

/-- The I format: a 12-bit immediate in place of `funct7` and `rs2`. -/
def immediate (imm : BitVec 12) (rs1 : BitVec 5) (funct3 : BitVec 3) (rd : BitVec 5)
    (opcode : BitVec 7) : Fields :=
  ⟨imm.extractLsb' 5 7, imm.extractLsb' 0 5, rs1, funct3, rd, opcode⟩

/-- The S format: a 12-bit immediate in place of `funct7` and `rd`. -/
def store (imm : BitVec 12) (rs2 rs1 : BitVec 5) (funct3 : BitVec 3) (opcode : BitVec 7) : Fields :=
  ⟨imm.extractLsb' 5 7, rs2, rs1, funct3, imm.extractLsb' 0 5, opcode⟩

/-- The B format: an even offset of 13 bits, given without its lowest bit. -/
def branch (offset : BitVec 12) (rs2 rs1 : BitVec 5) (funct3 : BitVec 3) (opcode : BitVec 7) :
    Fields :=
  ⟨offset.extractLsb' 11 1 ++ offset.extractLsb' 4 6, rs2, rs1, funct3,
    offset.extractLsb' 0 4 ++ offset.extractLsb' 10 1, opcode⟩

/-- The U format: the upper 20 bits of a word. -/
def upper (imm : BitVec 20) (rd : BitVec 5) (opcode : BitVec 7) : Fields :=
  ⟨imm.extractLsb' 13 7, imm.extractLsb' 8 5, imm.extractLsb' 3 5, imm.extractLsb' 0 3, rd, opcode⟩

/-- The J format: an even offset of 21 bits, given without its lowest bit. -/
def jump (offset : BitVec 20) (rd : BitVec 5) (opcode : BitVec 7) : Fields :=
  upper (offset.extractLsb' 19 1 ++ offset.extractLsb' 0 10 ++ offset.extractLsb' 10 1 ++
    offset.extractLsb' 11 8) rd opcode

end Fields

/-- The upper 20 bits of a word. -/
theorem Fields.toNat_upper (imm : BitVec 20) (rd : BitVec 5) (opcode : BitVec 7) :
    (upper imm rd opcode).word.toNat / 2 ^ 12 = imm.toNat := by
  have hrd := rd.isLt
  have hopcode := opcode.isLt
  have himm : imm.extractLsb' 13 7 ++ imm.extractLsb' 8 5 ++ imm.extractLsb' 3 5 ++
      imm.extractLsb' 0 3 = imm := by
    rw [← slice_join imm 8 5 7, ← slice_join imm 3 5 12, ← slice_join imm 0 3 17]
    exact BitVec.extractLsb'_eq_self
  unfold upper word
  rw [himm, toNat_append, toNat_append]
  omega

/-- The offset of a branch, from its pieces. -/
theorem branch_pieces (offset : BitVec 12) : offset.extractLsb' 11 1 ++ offset.extractLsb' 10 1 ++
    offset.extractLsb' 4 6 ++ offset.extractLsb' 0 4 = offset := by
  rw [← slice_join offset 10 1 1, ← slice_join offset 4 6 2, ← slice_join offset 0 4 8]
  exact BitVec.extractLsb'_eq_self

/-- The offset of a jump, from its pieces. -/
theorem jump_pieces (offset : BitVec 20) : offset.extractLsb' 19 1 ++ offset.extractLsb' 11 8 ++
    offset.extractLsb' 10 1 ++ offset.extractLsb' 0 10 = offset := by
  rw [← slice_join offset 11 8 1, ← slice_join offset 10 1 9, ← slice_join offset 0 10 10]
  exact BitVec.extractLsb'_eq_self

/-! Every choice of fields is one of each format. -/

namespace Fields

variable (F : Fields)

theorem immediate_eq : immediate (F.funct7 ++ F.rs2) F.rs1 F.funct3 F.rd F.opcode = F := by
  rw [immediate, BitVec.extractLsb'_append_eq_left,
    BitVec.extractLsb'_append_eq_right]

theorem store_eq : store (F.funct7 ++ F.rd) F.rs2 F.rs1 F.funct3 F.opcode = F := by
  rw [store, BitVec.extractLsb'_append_eq_left,
    BitVec.extractLsb'_append_eq_right]

theorem exists_branch : ∃ offset, branch offset F.rs2 F.rs1 F.funct3 F.opcode = F := by
  obtain ⟨a, b, hfunct7⟩ := exists_append 1 6 F.funct7
  obtain ⟨c, d, hrd⟩ := exists_append 4 1 F.rd
  have ha : (a ++ d ++ b ++ c).extractLsb' 11 1 = a := by
    rw [slice_append _ _ 7, slice_append _ _ 1]
    exact BitVec.extractLsb'_append_eq_left
  have hb : (a ++ d ++ b ++ c).extractLsb' 4 6 = b := by
    rw [slice_append _ _ 0]
    exact BitVec.extractLsb'_append_eq_right
  have hc : (a ++ d ++ b ++ c).extractLsb' 0 4 = c := BitVec.extractLsb'_append_eq_right
  have hd : (a ++ d ++ b ++ c).extractLsb' 10 1 = d := by
    rw [slice_append _ _ 6, slice_append _ _ 0]
    exact BitVec.extractLsb'_append_eq_right
  refine ⟨a ++ d ++ b ++ c, ?_⟩
  rw [branch, ha, hb, hc, hd, ← hfunct7, ← hrd]

theorem exists_upper : ∃ imm, upper imm F.rd F.opcode = F := by
  refine ⟨F.funct7 ++ F.rs2 ++ F.rs1 ++ F.funct3, ?_⟩
  unfold upper
  congr 1
  · rw [slice_append _ _ 10, slice_append _ _ 5]
    exact BitVec.extractLsb'_append_eq_left
  · rw [slice_append _ _ 5, slice_append _ _ 0]
    exact BitVec.extractLsb'_append_eq_right
  · rw [slice_append _ _ 0]
    exact BitVec.extractLsb'_append_eq_right
  · exact BitVec.extractLsb'_append_eq_right

theorem exists_jump : ∃ offset, jump offset F.rd F.opcode = F := by
  obtain ⟨imm, himm⟩ := F.exists_upper
  obtain ⟨abc, d, rfl⟩ := exists_append 12 8 imm
  obtain ⟨ab, c, rfl⟩ := exists_append 11 1 abc
  obtain ⟨a, b, rfl⟩ := exists_append 1 10 ab
  have ha : (a ++ d ++ c ++ b).extractLsb' 19 1 = a := by
    rw [slice_append _ _ 9, slice_append _ _ 8]
    exact BitVec.extractLsb'_append_eq_left
  have hb : (a ++ d ++ c ++ b).extractLsb' 0 10 = b := BitVec.extractLsb'_append_eq_right
  have hc : (a ++ d ++ c ++ b).extractLsb' 10 1 = c := by
    rw [slice_append _ _ 0]
    exact BitVec.extractLsb'_append_eq_right
  have hd : (a ++ d ++ c ++ b).extractLsb' 11 8 = d := by
    rw [slice_append _ _ 1, slice_append _ _ 0]
    exact BitVec.extractLsb'_append_eq_right
  refine ⟨a ++ d ++ c ++ b, ?_⟩
  rw [jump, ha, hb, hc, hd]
  exact himm

end Fields

/-! ### Operations -/

/-- The read-modify-write operations of the A extension. -/
inductive Amo
  | swap | add | xor | and | or | min | max | minu | maxu
  deriving DecidableEq, Repr

/-- What an operation stores, from the register `rs2` and the old word. The minima and
maxima are signed or unsigned. -/
def Amo.result (rs2 old : BitVec 32) : Amo → BitVec 32
  | swap => rs2
  | add => old + rs2
  | xor => old ^^^ rs2
  | and => old &&& rs2
  | or => old ||| rs2
  | min => BitVec.ofInt 32 (Min.min old.toInt rs2.toInt)
  | max => BitVec.ofInt 32 (Max.max old.toInt rs2.toInt)
  | minu => BitVec.ofNat 32 (Min.min old.toNat rs2.toNat)
  | maxu => BitVec.ofNat 32 (Max.max old.toNat rs2.toNat)

/-- The upper five bits of `funct7`; the lower two are `aq` and `rl`. -/
def Amo.funct5 : Amo → BitVec 5
  | swap => 0b00001
  | add => 0b00000
  | xor => 0b00100
  | and => 0b01100
  | or => 0b01000
  | min => 0b10000
  | max => 0b10100
  | minu => 0b11000
  | maxu => 0b11100

/-- Operations on two registers, those of the M extension included. -/
inductive Alu
  | add | sub | sll | slt | sltu | xor | srl | sra | or | and
  | mul | mulh | mulhsu | mulhu | div | divu | rem | remu
  deriving DecidableEq, Repr

/-- `funct7` and `funct3`. -/
def Alu.funct : Alu → BitVec 7 × BitVec 3
  | add => (0b0000000, 0b000)
  | sub => (0b0100000, 0b000)
  | sll => (0b0000000, 0b001)
  | slt => (0b0000000, 0b010)
  | sltu => (0b0000000, 0b011)
  | xor => (0b0000000, 0b100)
  | srl => (0b0000000, 0b101)
  | sra => (0b0100000, 0b101)
  | or => (0b0000000, 0b110)
  | and => (0b0000000, 0b111)
  | mul => (0b0000001, 0b000)
  | mulh => (0b0000001, 0b001)
  | mulhsu => (0b0000001, 0b010)
  | mulhu => (0b0000001, 0b011)
  | div => (0b0000001, 0b100)
  | divu => (0b0000001, 0b101)
  | rem => (0b0000001, 0b110)
  | remu => (0b0000001, 0b111)

/-- Operations on a register and an immediate. -/
inductive AluImm
  | addi | slti | sltiu | xori | ori | andi
  deriving DecidableEq, Repr

/-- `funct3`. -/
def AluImm.funct3 : AluImm → BitVec 3
  | addi => 0b000
  | slti => 0b010
  | sltiu => 0b011
  | xori => 0b100
  | ori => 0b110
  | andi => 0b111

/-- Shifts by a constant. -/
inductive Shift
  | slli | srli | srai
  deriving DecidableEq, Repr

/-- `funct7` and `funct3`. -/
def Shift.funct : Shift → BitVec 7 × BitVec 3
  | slli => (0b0000000, 0b001)
  | srli => (0b0000000, 0b101)
  | srai => (0b0100000, 0b101)

/-- Loads. -/
inductive Load
  | lb | lh | lw | lbu | lhu
  deriving DecidableEq, Repr

/-- `funct3`. -/
def Load.funct3 : Load → BitVec 3
  | lb => 0b000
  | lh => 0b001
  | lw => 0b010
  | lbu => 0b100
  | lhu => 0b101

/-- The bytes that a load reads. -/
def Load.size : Load → ℕ
  | lb => 1
  | lh => 2
  | lw => 4
  | lbu => 1
  | lhu => 2

/-- Stores. -/
inductive Store
  | sb | sh | sw
  deriving DecidableEq, Repr

/-- `funct3`. -/
def Store.funct3 : Store → BitVec 3
  | sb => 0b000
  | sh => 0b001
  | sw => 0b010

/-- The bytes that a store writes. -/
def Store.size : Store → ℕ
  | sb => 1
  | sh => 2
  | sw => 4

/-- Conditional branches. -/
inductive Branch
  | beq | bne | blt | bge | bltu | bgeu
  deriving DecidableEq, Repr

/-- `funct3`. -/
def Branch.funct3 : Branch → BitVec 3
  | beq => 0b000
  | bne => 0b001
  | blt => 0b100
  | bge => 0b101
  | bltu => 0b110
  | bgeu => 0b111

/-- Writes of a CSR: replace, set bits or clear bits. -/
inductive Csr
  | rw | rs | rc
  deriving DecidableEq, Repr

/-- The lower bits of `funct3`; the upper one tells that the operand is an immediate. -/
def Csr.funct2 : Csr → BitVec 2
  | rw => 0b01
  | rs => 0b10
  | rc => 0b11

/-- Instructions without operands. -/
inductive System
  | ecall | ebreak | wfi | sret | mret
  deriving DecidableEq, Repr

/-- The 12 bits that tell them apart. -/
def System.funct12 : System → BitVec 12
  | ecall => 0x000
  | ebreak => 0x001
  | wfi => 0x105
  | sret => 0x102
  | mret => 0x302

/-! ### Instructions -/

/-- Instructions. Offsets of jumps and branches are given without their lowest bit, which
is clear. The fences ignore the fields that they carry. -/
inductive Instr
  | lui (rd : BitVec 5) (imm : BitVec 20)
  | auipc (rd : BitVec 5) (imm : BitVec 20)
  | jal (rd : BitVec 5) (offset : BitVec 20)
  | jalr (rd rs1 : BitVec 5) (imm : BitVec 12)
  | branch (op : Branch) (rs1 rs2 : BitVec 5) (offset : BitVec 12)
  | load (op : Load) (rd rs1 : BitVec 5) (imm : BitVec 12)
  | store (op : Store) (rs1 rs2 : BitVec 5) (imm : BitVec 12)
  | aluImm (op : AluImm) (rd rs1 : BitVec 5) (imm : BitVec 12)
  | shift (op : Shift) (rd rs1 shamt : BitVec 5)
  | alu (op : Alu) (rd rs1 rs2 : BitVec 5)
  | fence (imm : BitVec 12) (rd rs1 : BitVec 5)
  | fenceI (imm : BitVec 12) (rd rs1 : BitVec 5)
  | csr (op : Csr) (rd rs1 : BitVec 5) (addr : BitVec 12)
  | csrImm (op : Csr) (rd uimm : BitVec 5) (addr : BitVec 12)
  | system (op : System)
  | sfenceVma (rs1 rs2 : BitVec 5)
  | lr (aqrl : BitVec 2) (rd rs1 : BitVec 5)
  | sc (aqrl : BitVec 2) (rd rs1 rs2 : BitVec 5)
  | amo (op : Amo) (aqrl : BitVec 2) (rd rs1 rs2 : BitVec 5)
  deriving DecidableEq, Repr

namespace Instr

/-- The fields of the encoding. -/
@[simp] def fields : Instr → Fields
  | lui rd imm => .upper imm rd 0b0110111
  | auipc rd imm => .upper imm rd 0b0010111
  | jal rd offset => .jump offset rd 0b1101111
  | jalr rd rs1 imm => .immediate imm rs1 0b000 rd 0b1100111
  | branch op rs1 rs2 offset => .branch offset rs2 rs1 op.funct3 0b1100011
  | load op rd rs1 imm => .immediate imm rs1 op.funct3 rd 0b0000011
  | store op rs1 rs2 imm => .store imm rs2 rs1 op.funct3 0b0100011
  | aluImm op rd rs1 imm => .immediate imm rs1 op.funct3 rd 0b0010011
  | shift op rd rs1 shamt => ⟨op.funct.1, shamt, rs1, op.funct.2, rd, 0b0010011⟩
  | alu op rd rs1 rs2 => ⟨op.funct.1, rs2, rs1, op.funct.2, rd, 0b0110011⟩
  | fence imm rd rs1 => .immediate imm rs1 0b000 rd 0b0001111
  | fenceI imm rd rs1 => .immediate imm rs1 0b001 rd 0b0001111
  | csr op rd rs1 addr => .immediate addr rs1 (0#1 ++ op.funct2) rd 0b1110011
  | csrImm op rd uimm addr => .immediate addr uimm (1#1 ++ op.funct2) rd 0b1110011
  | system op => .immediate op.funct12 0 0b000 0 0b1110011
  | sfenceVma rs1 rs2 => ⟨0b0001001, rs2, rs1, 0b000, 0, 0b1110011⟩
  | lr aqrl rd rs1 => ⟨0b00010#5 ++ aqrl, 0, rs1, 0b010, rd, 0b0101111⟩
  | sc aqrl rd rs1 rs2 => ⟨0b00011#5 ++ aqrl, rs2, rs1, 0b010, rd, 0b0101111⟩
  | amo op aqrl rd rs1 rs2 => ⟨op.funct5 ++ aqrl, rs2, rs1, 0b010, rd, 0b0101111⟩

/-- The encoding. -/
def encode (i : Instr) : BitVec 32 := i.fields.word

/-- The first register that an instruction reads. -/
@[simp] def rs1 : Instr → Option (BitVec 5)
  | jalr _ rs1 _ => some rs1
  | branch _ rs1 _ _ => some rs1
  | load _ _ rs1 _ => some rs1
  | store _ rs1 _ _ => some rs1
  | aluImm _ _ rs1 _ => some rs1
  | shift _ _ rs1 _ => some rs1
  | alu _ _ rs1 _ => some rs1
  | csr _ _ rs1 _ => some rs1
  | sfenceVma rs1 _ => some rs1
  | lr _ _ rs1 => some rs1
  | sc _ _ rs1 _ => some rs1
  | amo _ _ _ rs1 _ => some rs1
  | _ => none

/-- The second register that an instruction reads. -/
@[simp] def rs2 : Instr → Option (BitVec 5)
  | branch _ _ rs2 _ => some rs2
  | store _ _ rs2 _ => some rs2
  | alu _ _ _ rs2 => some rs2
  | sfenceVma _ rs2 => some rs2
  | sc _ _ _ rs2 => some rs2
  | amo _ _ _ _ rs2 => some rs2
  | _ => none

/-- The register that an instruction writes. -/
@[simp] def rd : Instr → Option (BitVec 5)
  | lui rd _ => some rd
  | auipc rd _ => some rd
  | jal rd _ => some rd
  | jalr rd _ _ => some rd
  | load _ rd _ _ => some rd
  | aluImm _ rd _ _ => some rd
  | shift _ rd _ _ => some rd
  | alu _ rd _ _ => some rd
  | csr _ rd _ _ => some rd
  | csrImm _ rd _ _ => some rd
  | lr _ rd _ => some rd
  | sc _ rd _ _ => some rd
  | amo _ _ rd _ _ => some rd
  | _ => none

/-- The immediate of an instruction other than a shift. -/
@[simp] def imm : Instr → Option (BitVec 32)
  | lui _ imm => some (imm ++ 0#12)
  | auipc _ imm => some (imm ++ 0#12)
  | jal _ offset => some ((offset ++ 0#1).signExtend 32)
  | jalr _ _ imm => some (imm.signExtend 32)
  | branch _ _ _ offset => some ((offset ++ 0#1).signExtend 32)
  | load _ _ _ imm => some (imm.signExtend 32)
  | store _ _ _ imm => some (imm.signExtend 32)
  | aluImm _ _ _ imm => some (imm.signExtend 32)
  | _ => none

/-- The amount of a shift by a constant. -/
@[simp] def shamt : Instr → Option (BitVec 5)
  | shift _ _ _ shamt => some shamt
  | _ => none

/-- The CSR that an instruction accesses. -/
@[simp] def csrAddr : Instr → Option (BitVec 12)
  | csr _ _ _ addr => some addr
  | csrImm _ _ _ addr => some addr
  | _ => none

/-- The bytes that an instruction moves. -/
@[simp] def size : Instr → ℕ
  | load op _ _ _ => op.size
  | store op _ _ _ => op.size
  | lr _ _ _ => 4
  | sc _ _ _ _ => 4
  | amo _ _ _ _ _ => 4
  | _ => 0

end Instr

/-- The encoding of some instruction. -/
def Legal (w : BitVec 32) : Prop := ∃ i : Instr, i.encode = w

end Rv32
