import Turtle.DecodeFacts
import Turtle.Lib.Rv32

/-!
# Decoding undoes encoding

`Decode::decode` reads the fields of an instruction word and puts the bits of its
immediates back together. Applied to the encoding of an instruction it gives back the
instruction: its type, its registers, its immediate and how it accesses memory.
-/

namespace Turtle

open Rv32 (Fields toNat_append toNat_slice)

/-! ### Reading the fields of a word -/

/-- A bit field that is known as a number. -/
theorem getBits_eq {w : BitVec 32} {hi lo n : ℕ} {x : BitVec n} (h : hi - lo < 31)
    (hx : w.toNat / 2 ^ lo % 2 ^ (hi - lo + 1) = x.toNat) : getBits w hi lo = x.setWidth 32 := by
  have hlt : w.toNat / 2 ^ lo < 2 ^ 32 := (Nat.div_le_self _ _).trans_lt w.isLt
  have hmod : x.toNat < 2 ^ 32 := hx ▸ (Nat.mod_le _ _).trans_lt hlt
  apply BitVec.eq_of_toNat_eq
  rw [getBits_toNat w hi lo h, hx, BitVec.toNat_setWidth, Nat.mod_eq_of_lt hmod]

section

variable (F : Fields)

theorem getBits_opcode : getBits F.word 6 0 = F.opcode.setWidth 32 := by
  obtain ⟨-, -, -, -, -, hopcode⟩ := F.toNat_slices
  exact getBits_eq (by omega) (by omega)

theorem getBits_rd : getBits F.word 11 7 = F.rd.setWidth 32 := by
  obtain ⟨-, -, -, -, hrd, -⟩ := F.toNat_slices
  exact getBits_eq (by omega) hrd

theorem getBits_funct3 : getBits F.word 14 12 = F.funct3.setWidth 32 := by
  obtain ⟨-, -, -, hfunct3, -, -⟩ := F.toNat_slices
  exact getBits_eq (by omega) hfunct3

theorem getBits_rs1 : getBits F.word 19 15 = F.rs1.setWidth 32 := by
  obtain ⟨-, -, hrs1, -, -, -⟩ := F.toNat_slices
  exact getBits_eq (by omega) hrs1

theorem getBits_rs2 : getBits F.word 24 20 = F.rs2.setWidth 32 := by
  obtain ⟨-, hrs2, -, -, -, -⟩ := F.toNat_slices
  exact getBits_eq (by omega) hrs2

theorem getBits_funct7 : getBits F.word 31 25 = F.funct7.setWidth 32 := by
  obtain ⟨hfunct7, -, -, -, -, -⟩ := F.toNat_slices
  have hlt := F.funct7.isLt
  exact getBits_eq (by omega) (by omega)

theorem getBits_funct12 : getBits F.word 31 20 = (F.funct7 ++ F.rs2).setWidth 32 := by
  obtain ⟨hfunct7, hrs2, -, -, -, -⟩ := F.toNat_slices
  have hlt := F.funct7.isLt
  refine getBits_eq (by omega) ?_
  rw [toNat_append]
  omega

theorem regField_rd : regField F.word 11 7 = F.rd := by
  rw [regField, getBits_rd, BitVec.setWidth_setWidth_of_le _ (by omega), BitVec.setWidth_eq]

theorem regField_rs1 : regField F.word 19 15 = F.rs1 := by
  rw [regField, getBits_rs1, BitVec.setWidth_setWidth_of_le _ (by omega), BitVec.setWidth_eq]

theorem regField_rs2 : regField F.word 24 20 = F.rs2 := by
  rw [regField, getBits_rs2, BitVec.setWidth_setWidth_of_le _ (by omega), BitVec.setWidth_eq]

end

/-- Flipping a bit adds or subtracts its value. -/
theorem xor_one_shiftLeft (v : BitVec 32) (n : ℕ) :
    v ^^^ (1#32 <<< n) = if v.getLsbD n then v - 1#32 <<< n else v + 1#32 <<< n := by
  have hbit (j : ℕ) : (1#32 <<< n).getLsbD j = (decide (j = n) && decide (n < 32)) := by
    rw [← BitVec.twoPow_eq, BitVec.getLsbD_twoPow, Bool.and_comm]
    simp [eq_comm]
  split_ifs with h
  · have hn : n < 32 := BitVec.lt_of_getLsbD h
    have hdisjoint : (v ^^^ (1#32 <<< n)) &&& (1#32 <<< n) = 0#32 := by
      apply BitVec.eq_of_getLsbD_eq
      intro j hj
      by_cases hjn : j = n
      · subst hjn
        simp [h, hn]
      · simp [hbit, hjn]
    rw [eq_sub_iff_add_eq, BitVec.add_eq_or_of_and_eq_zero _ _ hdisjoint]
    apply BitVec.eq_of_getLsbD_eq
    intro j hj
    by_cases hjn : j = n
    · subst hjn
      simp [h, hn]
    · simp [hbit, hjn]
  · have hclear : v.getLsbD n = false := Bool.eq_false_of_not_eq_true h
    have hdisjoint : v &&& (1#32 <<< n) = 0#32 := by
      rw [Bits.and_one_shiftLeft, if_neg h]
    rw [BitVec.add_eq_or_of_and_eq_zero _ _ hdisjoint]
    apply BitVec.eq_of_getLsbD_eq
    intro j hj
    by_cases hjn : j = n
    · subst hjn
      simp [hbit, hclear]
    · simp [hbit, hjn]

/-- `sign_extend` on a value of its width. -/
theorem signExtend_setWidth {n : ℕ} (x : BitVec (n + 1)) (hn : n < 31) :
    signExtend (x.setWidth 32) (n + 1) = x.signExtend 32 := by
  have hsign : (x.setWidth 32).getLsbD n = x.msb := by
    rw [BitVec.getLsbD_setWidth, BitVec.msb_eq_getLsbD_last, Nat.add_sub_cancel]
    simp only [show n < 32 by omega, decide_true, Bool.true_and]
  unfold signExtend
  dsimp only
  rw [Nat.add_sub_cancel, xor_one_shiftLeft, hsign]
  cases hmsb : x.msb with
  | false =>
    rw [if_neg Bool.false_ne_true, add_sub_cancel_right,
      BitVec.signExtend_eq_setWidth_of_msb_false hmsb]
  | true =>
    have hpow : 2 ^ n < 2 ^ 31 := Nat.pow_lt_pow_right (by omega) hn
    have hsucc : 2 ^ (n + 1) = 2 * 2 ^ n := Nat.pow_succ'
    have hx := x.isLt
    have hv : (x.setWidth 32).toNat = x.toNat := by
      rw [BitVec.toNat_setWidth, Nat.mod_eq_of_lt (by omega)]
    have hm : (1#32 <<< n).toNat = 2 ^ n := by
      rw [BitVec.toNat_shiftLeft, Nat.shiftLeft_eq, BitVec.toNat_ofNat]
      omega
    have hge : 2 ^ n ≤ x.toNat := by
      rw [BitVec.msb_eq_decide, decide_eq_true_iff, Nat.add_sub_cancel] at hmsb
      exact hmsb
    apply BitVec.eq_of_toNat_eq
    rw [if_pos rfl, BitVec.toNat_signExtend, hmsb, if_pos rfl, BitVec.toNat_sub, BitVec.toNat_sub,
      hm, hv]
    omega

/-! ### Immediates -/

/-- A bit field whose value is known. -/
theorem getBits_piece (w : BitVec 32) (hi lo n : ℕ) (h : hi - lo < 31)
    (hx : w.toNat / 2 ^ lo % 2 ^ (hi - lo + 1) = n) : (getBits w hi lo).toNat = n :=
  (getBits_toNat w hi lo h).trans hx

/-- An immediate with a sign. -/
theorem signExtend_of_toNat {n : ℕ} {v : BitVec 32} {x : BitVec (n + 1)} (h : v.toNat = x.toNat)
    (hn : n < 31) : signExtend v (n + 1) = x.signExtend 32 := by
  have hx : v = x.setWidth 32 := by
    apply BitVec.eq_of_toNat_eq
    rw [BitVec.toNat_setWidth, ← h, Nat.mod_eq_of_lt v.isLt]
  rw [hx, signExtend_setWidth x hn]

theorem immI_word (F : Fields) : immI F.word = (F.funct7 ++ F.rs2).signExtend 32 := by
  rw [immI, getBits_funct12]
  exact signExtend_setWidth (n := 11) _ (by omega)

theorem immS_word (F : Fields) : immS F.word = (F.funct7 ++ F.rd).signExtend 32 := by
  obtain ⟨hfunct7, -, -, -, hrd, -⟩ := F.toNat_slices
  have hlt := F.funct7.isLt
  have hlt' := F.rd.isLt
  have h5 := getBits_piece F.word 31 25 F.funct7.toNat (by omega) (by omega)
  have h0 := getBits_piece F.word 11 7 F.rd.toNat (by omega) (by omega)
  have hsum := Bits.or_shiftLeft_toNat (k := 5) h0 h5 hlt (by omega) (by omega)
  rw [immS, BitVec.or_comm]
  refine signExtend_of_toNat (n := 11) (hsum.trans ?_) (by omega)
  rw [toNat_append]
  omega

theorem immB_word (offset : BitVec 12) (rs2 rs1 : BitVec 5) (funct3 : BitVec 3)
    (opcode : BitVec 7) : immB (Fields.branch offset rs2 rs1 funct3 opcode).word =
      (offset ++ 0#1).signExtend 32 := by
  obtain ⟨hfunct7, -, -, -, hrd, -⟩ := (Fields.branch offset rs2 rs1 funct3 opcode).toNat_slices
  unfold immB
  generalize (Fields.branch offset rs2 rs1 funct3 opcode).word = w at hfunct7 hrd ⊢
  nth_rewrite 1 [← Rv32.branch_pieces offset]
  simp only [Fields.branch] at hfunct7 hrd
  generalize offset.extractLsb' 11 1 = a at hfunct7 hrd ⊢
  generalize offset.extractLsb' 10 1 = b at hfunct7 hrd ⊢
  generalize offset.extractLsb' 4 6 = c at hfunct7 hrd ⊢
  generalize offset.extractLsb' 0 4 = d at hfunct7 hrd ⊢
  rw [toNat_append] at hfunct7 hrd
  have ha := a.isLt
  have hb := b.isLt
  have hc := c.isLt
  have hd := d.isLt
  have h12 := getBits_piece w 31 31 a.toNat (by omega) (by omega)
  have h11 := getBits_piece w 7 7 b.toNat (by omega) (by omega)
  have h5 := getBits_piece w 30 25 c.toNat (by omega) (by omega)
  have h1 := getBits_piece w 11 8 d.toNat (by omega) (by omega)
  have hsum := Bits.shiftLeft_toNat (k := 12) h12 ha (by omega)
  have hsum := Bits.or_shiftLeft_toNat (k := 11) hsum h11 hb (by omega) (by omega)
  have hsum := Bits.or_shiftLeft_toNat (k := 5) hsum h5 hc (by omega) (by omega)
  have hsum := Bits.or_shiftLeft_toNat (k := 1) hsum h1 hd (by omega) (by omega)
  refine signExtend_of_toNat (n := 12) (hsum.trans ?_) (by omega)
  simp only [toNat_append, BitVec.toNat_zero]
  omega

theorem immJ_word (offset : BitVec 20) (rd : BitVec 5) (opcode : BitVec 7) :
    immJ (Fields.jump offset rd opcode).word = (offset ++ 0#1).signExtend 32 := by
  have hupper := Fields.toNat_upper (offset.extractLsb' 19 1 ++ offset.extractLsb' 0 10 ++
    offset.extractLsb' 10 1 ++ offset.extractLsb' 11 8) rd opcode
  unfold immJ Fields.jump
  generalize (Fields.upper _ rd opcode).word = w at hupper ⊢
  nth_rewrite 1 [← Rv32.jump_pieces offset]
  generalize offset.extractLsb' 19 1 = a at hupper ⊢
  generalize offset.extractLsb' 11 8 = b at hupper ⊢
  generalize offset.extractLsb' 10 1 = c at hupper ⊢
  generalize offset.extractLsb' 0 10 = d at hupper ⊢
  simp only [toNat_append] at hupper
  have ha := a.isLt
  have hb := b.isLt
  have hc := c.isLt
  have hd := d.isLt
  have h20 := getBits_piece w 31 31 a.toNat (by omega) (by omega)
  have h12 := getBits_piece w 19 12 b.toNat (by omega) (by omega)
  have h11 := getBits_piece w 20 20 c.toNat (by omega) (by omega)
  have h1 := getBits_piece w 30 21 d.toNat (by omega) (by omega)
  have hsum := Bits.shiftLeft_toNat (k := 20) h20 ha (by omega)
  have hsum := Bits.or_shiftLeft_toNat (k := 12) hsum h12 hb (by omega) (by omega)
  have hsum := Bits.or_shiftLeft_toNat (k := 11) hsum h11 hc (by omega) (by omega)
  have hsum := Bits.or_shiftLeft_toNat (k := 1) hsum h1 hd (by omega) (by omega)
  refine signExtend_of_toNat (n := 20) (hsum.trans ?_) (by omega)
  simp only [toNat_append, BitVec.toNat_zero]
  omega

/-- The mask of `LUI` and `AUIPC`. -/
theorem immU_word (imm : BitVec 20) (rd : BitVec 5) (opcode : BitVec 7) :
    (Fields.upper imm rd opcode).word &&& 0xFFFFF000 = imm ++ 0#12 := by
  apply BitVec.eq_of_toNat_eq
  rw [Bits.and_high_toNat _ 0xFFFFF000 (n := 12) (by decide), Fields.toNat_upper, toNat_append,
    BitVec.toNat_zero, Nat.add_zero]

/-! ### What each instruction decodes to -/

def aluType : Rv32.Alu → InstrType
  | .add => .add
  | .sub => .sub
  | .sll => .sll
  | .slt => .slt
  | .sltu => .sltu
  | .xor => .xor
  | .srl => .srl
  | .sra => .sra
  | .or => .or
  | .and => .and
  | .mul => .mul
  | .mulh => .mulh
  | .mulhsu => .mulhsu
  | .mulhu => .mulhu
  | .div => .div
  | .divu => .divu
  | .rem => .rem
  | .remu => .remu

/-- The operation is one of the M extension. -/
def isMuldiv (op : Rv32.Alu) : Bool := op.funct.1 = 1

def aluImmType : Rv32.AluImm → InstrType
  | .addi => .addi
  | .slti => .slti
  | .sltiu => .sltiu
  | .xori => .xori
  | .ori => .ori
  | .andi => .andi

def shiftType : Rv32.Shift → InstrType
  | .slli => .slli
  | .srli => .srli
  | .srai => .srai

def loadType : Rv32.Load → InstrType
  | .lb => .lb
  | .lh => .lh
  | .lw => .lw
  | .lbu => .lbu
  | .lhu => .lhu

def storeType : Rv32.Store → InstrType
  | .sb => .sb
  | .sh => .sh
  | .sw => .sw

def branchType : Rv32.Branch → InstrType
  | .beq => .beq
  | .bne => .bne
  | .blt => .blt
  | .bge => .bge
  | .bltu => .bltu
  | .bgeu => .bgeu

def csrType : Rv32.Csr → InstrType
  | .rw => .csrrw
  | .rs => .csrrs
  | .rc => .csrrc

def csrImmType : Rv32.Csr → InstrType
  | .rw => .csrrwi
  | .rs => .csrrsi
  | .rc => .csrrci

def systemType : Rv32.System → InstrType
  | .ecall => .ecall
  | .ebreak => .ebreak
  | .wfi => .wfi
  | .sret => .sret
  | .mret => .mret

def amoInstrType : Rv32.Amo → InstrType
  | .swap => .amoswapW
  | .add => .amoaddW
  | .xor => .amoxorW
  | .and => .amoandW
  | .or => .amoorW
  | .min => .amominW
  | .max => .amomaxW
  | .minu => .amominuW
  | .maxu => .amomaxuW

/-- The `InstrType` of an instruction. -/
@[simp] def instrType : Rv32.Instr → InstrType
  | .lui _ _ => .lui
  | .auipc _ _ => .auipc
  | .jal _ _ => .jal
  | .jalr _ _ _ => .jalr
  | .branch op _ _ _ => branchType op
  | .load op _ _ _ => loadType op
  | .store op _ _ _ => storeType op
  | .aluImm op _ _ _ => aluImmType op
  | .shift op _ _ _ => shiftType op
  | .alu op _ _ _ => aluType op
  | .fence _ _ _ => .fence
  | .fenceI _ _ _ => .fenceI
  | .csr op _ _ _ => csrType op
  | .csrImm op _ _ _ => csrImmType op
  | .system op => systemType op
  | .sfenceVma _ _ => .sfenceVma
  | .lr _ _ _ => .lrW
  | .sc _ _ _ _ => .scW
  | .amo op _ _ _ _ => amoInstrType op

/-- `amo_type` of a read-modify-write operation. -/
def amoType : Rv32.Amo → BitVec 8
  | .swap => 2
  | .add => 3
  | .xor => 4
  | .and => 5
  | .or => 6
  | .min => 7
  | .max => 8
  | .minu => 9
  | .maxu => 10

/-- `amo_type` of an instruction; `LR` has the number of the instructions that are not
atomic. -/
@[simp] def amoTypeOf : Rv32.Instr → BitVec 8
  | .sc _ _ _ _ => 1
  | .amo op _ _ _ _ => amoType op
  | _ => 0

/-- `is_load`, `is_store` and `is_atomic`. -/
@[simp] def accessKinds : Rv32.Instr → Bool × Bool × Bool
  | .load _ _ _ _ => (true, false, false)
  | .store _ _ _ _ => (false, true, false)
  | .lr _ _ _ => (false, false, true)
  | .sc _ _ _ _ => (false, false, true)
  | .amo _ _ _ _ _ => (false, false, true)
  | _ => (false, false, false)

/-- The value that a CSR instruction works with: a register or an immediate. -/
@[simp] def csrSource (f : Forward) : Rv32.Instr → Option (BitVec 32)
  | .csr _ _ rs1 _ => some (f.operand rs1)
  | .csrImm _ _ uimm _ => some (uimm.setWidth 32)
  | _ => none

/-- The record is that of the instruction, with the operands that `f` gives. -/
structure Decodes (f : Forward) (pc : BitVec 32) (i : Rv32.Instr) (d : IdEx) : Prop where
  type : d.type = instrType i
  rs1 : ∀ r ∈ i.rs1, d.rs1 = r ∧ d.rs1Val = f.operand r
  rs2 : ∀ r ∈ i.rs2, d.rs2 = r ∧ d.rs2Val = f.operand r
  rd : ∀ r ∈ i.rd, d.rd = r
  writesRd : d.writesRd = i.rd.any (· != 0)
  imm : ∀ v ∈ i.imm, d.imm = v
  shamt : ∀ v ∈ i.shamt, d.imm.setWidth 5 = v
  csrAddr : ∀ a ∈ i.csrAddr, d.csrAddr = a
  csrVal : ∀ v ∈ csrSource f i, d.csrVal = v
  memSize : d.memSize.toNat = i.size
  kinds : d.kinds = accessKinds i
  amoType : d.amoType = amoTypeOf i
  pc : d.pc = pc
  isCompressed : d.isCompressed = false
  onTrap : d.onTrap = false
  flush : d.flush = false

/-- The record on which the arms of `decode` work. -/
@[simp] def decodeStart (f : Forward) (pc : BitVec 32) (F : Fields) : IdEx where
  inst := F.word
  rd := F.rd
  rs1 := F.rs1
  rs2 := F.rs2
  rs1Val := f.operand F.rs1
  rs2Val := f.operand F.rs2
  pc := pc

section

variable {f : Forward} {pc : BitVec 32} {F : Fields} {d : IdEx}

theorem decodeOp_word (op : Rv32.Alu) (h : (F.funct7, F.funct3) = op.funct) :
    decodeOp d F.word =
      { d with writesRd := d.rd != 0, type := aluType op, isMuldiv := d.isMuldiv || isMuldiv op } := by
  have hfunct7 : F.funct7 = op.funct.1 := congrArg Prod.fst h
  have hfunct3 : F.funct3 = op.funct.2 := congrArg Prod.snd h
  unfold decodeOp
  rw [getBits_funct7, getBits_funct3, hfunct7, hfunct3]
  cases op <;> simp [Rv32.Alu.funct, isMuldiv, aluType]

theorem decodeOpImm_word (op : Rv32.AluImm) (h : F.funct3 = op.funct3) :
    decodeOpImm d F.word =
      { d with writesRd := d.rd != 0, imm := (F.funct7 ++ F.rs2).signExtend 32,
               type := aluImmType op } := by
  unfold decodeOpImm
  rw [getBits_funct3, h, immI_word]
  cases op <;> rfl

/-- The immediate of a shift holds `funct7` above the amount. -/
theorem shiftImm_toNat (funct7 : BitVec 7) (shamt : BitVec 5) (h : funct7.toNat < 2 ^ 6) :
    ((funct7 ++ shamt).signExtend 32).toNat = funct7.toNat * 2 ^ 5 + shamt.toNat := by
  have hshamt := shamt.isLt
  have hmsb : (funct7 ++ shamt).msb = false := by
    rw [BitVec.msb_eq_decide, decide_eq_false_iff_not, toNat_append]
    omega
  rw [BitVec.signExtend_eq_setWidth_of_msb_false hmsb, BitVec.toNat_setWidth, toNat_append]
  omega

theorem decodeOpImm_shift (op : Rv32.Shift) (h : (F.funct7, F.funct3) = op.funct) :
    decodeOpImm d F.word =
      { d with writesRd := d.rd != 0, imm := (F.funct7 ++ F.rs2).signExtend 32,
               type := shiftType op } := by
  have hfunct7 : F.funct7 = op.funct.1 := congrArg Prod.fst h
  have hfunct3 : F.funct3 = op.funct.2 := congrArg Prod.snd h
  unfold decodeOpImm
  rw [getBits_funct7, getBits_funct3, hfunct3, immI_word]
  cases op with
  | slli =>
    have himm : ¬ 31#32 < (F.funct7 ++ F.rs2).signExtend 32 := by
      have hlt := F.rs2.isLt
      rw [hfunct7, BitVec.lt_def, shiftImm_toNat _ _ (by decide)]
      change ¬ 31 < 0 * 2 ^ 5 + F.rs2.toNat
      omega
    simp [Rv32.Shift.funct, shiftType, himm]
  | srli => simp [Rv32.Shift.funct, shiftType, hfunct7]
  | srai => simp [Rv32.Shift.funct, shiftType, hfunct7]

theorem decodeLoad_word (op : Rv32.Load) (h : F.funct3 = op.funct3) :
    decodeLoad d F.word =
      { d with isLoad := true, writesRd := d.rd != 0, imm := (F.funct7 ++ F.rs2).signExtend 32,
               type := loadType op, memSize := BitVec.ofNat 8 op.size } := by
  unfold decodeLoad
  rw [getBits_funct3, h, immI_word]
  cases op <;> rfl

theorem decodeStore_word (op : Rv32.Store) (h : F.funct3 = op.funct3) :
    decodeStore d F.word =
      { d with isStore := true, imm := (F.funct7 ++ F.rd).signExtend 32,
               type := storeType op, memSize := BitVec.ofNat 8 op.size } := by
  unfold decodeStore
  rw [getBits_funct3, h, immS_word]
  cases op <;> rfl

theorem decodeBranch_word (op : Rv32.Branch) (h : F.funct3 = op.funct3) :
    decodeBranch d F.word =
      { d with writesRd := false, isBranch := true, imm := immB F.word, type := branchType op } := by
  unfold decodeBranch
  rw [getBits_funct3, h]
  cases op <;> rfl

/-- The address of a CSR instruction. -/
theorem csrAddr_word : (getBits F.word 31 20).setWidth 12 = F.funct7 ++ F.rs2 := by
  rw [getBits_funct12, BitVec.setWidth_setWidth_of_le _ (by omega), BitVec.setWidth_eq]

theorem decodeSystem_csr (op : Rv32.Csr) (h : F.funct3 = 0#1 ++ op.funct2) :
    decodeSystem d F.word =
      { d with isSystem := true, csrAddr := F.funct7 ++ F.rs2, type := csrType op, isCsr := true,
               writesRd := d.rd != 0, csrVal := d.rs1Val } := by
  unfold decodeSystem
  rw [getBits_funct3, h, csrAddr_word]
  cases op <;> rfl

theorem decodeSystem_csrImm (op : Rv32.Csr) (h : F.funct3 = 1#1 ++ op.funct2) :
    decodeSystem d F.word =
      { d with isSystem := true, csrAddr := F.funct7 ++ F.rs2, type := csrImmType op, isCsr := true,
               writesRd := d.rd != 0, csrVal := d.rs1.setWidth 32 } := by
  unfold decodeSystem
  rw [getBits_funct3, h, csrAddr_word]
  cases op <;> rfl

theorem decodeSystem_priv (h : F.funct3 = 0b000) :
    decodeSystem d F.word =
      { d with isSystem := true, csrAddr := F.funct7 ++ F.rs2, type := decodePrivType F.word } := by
  unfold decodeSystem
  rw [getBits_funct3, h, csrAddr_word]
  rfl

theorem decodePrivType_system (op : Rv32.System)
    (h : (F.funct7, F.rs2) = (op.funct12.extractLsb' 5 7, op.funct12.extractLsb' 0 5)) :
    decodePrivType F.word = systemType op := by
  have hfunct7 : F.funct7 = _ := congrArg Prod.fst h
  have hrs2 : F.rs2 = _ := congrArg Prod.snd h
  unfold decodePrivType
  rw [getBits_funct7, getBits_funct12, hfunct7, hrs2]
  cases op <;> rfl

theorem decodePrivType_sfenceVma (h : F.funct7 = 0b0001001) :
    decodePrivType F.word = .sfenceVma := by
  unfold decodePrivType
  rw [getBits_funct7, h]
  rfl

theorem decodeFence_fence (h : F.funct3 = 0b000) :
    decodeFence d F.word = { d with isSystem := true, type := .fence } := by
  unfold decodeFence
  rw [getBits_funct3, h]
  rfl

theorem decodeFence_fenceI (h : F.funct3 = 0b001) :
    decodeFence d F.word = { d with isSystem := true, type := .fenceI } := by
  unfold decodeFence
  rw [getBits_funct3, h]
  rfl

/-- The upper five bits of `funct7`. -/
theorem getBits_funct5 : getBits F.word 31 25 >>> 2 = (F.funct7.extractLsb' 2 5).setWidth 32 := by
  have hlt := F.funct7.isLt
  apply BitVec.eq_of_toNat_eq
  rw [getBits_funct7, BitVec.toNat_ushiftRight, BitVec.toNat_setWidth, BitVec.toNat_setWidth,
    toNat_slice, Nat.shiftRight_eq_div_pow]
  omega

theorem decodeAtomic_lr (h : F.funct3 = 0b010) (h5 : F.funct7.extractLsb' 2 5 = 0b00010) :
    decodeAtomic d F.word =
      { d with isAtomic := true, writesRd := d.rd != 0, memSize := 4, type := .lrW,
               amoType := 0 } := by
  unfold decodeAtomic
  rw [getBits_funct3, h, getBits_funct5, h5]
  rfl

theorem decodeAtomic_sc (h : F.funct3 = 0b010) (h5 : F.funct7.extractLsb' 2 5 = 0b00011) :
    decodeAtomic d F.word =
      { d with isAtomic := true, writesRd := d.rd != 0, memSize := 4, type := .scW,
               amoType := 1 } := by
  unfold decodeAtomic
  rw [getBits_funct3, h, getBits_funct5, h5]
  rfl

theorem decodeAtomic_amo (op : Rv32.Amo) (h : F.funct3 = 0b010)
    (h5 : F.funct7.extractLsb' 2 5 = op.funct5) :
    decodeAtomic d F.word =
      { d with isAtomic := true, writesRd := d.rd != 0, memSize := 4, type := amoInstrType op,
               amoType := amoType op } := by
  unfold decodeAtomic
  rw [getBits_funct3, h, getBits_funct5, h5]
  cases op <;> rfl

/-! ### The outer switch -/

theorem decode_lui (h : F.opcode = 0b0110111) : decode f pc F.word = { decodeStart f pc F with
      type := .lui, imm := F.word &&& 0xFFFFF000, writesRd := F.rd != 0 } := by
  unfold decode
  rw [getBits_opcode, regField_rd, regField_rs1, regField_rs2, h]
  rfl

theorem decode_auipc (h : F.opcode = 0b0010111) : decode f pc F.word = { decodeStart f pc F with
      type := .auipc, imm := F.word &&& 0xFFFFF000, writesRd := F.rd != 0 } := by
  unfold decode
  rw [getBits_opcode, regField_rd, regField_rs1, regField_rs2, h]
  rfl

theorem decode_jal (h : F.opcode = 0b1101111) : decode f pc F.word = { decodeStart f pc F with
      type := .jal, isJump := true, writesRd := F.rd != 0, imm := immJ F.word } := by
  unfold decode
  rw [getBits_opcode, regField_rd, regField_rs1, regField_rs2, h]
  rfl

theorem decode_jalr (h : F.opcode = 0b1100111) : decode f pc F.word = { decodeStart f pc F with
      type := .jalr, isJump := true, writesRd := F.rd != 0,
      imm := (F.funct7 ++ F.rs2).signExtend 32 } := by
  unfold decode
  rw [getBits_opcode, regField_rd, regField_rs1, regField_rs2, h, immI_word]
  rfl

theorem decode_opImm (h : F.opcode = 0b0010011) :
    decode f pc F.word = decodeOpImm (decodeStart f pc F) F.word := by
  unfold decode
  rw [getBits_opcode, regField_rd, regField_rs1, regField_rs2, h]
  rfl

theorem decode_op (h : F.opcode = 0b0110011) :
    decode f pc F.word = decodeOp (decodeStart f pc F) F.word := by
  unfold decode
  rw [getBits_opcode, regField_rd, regField_rs1, regField_rs2, h]
  rfl

theorem decode_load (h : F.opcode = 0b0000011) :
    decode f pc F.word = decodeLoad (decodeStart f pc F) F.word := by
  unfold decode
  rw [getBits_opcode, regField_rd, regField_rs1, regField_rs2, h]
  rfl

theorem decode_store (h : F.opcode = 0b0100011) :
    decode f pc F.word = decodeStore (decodeStart f pc F) F.word := by
  unfold decode
  rw [getBits_opcode, regField_rd, regField_rs1, regField_rs2, h]
  rfl

theorem decode_branch (h : F.opcode = 0b1100011) :
    decode f pc F.word = decodeBranch (decodeStart f pc F) F.word := by
  unfold decode
  rw [getBits_opcode, regField_rd, regField_rs1, regField_rs2, h]
  rfl

theorem decode_system (h : F.opcode = 0b1110011) :
    decode f pc F.word = decodeSystem (decodeStart f pc F) F.word := by
  unfold decode
  rw [getBits_opcode, regField_rd, regField_rs1, regField_rs2, h]
  rfl

theorem decode_fence (h : F.opcode = 0b0001111) :
    decode f pc F.word = decodeFence (decodeStart f pc F) F.word := by
  unfold decode
  rw [getBits_opcode, regField_rd, regField_rs1, regField_rs2, h]
  rfl

theorem decode_atomic (h : F.opcode = 0b0101111) :
    decode f pc F.word = decodeAtomic (decodeStart f pc F) F.word := by
  unfold decode
  rw [getBits_opcode, regField_rd, regField_rs1, regField_rs2, h]
  rfl

/-- The lower bits of a sign-extended immediate. -/
theorem setWidth_shiftImm (funct7 : BitVec 7) (shamt : BitVec 5) :
    ((funct7 ++ shamt).signExtend 32).setWidth 5 = shamt := by
  apply BitVec.eq_of_getLsbD_eq
  intro j hj
  rw [BitVec.getLsbD_setWidth, BitVec.getLsbD_signExtend, BitVec.getLsbD_append,
    if_pos (show j < 12 by omega), if_pos hj]
  simp [hj, show j < 32 by omega]

/-- The upper bits of `funct7`, above `aq` and `rl`. -/
theorem funct5_append (funct5 : BitVec 5) (aqrl : BitVec 2) :
    (funct5 ++ aqrl).extractLsb' 2 5 = funct5 :=
  BitVec.extractLsb'_append_eq_left

/-- The immediate of the I format, put together again. -/
theorem imm_pieces (imm : BitVec 12) : imm.extractLsb' 5 7 ++ imm.extractLsb' 0 5 = imm :=
  @BitVec.extractLsb'_append_extractLsb' 7 5 imm

/-- The word of an instruction is decoded to its record. -/
theorem decodes_of_encode (f : Forward) (pc : BitVec 32) {i : Rv32.Instr} {w : BitVec 32}
    (h : i.encode = w) : Decodes f pc i (decode f pc w) := by
  subst h
  unfold Rv32.Instr.encode
  cases i with
  | lui rd imm =>
    rw [decode_lui rfl, Rv32.Instr.fields, immU_word]
    constructor <;> simp [IdEx.kinds, Fields.upper]
  | auipc rd imm =>
    rw [decode_auipc rfl, Rv32.Instr.fields, immU_word]
    constructor <;> simp [IdEx.kinds, Fields.upper]
  | jal rd offset =>
    rw [decode_jal rfl, Rv32.Instr.fields, immJ_word]
    constructor <;> simp [IdEx.kinds, Fields.jump, Fields.upper]
  | jalr rd rs1 imm =>
    rw [decode_jalr rfl]
    constructor <;> simp [IdEx.kinds, Fields.immediate, imm_pieces]
  | branch op rs1 rs2 offset =>
    rw [decode_branch rfl, decodeBranch_word op rfl, Rv32.Instr.fields, immB_word]
    constructor <;> simp [IdEx.kinds, Fields.branch]
  | load op rd rs1 imm =>
    rw [decode_load rfl, decodeLoad_word op rfl]
    constructor <;> simp [IdEx.kinds, Fields.immediate, imm_pieces]
    cases op <;> decide
  | store op rs1 rs2 imm =>
    rw [decode_store rfl, decodeStore_word op rfl]
    constructor <;> simp [IdEx.kinds, Fields.store, imm_pieces]
    cases op <;> decide
  | aluImm op rd rs1 imm =>
    rw [decode_opImm rfl, decodeOpImm_word op rfl]
    constructor <;> simp [IdEx.kinds, Fields.immediate, imm_pieces]
  | shift op rd rs1 shamt =>
    rw [decode_opImm rfl, decodeOpImm_shift op rfl]
    constructor <;> simp [IdEx.kinds, setWidth_shiftImm]
  | alu op rd rs1 rs2 =>
    rw [decode_op rfl, decodeOp_word op rfl]
    constructor <;> simp [IdEx.kinds]
  | fence imm rd rs1 =>
    rw [decode_fence rfl, decodeFence_fence rfl]
    constructor <;> simp [IdEx.kinds]
  | fenceI imm rd rs1 =>
    rw [decode_fence rfl, decodeFence_fenceI rfl]
    constructor <;> simp [IdEx.kinds]
  | csr op rd rs1 addr =>
    rw [decode_system rfl, decodeSystem_csr op rfl]
    constructor <;> simp [IdEx.kinds, Fields.immediate, imm_pieces]
  | csrImm op rd uimm addr =>
    rw [decode_system rfl, decodeSystem_csrImm op rfl]
    constructor <;> simp [IdEx.kinds, Fields.immediate, imm_pieces]
  | system op =>
    rw [decode_system rfl, decodeSystem_priv rfl, decodePrivType_system op rfl]
    constructor <;> simp [IdEx.kinds, Fields.immediate]
  | sfenceVma rs1 rs2 =>
    rw [decode_system rfl, decodeSystem_priv rfl, decodePrivType_sfenceVma rfl]
    constructor <;> simp [IdEx.kinds]
  | lr aqrl rd rs1 =>
    rw [decode_atomic rfl, decodeAtomic_lr rfl (funct5_append _ _)]
    constructor <;> simp [IdEx.kinds]
  | sc aqrl rd rs1 rs2 =>
    rw [decode_atomic rfl, decodeAtomic_sc rfl (funct5_append _ _)]
    constructor <;> simp [IdEx.kinds]
  | amo op aqrl rd rs1 rs2 =>
    rw [decode_atomic rfl, decodeAtomic_amo op rfl (funct5_append _ _)]
    constructor <;> simp [IdEx.kinds]

/-- Decoding undoes encoding. -/
theorem decode_encode (f : Forward) (pc : BitVec 32) (i : Rv32.Instr) :
    Decodes f pc i (decode f pc i.encode) := decodes_of_encode f pc rfl

end

end Turtle
