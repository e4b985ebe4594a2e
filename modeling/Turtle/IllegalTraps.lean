import Turtle.Decompressing
import Turtle.Exec.SeqFacts

/-!
# Illegal encodings

A word that encodes no instruction should be latched as an illegal-instruction trap, so
that EXEC does nothing on its behalf but enter the trap. The decoders keep to this except
for the encodings named below: a table that starts from the type `NOP` takes what it does
not list for an instruction without an effect of its own, and some fields are not looked
at.
-/

namespace Turtle

open Rv32 (Fields CFields CInstr Instr Legal CLegal)

/-- The latched record is an illegal-instruction trap. -/
def Refused (d : IdEx) : Prop :=
  d.onTrap = true ∧ d.cause = ExceptionCause.illegalInstr.code

/-- The instruction in EX writes no register, no memory and no CSR, flushes no TLB and
does not jump; outside reset the pc moves to the handler of the trap. -/
structure Inert (e : Exec) (x : ExecIn) : Prop where
  register : (writebackSeq x.rst x.entry x.idEx (e.execOut x (e.execComb x))).wbWriteRd = false
  memory : (e.execOut x (e.execComb x)).exToDmmu.dmemReqAck = false
  csr : (e.execComb x).csrAccess = false
  tlb : (e.execComb x).tlbFlush = none
  jump : (e.execOut x (e.execComb x)).branchTaken = false
  pc : (writebackSeq x.rst x.entry x.idEx (e.execOut x (e.execComb x))).exPc =
    if x.rst then x.entry else e.trapPc (e.execComb x).cause

/-- A record that is marked as a trap: reset, or the trap of the mark or of an interrupt. -/
theorem execComb_of_onTrap {x : ExecIn} (e : Exec) (htrap : x.idEx.onTrap = true)
    (hflush : x.idEx.flush = false) :
    (x.rst = true ∧ e.execComb x = { epc := x.exPc, npc := x.entry }) ∨
      (x.rst = false ∧ ∃ cause tval npc, e.execComb x =
        { epc := x.exPc, npc := npc, cause := cause, tval := tval, onTrap := true }) := by
  unfold Exec.execComb
  dsimp only
  cases hrst : x.rst with
  | true =>
    rw [if_pos rfl]
    exact .inl ⟨rfl, rfl⟩
  | false =>
    refine .inr ⟨rfl, ?_⟩
    rw [if_neg Bool.false_ne_true, hflush, if_neg Bool.false_ne_true, htrap, if_pos rfl]
    split
    · exact ⟨_, _, _, rfl⟩
    · exact ⟨_, _, _, rfl⟩

/-- EXEC does nothing on behalf of a refused record. -/
theorem Refused.inert {x : ExecIn} (e : Exec) (h : Refused x.idEx) (hflush : x.idEx.flush = false) :
    Inert e x := by
  rcases execComb_of_onTrap e h.1 hflush with ⟨hrst, hc⟩ | ⟨hrst, cause, tval, npc, hc⟩
  · constructor
    case register => rw [hrst, writebackSeq, if_pos rfl]
    case pc => rw [hrst, writebackSeq, if_pos rfl, if_pos rfl]
    all_goals simp only [hc, Exec.execOut, Exec.mmuReq]
  · constructor
    case register =>
      rw [hrst, writebackSeq, if_neg Bool.false_ne_true, hc]
      rfl
    case pc =>
      rw [hrst, writebackSeq, if_neg Bool.false_ne_true, if_neg Bool.false_ne_true, hc]
      rfl
    all_goals simp only [hc, Exec.execOut, Exec.mmuReq]

/-- The words ending in `11` that are illegal and are decoded as something else. -/
inductive Overlooked (F : Fields) : Prop
  | opImm (opcode : F.opcode = 0b0010011) (funct3 : F.funct3 = 0b101) (h : F.funct7 ≠ 0)
      (h' : F.funct7 ≠ 0b0100000)
  | op (opcode : F.opcode = 0b0110011) (h : ∀ op : Rv32.Alu, (F.funct7, F.funct3) ≠ op.funct)
  | load (opcode : F.opcode = 0b0000011) (h : ∀ op : Rv32.Load, F.funct3 ≠ op.funct3)
  | store (opcode : F.opcode = 0b0100011) (h : ∀ op : Rv32.Store, F.funct3 ≠ op.funct3)
  | branch (opcode : F.opcode = 0b1100011) (h : ∀ op : Rv32.Branch, F.funct3 ≠ op.funct3)
  | jalr (opcode : F.opcode = 0b1100111) (h : F.funct3 ≠ 0b000)
  | sfenceVma (opcode : F.opcode = 0b1110011) (funct3 : F.funct3 = 0b000)
      (funct7 : F.funct7 = 0b0001001) (h : F.rd ≠ 0)
  | system (op : Rv32.System) (opcode : F.opcode = 0b1110011) (funct3 : F.funct3 = 0b000)
      (funct12 : F.funct7 ++ F.rs2 = op.funct12) (h : F.rd ≠ 0 ∨ F.rs1 ≠ 0)
  | lr (opcode : F.opcode = 0b0101111) (funct3 : F.funct3 = 0b010)
      (funct5 : F.funct7.extractLsb' 2 5 = 0b00010) (h : F.rs2 ≠ 0)

/-- The illegal halfwords that are decompressed as something else: `C.LUI` without an
immediate and `C.SLLI` with a shift amount from 32 on. -/
inductive COverlooked (C : CFields) : Prop
  | lui (op : C.op = 0b01) (funct3 : C.funct3 = 0b011) (h : C.mid ≠ 2) (bit12 : C.bit12 = 0)
      (low : C.low = 0)
  | slli (op : C.op = 0b10) (funct3 : C.funct3 = 0b000) (bit12 : C.bit12 ≠ 0) (h : C.mid ≠ 0)

/-- What the decoder makes of a word: it is legal, or it is refused, or it is overlooked. -/
def Verdict (legal invalid overlooked : Prop) : Prop :=
  legal ∨ (invalid ∧ ¬ overlooked) ∨ (¬ invalid ∧ overlooked)

/-! ### Words of 32 bits -/

section

variable {f : Forward} {pc : BitVec 32} {F : Fields} {d : IdEx}

theorem legal_of_fields {i : Instr} (h : i.fields = F) : Legal F.word :=
  ⟨i, congrArg Fields.word h⟩

theorem funct3_cases (x : BitVec 3) : x = 0b000 ∨ x = 0b001 ∨ x = 0b010 ∨ x = 0b011 ∨ x = 0b100 ∨
    x = 0b101 ∨ x = 0b110 ∨ x = 0b111 := by
  revert x
  decide

theorem funct2_cases (x : BitVec 2) : x = 0b00#2 ∨ x = 0b01#2 ∨ x = 0b10#2 ∨ x = 0b11#2 := by
  revert x
  decide

/-- Fields are told apart by their words. -/
theorem setWidth_inj {n : ℕ} {x y : BitVec n} (hn : n ≤ 32) (h : x.setWidth 32 = y.setWidth 32) :
    x = y := by
  have hnat := congrArg (BitVec.setWidth n) h
  rwa [BitVec.setWidth_setWidth_of_le _ hn, BitVec.setWidth_setWidth_of_le _ hn,
    BitVec.setWidth_eq, BitVec.setWidth_eq] at hnat

theorem decodeLoad_other (h : ∀ op : Rv32.Load, F.funct3 ≠ op.funct3) :
    (decodeLoad d F.word).type = d.type := by
  unfold decodeLoad
  rw [getBits_funct3]
  dsimp only
  split
  case h_1 hfunct3 => exact absurd (setWidth_inj (by omega) hfunct3) (h .lb)
  case h_2 hfunct3 => exact absurd (setWidth_inj (by omega) hfunct3) (h .lh)
  case h_3 hfunct3 => exact absurd (setWidth_inj (by omega) hfunct3) (h .lw)
  case h_4 hfunct3 => exact absurd (setWidth_inj (by omega) hfunct3) (h .lbu)
  case h_5 hfunct3 => exact absurd (setWidth_inj (by omega) hfunct3) (h .lhu)
  case h_6 => rfl

theorem decodeStore_other (h : ∀ op : Rv32.Store, F.funct3 ≠ op.funct3) :
    (decodeStore d F.word).type = d.type := by
  unfold decodeStore
  rw [getBits_funct3]
  dsimp only
  split
  case h_1 hfunct3 => exact absurd (setWidth_inj (by omega) hfunct3) (h .sb)
  case h_2 hfunct3 => exact absurd (setWidth_inj (by omega) hfunct3) (h .sh)
  case h_3 hfunct3 => exact absurd (setWidth_inj (by omega) hfunct3) (h .sw)
  case h_4 => rfl

theorem decodeBranch_other (h : ∀ op : Rv32.Branch, F.funct3 ≠ op.funct3) :
    (decodeBranch d F.word).type = d.type := by
  unfold decodeBranch
  rw [getBits_funct3]
  dsimp only
  split
  case h_1 hfunct3 => exact absurd (setWidth_inj (by omega) hfunct3) (h .beq)
  case h_2 hfunct3 => exact absurd (setWidth_inj (by omega) hfunct3) (h .bne)
  case h_3 hfunct3 => exact absurd (setWidth_inj (by omega) hfunct3) (h .blt)
  case h_4 hfunct3 => exact absurd (setWidth_inj (by omega) hfunct3) (h .bge)
  case h_5 hfunct3 => exact absurd (setWidth_inj (by omega) hfunct3) (h .bltu)
  case h_6 hfunct3 => exact absurd (setWidth_inj (by omega) hfunct3) (h .bgeu)
  case h_7 => rfl

/-- The key of `decodeOp`: `funct7` above `funct3`. -/
theorem opKey_word : (getBits F.word 31 25 <<< 3) ||| getBits F.word 14 12 =
    (F.funct7 ++ F.funct3).setWidth 32 := by
  have hfunct7 := F.funct7.isLt
  have hfunct3 := F.funct3.isLt
  have hhigh : (getBits F.word 31 25).toNat = F.funct7.toNat := by
    rw [getBits_funct7, BitVec.toNat_setWidth]
    omega
  have hlow : (getBits F.word 14 12).toNat = F.funct3.toNat := by
    rw [getBits_funct3, BitVec.toNat_setWidth]
    omega
  have hsum := Bits.or_shiftLeft_toNat (k := 3) hlow hhigh hfunct7 (by omega) (by omega)
  apply BitVec.eq_of_toNat_eq
  rw [BitVec.or_comm, hsum, BitVec.toNat_setWidth, Rv32.toNat_append]
  omega

theorem funct_of_opKey {op : Rv32.Alu}
    (h : (F.funct7 ++ F.funct3).setWidth 32 = (op.funct.1 ++ op.funct.2).setWidth 32) :
    (F.funct7, F.funct3) = op.funct := by
  have hkey := setWidth_inj (by omega) h
  have hfunct7 := congrArg (BitVec.extractLsb' 3 7) hkey
  have hfunct3 := congrArg (BitVec.extractLsb' 0 3) hkey
  rw [BitVec.extractLsb'_append_eq_left, BitVec.extractLsb'_append_eq_left] at hfunct7
  rw [BitVec.extractLsb'_append_eq_right, BitVec.extractLsb'_append_eq_right] at hfunct3
  rw [hfunct7, hfunct3]

theorem decodeOp_other (h : ∀ op : Rv32.Alu, (F.funct7, F.funct3) ≠ op.funct) :
    (decodeOp d F.word).type = d.type := by
  unfold decodeOp
  rw [opKey_word]
  dsimp only
  split
  case h_1 hkey => exact absurd (funct_of_opKey hkey) (h .add)
  case h_2 hkey => exact absurd (funct_of_opKey hkey) (h .sub)
  case h_3 hkey => exact absurd (funct_of_opKey hkey) (h .sll)
  case h_4 hkey => exact absurd (funct_of_opKey hkey) (h .slt)
  case h_5 hkey => exact absurd (funct_of_opKey hkey) (h .sltu)
  case h_6 hkey => exact absurd (funct_of_opKey hkey) (h .xor)
  case h_7 hkey => exact absurd (funct_of_opKey hkey) (h .srl)
  case h_8 hkey => exact absurd (funct_of_opKey hkey) (h .sra)
  case h_9 hkey => exact absurd (funct_of_opKey hkey) (h .or)
  case h_10 hkey => exact absurd (funct_of_opKey hkey) (h .and)
  case h_11 hkey => exact absurd (funct_of_opKey hkey) (h .mul)
  case h_12 hkey => exact absurd (funct_of_opKey hkey) (h .mulh)
  case h_13 hkey => exact absurd (funct_of_opKey hkey) (h .mulhsu)
  case h_14 hkey => exact absurd (funct_of_opKey hkey) (h .mulhu)
  case h_15 hkey => exact absurd (funct_of_opKey hkey) (h .div)
  case h_16 hkey => exact absurd (funct_of_opKey hkey) (h .divu)
  case h_17 hkey => exact absurd (funct_of_opKey hkey) (h .rem)
  case h_18 hkey => exact absurd (funct_of_opKey hkey) (h .remu)
  case h_19 => rfl

/-- How `decode` treats the words of one opcode. -/
def VerdictOn (f : Forward) (pc : BitVec 32) (F : Fields) : Prop :=
  Verdict (Legal F.word) ((decode f pc F.word).type = .invalid) (Overlooked F)

theorem verdict_lui (h : F.opcode = 0b0110111) : VerdictOn f pc F := by
  obtain ⟨imm, himm⟩ := F.exists_upper
  refine .inl (legal_of_fields (i := .lui F.rd imm) ?_)
  rw [Instr.fields, ← h]
  exact himm

theorem verdict_auipc (h : F.opcode = 0b0010111) : VerdictOn f pc F := by
  obtain ⟨imm, himm⟩ := F.exists_upper
  refine .inl (legal_of_fields (i := .auipc F.rd imm) ?_)
  rw [Instr.fields, ← h]
  exact himm

theorem verdict_jal (h : F.opcode = 0b1101111) : VerdictOn f pc F := by
  obtain ⟨offset, hoffset⟩ := F.exists_jump
  refine .inl (legal_of_fields (i := .jal F.rd offset) ?_)
  rw [Instr.fields, ← h]
  exact hoffset

theorem verdict_jalr (h : F.opcode = 0b1100111) : VerdictOn f pc F := by
  by_cases hfunct3 : F.funct3 = 0b000
  · refine .inl (legal_of_fields (i := .jalr F.rd F.rs1 (F.funct7 ++ F.rs2)) ?_)
    rw [Instr.fields, ← h, ← hfunct3]
    exact F.immediate_eq
  · refine .inr (.inr ⟨?_, .jalr h hfunct3⟩)
    rw [decode_jalr h]
    exact InstrType.noConfusion

theorem verdict_branch (h : F.opcode = 0b1100011) : VerdictOn f pc F := by
  by_cases hop : ∃ op : Rv32.Branch, F.funct3 = op.funct3
  · obtain ⟨op, hop⟩ := hop
    obtain ⟨offset, hoffset⟩ := F.exists_branch
    refine .inl (legal_of_fields (i := .branch op F.rs1 F.rs2 offset) ?_)
    rw [Instr.fields, ← h, ← hop]
    exact hoffset
  · rw [not_exists] at hop
    refine .inr (.inr ⟨?_, .branch h hop⟩)
    rw [decode_branch h, decodeBranch_other hop]
    exact InstrType.noConfusion

theorem verdict_load (h : F.opcode = 0b0000011) : VerdictOn f pc F := by
  by_cases hop : ∃ op : Rv32.Load, F.funct3 = op.funct3
  · obtain ⟨op, hop⟩ := hop
    refine .inl (legal_of_fields (i := .load op F.rd F.rs1 (F.funct7 ++ F.rs2)) ?_)
    rw [Instr.fields, ← h, ← hop]
    exact F.immediate_eq
  · rw [not_exists] at hop
    refine .inr (.inr ⟨?_, .load h hop⟩)
    rw [decode_load h, decodeLoad_other hop]
    exact InstrType.noConfusion

theorem verdict_store (h : F.opcode = 0b0100011) : VerdictOn f pc F := by
  by_cases hop : ∃ op : Rv32.Store, F.funct3 = op.funct3
  · obtain ⟨op, hop⟩ := hop
    refine .inl (legal_of_fields (i := .store op F.rs1 F.rs2 (F.funct7 ++ F.rd)) ?_)
    rw [Instr.fields, ← h, ← hop]
    exact F.store_eq
  · rw [not_exists] at hop
    refine .inr (.inr ⟨?_, .store h hop⟩)
    rw [decode_store h, decodeStore_other hop]
    exact InstrType.noConfusion

theorem verdict_op (h : F.opcode = 0b0110011) : VerdictOn f pc F := by
  by_cases hop : ∃ op : Rv32.Alu, (F.funct7, F.funct3) = op.funct
  · obtain ⟨op, hop⟩ := hop
    refine .inl (legal_of_fields (i := .alu op F.rd F.rs1 F.rs2) ?_)
    rw [Instr.fields, ← h, ← hop]
  · rw [not_exists] at hop
    refine .inr (.inr ⟨?_, .op h hop⟩)
    rw [decode_op h, decodeOp_other hop]
    exact InstrType.noConfusion

/-- `OP-IMM` without the shifts. -/
theorem legal_aluImm {op : Rv32.AluImm} (h : F.opcode = 0b0010011) (hop : F.funct3 = op.funct3) :
    Legal F.word := by
  refine legal_of_fields (i := .aluImm op F.rd F.rs1 (F.funct7 ++ F.rs2)) ?_
  rw [Instr.fields, ← h, ← hop]
  exact F.immediate_eq

theorem legal_shift (op : Rv32.Shift) (h : F.opcode = 0b0010011)
    (hop : (F.funct7, F.funct3) = op.funct) : Legal F.word := by
  refine legal_of_fields (i := .shift op F.rd F.rs1 F.rs2) ?_
  rw [Instr.fields, ← h, ← hop]

/-- A left shift by more than 31. -/
theorem decodeOpImm_slli_invalid (h : F.funct3 = 0b001) (hfunct7 : F.funct7 ≠ 0) :
    (decodeOpImm d F.word).type = .invalid := by
  have hpos : 0 < F.funct7.toNat := by
    have hne : F.funct7.toNat ≠ 0 := fun hzero => hfunct7 (BitVec.eq_of_toNat_eq hzero)
    omega
  have himm : 31#32 < (F.funct7 ++ F.rs2).signExtend 32 := by
    rw [BitVec.lt_def, BitVec.toNat_signExtend, BitVec.toNat_setWidth, Rv32.toNat_append]
    have hfunct7' := F.funct7.isLt
    have hrs2 := F.rs2.isLt
    change 31 < _
    omega
  unfold decodeOpImm
  rw [getBits_funct3, h, immI_word]
  exact if_pos himm

/-- A right shift that is not logical is decoded as an arithmetic one. -/
theorem decodeOpImm_srai (h : F.funct3 = 0b101) (hfunct7 : F.funct7 ≠ 0) :
    (decodeOpImm d F.word).type = .srai := by
  have hne : F.funct7.setWidth 32 ≠ 0 := fun hzero => hfunct7 (setWidth_inj (by omega) hzero)
  unfold decodeOpImm
  rw [getBits_funct7, getBits_funct3, h]
  exact if_neg hne

theorem verdict_opImm (h : F.opcode = 0b0010011) : VerdictOn f pc F := by
  by_cases hop : ∃ op : Rv32.AluImm, F.funct3 = op.funct3
  · obtain ⟨op, hop⟩ := hop
    exact .inl (legal_aluImm h hop)
  rw [not_exists] at hop
  have hfunct3 : F.funct3 = 0b001 ∨ F.funct3 = 0b101 := by
    rcases funct3_cases F.funct3 with h0 | h1 | h2 | h3 | h4 | h5 | h6 | h7
    · exact absurd h0 (hop .addi)
    · exact .inl h1
    · exact absurd h2 (hop .slti)
    · exact absurd h3 (hop .sltiu)
    · exact absurd h4 (hop .xori)
    · exact .inr h5
    · exact absurd h6 (hop .ori)
    · exact absurd h7 (hop .andi)
  rcases hfunct3 with hfunct3 | hfunct3
  · by_cases hfunct7 : F.funct7 = 0
    · exact .inl (legal_shift .slli h (by rw [hfunct7, hfunct3]; rfl))
    · refine .inr (.inl ⟨?_, ?_⟩)
      · rw [decode_opImm h, decodeOpImm_slli_invalid hfunct3 hfunct7]
      · rintro ⟨⟩ <;> simp_all
  · by_cases hsrli : F.funct7 = 0
    · exact .inl (legal_shift .srli h (by rw [hsrli, hfunct3]; rfl))
    by_cases hsrai : F.funct7 = 0b0100000
    · exact .inl (legal_shift .srai h (by rw [hsrai, hfunct3]; rfl))
    · refine .inr (.inr ⟨?_, .opImm h hfunct3 hsrli hsrai⟩)
      rw [decode_opImm h, decodeOpImm_srai hfunct3 hsrli]
      exact InstrType.noConfusion

theorem verdict_fence (h : F.opcode = 0b0001111) : VerdictOn f pc F := by
  by_cases hfence : F.funct3 = 0b000
  · refine .inl (legal_of_fields (i := .fence (F.funct7 ++ F.rs2) F.rd F.rs1) ?_)
    rw [Instr.fields, ← h, ← hfence]
    exact F.immediate_eq
  by_cases hfenceI : F.funct3 = 0b001
  · refine .inl (legal_of_fields (i := .fenceI (F.funct7 ++ F.rs2) F.rd F.rs1) ?_)
    rw [Instr.fields, ← h, ← hfenceI]
    exact F.immediate_eq
  · refine .inr (.inl ⟨?_, ?_⟩)
    · rw [decode_fence h, decodeFence, getBits_funct3]
      dsimp only
      split
      case h_1 hfunct3 => exact absurd (setWidth_inj (by omega) hfunct3) hfence
      case h_2 hfunct3 => exact absurd (setWidth_inj (by omega) hfunct3) hfenceI
      case h_3 => rfl
    · rintro ⟨⟩ <;> simp_all

/-- The CSR instructions. -/
theorem legal_csr (op : Rv32.Csr) (h : F.opcode = 0b1110011) (hop : F.funct3 = 0#1 ++ op.funct2) :
    Legal F.word := by
  refine legal_of_fields (i := .csr op F.rd F.rs1 (F.funct7 ++ F.rs2)) ?_
  rw [Instr.fields, ← h, ← hop]
  exact F.immediate_eq

theorem legal_csrImm (op : Rv32.Csr) (h : F.opcode = 0b1110011)
    (hop : F.funct3 = 1#1 ++ op.funct2) : Legal F.word := by
  refine legal_of_fields (i := .csrImm op F.rd F.rs1 (F.funct7 ++ F.rs2)) ?_
  rw [Instr.fields, ← h, ← hop]
  exact F.immediate_eq

theorem decodePrivType_other (hsfence : F.funct7 ≠ 0b0001001)
    (h : ∀ op : Rv32.System, F.funct7 ++ F.rs2 ≠ op.funct12) :
    decodePrivType F.word = .invalid := by
  have hne : getBits F.word 31 25 ≠ 0b0001001 := by
    rw [getBits_funct7]
    exact fun heq => hsfence (setWidth_inj (by omega) heq)
  unfold decodePrivType
  rw [if_neg hne, getBits_funct12]
  split
  case h_1 hfunct12 => exact absurd (setWidth_inj (by omega) hfunct12) (h .ecall)
  case h_2 hfunct12 => exact absurd (setWidth_inj (by omega) hfunct12) (h .ebreak)
  case h_3 hfunct12 => exact absurd (setWidth_inj (by omega) hfunct12) (h .wfi)
  case h_4 hfunct12 => exact absurd (setWidth_inj (by omega) hfunct12) (h .sret)
  case h_5 hfunct12 => exact absurd (setWidth_inj (by omega) hfunct12) (h .mret)
  case h_6 => rfl

/-- The instructions of `SYSTEM` with `funct3 = 000`. -/
theorem verdict_priv (h : F.opcode = 0b1110011) (hfunct3 : F.funct3 = 0b000) :
    VerdictOn f pc F := by
  have htype : (decode f pc F.word).type = decodePrivType F.word := by
    rw [decode_system h, decodeSystem_priv hfunct3]
  by_cases hsfence : F.funct7 = 0b0001001
  · by_cases hrd : F.rd = 0
    · refine .inl (legal_of_fields (i := .sfenceVma F.rs1 F.rs2) ?_)
      rw [Instr.fields, ← h, ← hfunct3, ← hsfence, ← hrd]
    · refine .inr (.inr ⟨?_, .sfenceVma h hfunct3 hsfence hrd⟩)
      rw [htype, decodePrivType_sfenceVma hsfence]
      exact InstrType.noConfusion
  by_cases hop : ∃ op : Rv32.System, F.funct7 ++ F.rs2 = op.funct12
  · obtain ⟨op, hop⟩ := hop
    have hpieces : (F.funct7, F.rs2) =
        (op.funct12.extractLsb' 5 7, op.funct12.extractLsb' 0 5) := by
      rw [← hop, BitVec.extractLsb'_append_eq_left, BitVec.extractLsb'_append_eq_right]
    by_cases hregs : F.rd = 0 ∧ F.rs1 = 0
    · have heq := F.immediate_eq
      rw [hop, hregs.1, hregs.2, hfunct3, h] at heq
      exact .inl (legal_of_fields (i := .system op) heq)
    · refine .inr (.inr ⟨?_, .system op h hfunct3 hop ?_⟩)
      · rw [htype, decodePrivType_system op hpieces]
        cases op <;> exact InstrType.noConfusion
      · by_contra hno
        rw [not_or, not_not, not_not] at hno
        exact hregs hno
  · rw [not_exists] at hop
    refine .inr (.inl ⟨?_, ?_⟩)
    · rw [htype, decodePrivType_other hsfence hop]
    · intro hover
      cases hover with
      | sfenceVma _ _ hfunct7 _ => exact hsfence hfunct7
      | system op _ _ hfunct12 _ => exact hop op hfunct12
      | _ => simp_all

theorem verdict_system (h : F.opcode = 0b1110011) : VerdictOn f pc F := by
  rcases funct3_cases F.funct3 with h0 | h1 | h2 | h3 | h4 | h5 | h6 | h7
  · exact verdict_priv h h0
  · exact .inl (legal_csr .rw h h1)
  · exact .inl (legal_csr .rs h h2)
  · exact .inl (legal_csr .rc h h3)
  · refine .inr (.inl ⟨?_, ?_⟩)
    · rw [decode_system h, decodeSystem, getBits_funct3, h4]
      rfl
    · rintro ⟨⟩ <;> simp_all
  · exact .inl (legal_csrImm .rw h h5)
  · exact .inl (legal_csrImm .rs h h6)
  · exact .inl (legal_csrImm .rc h h7)

/-- An atomic operation that the decoder does not know. -/
theorem decodeAtomic_other (hlr : F.funct7.extractLsb' 2 5 ≠ 0b00010)
    (hsc : F.funct7.extractLsb' 2 5 ≠ 0b00011)
    (h : ∀ op : Rv32.Amo, F.funct7.extractLsb' 2 5 ≠ op.funct5) :
    (decodeAtomic d F.word).type = .invalid := by
  unfold decodeAtomic
  rw [getBits_funct5]
  dsimp only
  split
  · rfl
  split
  case h_1 hfunct5 => exact absurd (setWidth_inj (by omega) hfunct5) hlr
  case h_2 hfunct5 => exact absurd (setWidth_inj (by omega) hfunct5) hsc
  case h_3 hfunct5 => exact absurd (setWidth_inj (by omega) hfunct5) (h .swap)
  case h_4 hfunct5 => exact absurd (setWidth_inj (by omega) hfunct5) (h .add)
  case h_5 hfunct5 => exact absurd (setWidth_inj (by omega) hfunct5) (h .xor)
  case h_6 hfunct5 => exact absurd (setWidth_inj (by omega) hfunct5) (h .and)
  case h_7 hfunct5 => exact absurd (setWidth_inj (by omega) hfunct5) (h .or)
  case h_8 hfunct5 => exact absurd (setWidth_inj (by omega) hfunct5) (h .min)
  case h_9 hfunct5 => exact absurd (setWidth_inj (by omega) hfunct5) (h .max)
  case h_10 hfunct5 => exact absurd (setWidth_inj (by omega) hfunct5) (h .minu)
  case h_11 hfunct5 => exact absurd (setWidth_inj (by omega) hfunct5) (h .maxu)
  case h_12 => rfl

theorem decodeAtomic_size (h : F.funct3 ≠ 0b010) : (decodeAtomic d F.word).type = .invalid := by
  have hne : getBits F.word 14 12 ≠ 0b010 := by
    rw [getBits_funct3]
    exact fun heq => h (setWidth_inj (by omega) heq)
  unfold decodeAtomic
  rw [if_pos hne]

theorem funct7_pieces (F : Fields) :
    F.funct7.extractLsb' 2 5 ++ F.funct7.extractLsb' 0 2 = F.funct7 :=
  @BitVec.extractLsb'_append_extractLsb' 5 2 F.funct7

theorem verdict_atomic (h : F.opcode = 0b0101111) : VerdictOn f pc F := by
  by_cases hfunct3 : F.funct3 = 0b010
  case neg =>
    refine .inr (.inl ⟨?_, ?_⟩)
    · rw [decode_atomic h, decodeAtomic_size hfunct3]
    · rintro ⟨⟩ <;> simp_all
  by_cases hlr : F.funct7.extractLsb' 2 5 = 0b00010#5
  · by_cases hrs2 : F.rs2 = 0
    · refine .inl (legal_of_fields (i := .lr (F.funct7.extractLsb' 0 2) F.rd F.rs1) ?_)
      rw [Instr.fields, ← h, ← hfunct3, ← hrs2, ← hlr, funct7_pieces]
    · refine .inr (.inr ⟨?_, .lr h hfunct3 hlr hrs2⟩)
      rw [decode_atomic h, decodeAtomic_lr hfunct3 hlr]
      exact InstrType.noConfusion
  by_cases hsc : F.funct7.extractLsb' 2 5 = 0b00011#5
  · refine .inl (legal_of_fields (i := .sc (F.funct7.extractLsb' 0 2) F.rd F.rs1 F.rs2) ?_)
    rw [Instr.fields, ← h, ← hfunct3, ← hsc, funct7_pieces]
  by_cases hop : ∃ op : Rv32.Amo, F.funct7.extractLsb' 2 5 = op.funct5
  · obtain ⟨op, hop⟩ := hop
    refine .inl (legal_of_fields (i := .amo op (F.funct7.extractLsb' 0 2) F.rd F.rs1 F.rs2) ?_)
    rw [Instr.fields, ← h, ← hfunct3, ← hop, funct7_pieces]
  · rw [not_exists] at hop
    refine .inr (.inl ⟨?_, ?_⟩)
    · rw [decode_atomic h, decodeAtomic_other hlr hsc hop]
    · rintro ⟨⟩ <;> simp_all

/-- Every word is legal, refused or overlooked. -/
theorem verdict_word (f : Forward) (pc : BitVec 32) (F : Fields) : VerdictOn f pc F := by
  by_cases hlui : F.opcode = 0b0110111
  · exact verdict_lui hlui
  by_cases hauipc : F.opcode = 0b0010111
  · exact verdict_auipc hauipc
  by_cases hopImm : F.opcode = 0b0010011
  · exact verdict_opImm hopImm
  by_cases hop : F.opcode = 0b0110011
  · exact verdict_op hop
  by_cases hload : F.opcode = 0b0000011
  · exact verdict_load hload
  by_cases hstore : F.opcode = 0b0100011
  · exact verdict_store hstore
  by_cases hjal : F.opcode = 0b1101111
  · exact verdict_jal hjal
  by_cases hjalr : F.opcode = 0b1100111
  · exact verdict_jalr hjalr
  by_cases hbranch : F.opcode = 0b1100011
  · exact verdict_branch hbranch
  by_cases hsystem : F.opcode = 0b1110011
  · exact verdict_system hsystem
  by_cases hfence : F.opcode = 0b0001111
  · exact verdict_fence hfence
  by_cases hatomic : F.opcode = 0b0101111
  · exact verdict_atomic hatomic
  refine .inr (.inl ⟨?_, ?_⟩)
  · unfold decode
    rw [getBits_opcode]
    dsimp only
    split
    case h_1 heq => exact absurd (setWidth_inj (by omega) heq) hlui
    case h_2 heq => exact absurd (setWidth_inj (by omega) heq) hauipc
    case h_3 heq => exact absurd (setWidth_inj (by omega) heq) hopImm
    case h_4 heq => exact absurd (setWidth_inj (by omega) heq) hop
    case h_5 heq => exact absurd (setWidth_inj (by omega) heq) hload
    case h_6 heq => exact absurd (setWidth_inj (by omega) heq) hstore
    case h_7 heq => exact absurd (setWidth_inj (by omega) heq) hjal
    case h_8 heq => exact absurd (setWidth_inj (by omega) heq) hjalr
    case h_9 heq => exact absurd (setWidth_inj (by omega) heq) hbranch
    case h_10 heq => exact absurd (setWidth_inj (by omega) heq) hsystem
    case h_11 heq => exact absurd (setWidth_inj (by omega) heq) hfence
    case h_12 heq => exact absurd (setWidth_inj (by omega) heq) hatomic
    case h_13 => rfl
  · rintro ⟨⟩ <;> contradiction

end

/-! ### Halfwords -/

section

variable {f : Forward} {pc : BitVec 32} {C : CFields} {d : IdEx}

theorem clegal_of_fields {c : CInstr} (h : c.fields = C) : CLegal C.half :=
  ⟨c, congrArg CFields.half h⟩

/-- The decoder or `inst_decode_seq` marks the record as a trap. -/
def CRefused (d : IdEx) : Prop := d.type = .invalid ∨ d.onTrap = true

theorem not_crefused {type : InstrType} (htype : d.type = type) (hne : type ≠ .invalid)
    (htrap : d.onTrap = false) : ¬ CRefused (withOperands f d) := by
  rintro (hinvalid | hmark)
  · exact hne (htype.symm.trans hinvalid)
  · rw [show d.onTrap = true from hmark] at htrap
    cases htrap

/-- How `decompress` treats the halfwords of one kind. -/
def CVerdictOn (f : Forward) (pc : BitVec 32) (C : CFields) : Prop :=
  Verdict (CLegal C.half) (CRefused (decompress f pc (cword C))) (COverlooked C)

/-- A word with the given slices. -/
theorem exists_slices {n m : ℕ} (a : BitVec n) (b : BitVec m) :
    ∃ x : BitVec (n + m), x.extractLsb' m n = a ∧ x.extractLsb' 0 m = b :=
  ⟨a ++ b, BitVec.extractLsb'_append_eq_left, BitVec.extractLsb'_append_eq_right⟩

theorem exists_three_slices {l n m : ℕ} (a : BitVec l) (b : BitVec n) (c : BitVec m) :
    ∃ x : BitVec (l + (n + m)),
      x.extractLsb' (n + m) l = a ∧ x.extractLsb' m n = b ∧ x.extractLsb' 0 m = c := by
  refine ⟨a ++ (b ++ c), BitVec.extractLsb'_append_eq_left, ?_, ?_⟩
  · rw [BitVec.extractLsb'_append_eq_of_add_le (by omega), BitVec.extractLsb'_append_eq_left]
  · rw [BitVec.extractLsb'_append_eq_of_add_le (by omega), BitVec.extractLsb'_append_eq_right]

theorem verdict_addi4spn (hop : C.op = 0b00) (h : C.funct3 = 0b000) : CVerdictOn f pc C := by
  obtain ⟨hi, rd, hlow⟩ := Rv32.exists_append 2 3 C.low
  obtain ⟨imm, hbit12, hmid, hhi⟩ := exists_three_slices C.bit12 C.mid hi
  have hC : (⟨0b000, imm.extractLsb' 7 1, imm.extractLsb' 2 5, imm.extractLsb' 0 2 ++ rd, 0b00⟩ :
      CFields) = C := by
    rw [hbit12, hmid, hhi, ← hlow, ← h, ← hop]
  by_cases himm : imm = 0
  · refine .inr (.inl ⟨.inr ?_, ?_⟩)
    · rw [decompress_q0 hop]
      change (decompressQ0 _ (cword C)).onTrap = true
      unfold decompressQ0
      rw [getBits_cfunct3, h, immAddi4spn_cword _ _ imm rd (congrArg cword hC).symm, himm]
      rfl
    · rintro ⟨⟩ <;> simp_all
  · exact .inl (clegal_of_fields (c := .addi4spn rd imm himm) hC)

theorem verdict_lw_sw (hop : C.op = 0b00) (h : C.funct3 = 0b010 ∨ C.funct3 = 0b110) :
    CVerdictOn f pc C := by
  obtain ⟨lo, rd, hlow⟩ := Rv32.exists_append 2 3 C.low
  obtain ⟨hi, rs1, hmid⟩ := Rv32.exists_append 2 3 C.mid
  obtain ⟨imm, hbit12, hhi, hlo⟩ := exists_three_slices C.bit12 hi lo
  rcases h with h | h
  · refine .inl (clegal_of_fields (c := .lw rd rs1 imm) ?_)
    rw [CInstr.fields, hbit12, hhi, hlo, ← hmid, ← hlow, ← h, ← hop]
  · refine .inl (clegal_of_fields (c := .sw rd rs1 imm) ?_)
    rw [CInstr.fields, hbit12, hhi, hlo, ← hmid, ← hlow, ← h, ← hop]

theorem verdict_q0 (hop : C.op = 0b00) : CVerdictOn f pc C := by
  have hinvalid (h : (decompressQ0 (decompressStart pc C) (cword C)).type = .invalid) :
      CVerdictOn f pc C := by
    refine .inr (.inl ⟨.inl ?_, ?_⟩)
    · rw [decompress_q0 hop]
      exact h
    · rintro ⟨⟩ <;> simp_all
  rcases funct3_cases C.funct3 with h0 | h1 | h2 | h3 | h4 | h5 | h6 | h7
  · exact verdict_addi4spn hop h0
  · exact hinvalid (by rw [decompressQ0, getBits_cfunct3, h1]; rfl)
  · exact verdict_lw_sw hop (.inl h2)
  · exact hinvalid (by rw [decompressQ0, getBits_cfunct3, h3]; rfl)
  · exact hinvalid (by rw [decompressQ0, getBits_cfunct3, h4]; rfl)
  · exact hinvalid (by rw [decompressQ0, getBits_cfunct3, h5]; rfl)
  · exact verdict_lw_sw hop (.inr h6)
  · exact hinvalid (by rw [decompressQ0, getBits_cfunct3, h7]; rfl)

/-- The jumps `C.JAL` and `C.J`, the branches and the instructions with a signed immediate. -/
theorem clegal_jump (hop : C.op = 0b01) (h : C.funct3 = 0b001 ∨ C.funct3 = 0b101) :
    CLegal C.half := by
  obtain ⟨offset, hbit12, hmid, hlow⟩ := exists_three_slices C.bit12 C.mid C.low
  rcases h with h | h
  · refine clegal_of_fields (c := .jal offset) ?_
    rw [CInstr.fields, hbit12, hmid, hlow, ← h, ← hop]
  · refine clegal_of_fields (c := .j offset) ?_
    rw [CInstr.fields, hbit12, hmid, hlow, ← h, ← hop]

theorem clegal_branch (hop : C.op = 0b01) (h : C.funct3 = 0b110 ∨ C.funct3 = 0b111) :
    CLegal C.half := by
  obtain ⟨hi, rs1, hmid⟩ := Rv32.exists_append 2 3 C.mid
  obtain ⟨offset, hbit12, hhi, hlow⟩ := exists_three_slices C.bit12 hi C.low
  rcases h with h | h
  · refine clegal_of_fields (c := .beqz rs1 offset) ?_
    rw [CInstr.fields, hbit12, hhi, ← hmid, hlow, ← h, ← hop]
  · refine clegal_of_fields (c := .bnez rs1 offset) ?_
    rw [CInstr.fields, hbit12, hhi, ← hmid, hlow, ← h, ← hop]

theorem clegal_imm6 (hop : C.op = 0b01) (h : C.funct3 = 0b000 ∨ C.funct3 = 0b010) :
    CLegal C.half := by
  obtain ⟨imm, hbit12, hlow⟩ := exists_slices C.bit12 C.low
  rcases h with h | h
  · refine clegal_of_fields (c := .addi C.mid imm) ?_
    rw [CInstr.fields, hbit12, hlow, ← h, ← hop]
  · refine clegal_of_fields (c := .li C.mid imm) ?_
    rw [CInstr.fields, hbit12, hlow, ← h, ← hop]

/-- `C.ADDI16SP` and `C.LUI`. -/
theorem verdict_lui16 (hop : C.op = 0b01) (h : C.funct3 = 0b011) : CVerdictOn f pc C := by
  obtain ⟨imm, hbit12, hlow⟩ := exists_slices C.bit12 C.low
  by_cases himm : imm = 0
  case neg =>
    by_cases hmid : C.mid = 2
    · refine .inl (clegal_of_fields (c := .addi16sp imm himm) ?_)
      rw [CInstr.fields, hbit12, hlow, ← h, ← hop, ← hmid]
    · refine .inl (clegal_of_fields (c := .lui C.mid imm hmid himm) ?_)
      rw [CInstr.fields, hbit12, hlow, ← h, ← hop]
  have hbit12' : C.bit12 = 0 := by
    rw [← hbit12, himm]
    rfl
  have hlow' : C.low = 0 := by
    rw [← hlow, himm]
    rfl
  by_cases hmid : C.mid = 2
  · refine .inr (.inl ⟨.inr ?_, ?_⟩)
    · have hC : C = ⟨0b011, (0 : BitVec 6).extractLsb' 5 1, 2, (0 : BitVec 6).extractLsb' 0 5,
          0b01⟩ := by
        rw [← himm, hbit12, hlow, ← h, ← hop, ← hmid]
      rw [decompress_q1 hop]
      change (decompressQ1 _ (cword C)).onTrap = true
      unfold decompressQ1
      rw [getBits_cfunct3, h, regField_mid, hmid, immAddi16sp_cword _ _ 0 2 (congrArg cword hC)]
      rfl
    · intro hover
      cases hover with
      | lui _ _ hne => exact hne hmid
      | slli _ hfunct3 => simp_all
  · refine .inr (.inr ⟨?_, .lui hop h hmid hbit12' hlow'⟩)
    have hlui : (decompressQ1 (decompressStart pc C) (cword C)).type = .lui ∧
        (decompressQ1 (decompressStart pc C) (cword C)).onTrap = false := by
      unfold decompressQ1
      rw [getBits_cfunct3, h, regField_mid]
      dsimp only
      rw [if_neg hmid]
      exact ⟨rfl, rfl⟩
    rw [decompress_q1 hop]
    exact not_crefused hlui.1 InstrType.noConfusion hlui.2

/-- A halfword that is refused by one of the quadrants. -/
theorem cverdict_refused (h : CRefused (decompress f pc (cword C))) (hno : ¬ COverlooked C) :
    CVerdictOn f pc C := .inr (.inl ⟨h, hno⟩)

theorem not_coverlooked_q1 (hop : C.op = 0b01) (h : C.funct3 ≠ 0b011) : ¬ COverlooked C := by
  intro hover
  cases hover with
  | lui _ hfunct3 => exact h hfunct3
  | slli hop' => simp_all

/-- The shifts to the right by a constant. -/
theorem decompressMiscAlu_shift {hi : BitVec 2} {rd : BitVec 3} (hmid : C.mid = hi ++ rd)
    (hhi : hi = 0b00 ∨ hi = 0b01) (hbit12 : C.bit12 ≠ 0) :
    (decompressMiscAlu d (cword C)).onTrap = true := by
  have hne : getBits (cword C) 12 12 ≠ 0 := mt getBits_bit12_eq_zero.mp hbit12
  unfold decompressMiscAlu
  rw [(getBits_mid_parts C hmid).1]
  dsimp only
  rw [if_pos hne, if_pos hne]
  rcases hhi with rfl | rfl <;> rfl

theorem decompressMiscAlu_long {rd : BitVec 3} (hmid : C.mid = 0b11#2 ++ rd)
    (hbit12 : C.bit12 ≠ 0) : (decompressMiscAlu d (cword C)).onTrap = true := by
  have hne : ¬ cword C &&& (1#32 <<< 12) = 0 := mt and_bit12_eq_zero.mp hbit12
  unfold decompressMiscAlu
  rw [(getBits_mid_parts C hmid).1]
  dsimp only
  rw [if_neg hne]
  rfl

/-- The operations on two registers. -/
theorem clegal_arith {rd : BitVec 3} (hop : C.op = 0b01) (h : C.funct3 = 0b100)
    (hmid : C.mid = 0b11#2 ++ rd) (hbit12 : C.bit12 = 0) : CLegal C.half := by
  obtain ⟨sel, rs2, hlow⟩ := Rv32.exists_append 2 3 C.low
  have hlegal (op : Rv32.CArith) (hsel : op.funct2 = sel) : CLegal C.half := by
    refine clegal_of_fields (c := .arith op rd rs2) ?_
    rw [CInstr.fields, hsel, ← hlow, ← hmid, ← hbit12, ← h, ← hop]
  rcases funct2_cases sel with rfl | rfl | rfl | rfl
  · exact hlegal .sub rfl
  · exact hlegal .xor rfl
  · exact hlegal .or rfl
  · exact hlegal .and rfl

theorem clegal_shift {rd : BitVec 3} (hop : C.op = 0b01) (h : C.funct3 = 0b100)
    (hmid : C.mid = 0b00#2 ++ rd ∨ C.mid = 0b01#2 ++ rd) (hbit12 : C.bit12 = 0) :
    CLegal C.half := by
  rcases hmid with hmid | hmid
  · refine clegal_of_fields (c := .srli rd C.low) ?_
    rw [CInstr.fields, ← hmid, ← hbit12, ← h, ← hop]
  · refine clegal_of_fields (c := .srai rd C.low) ?_
    rw [CInstr.fields, ← hmid, ← hbit12, ← h, ← hop]

theorem verdict_miscAlu (hop : C.op = 0b01) (h : C.funct3 = 0b100) : CVerdictOn f pc C := by
  have hmark (htrap : (decompressMiscAlu (decompressStart pc C) (cword C)).onTrap = true) :
      CVerdictOn f pc C := by
    refine cverdict_refused (.inr ?_) (not_coverlooked_q1 hop (by rw [h]; decide))
    rw [decompress_q1 hop, decompressQ1_miscAlu h]
    exact htrap
  obtain ⟨hi, rd, hmid⟩ := Rv32.exists_append 2 3 C.mid
  rcases funct2_cases hi with rfl | rfl | rfl | rfl
  · by_cases hbit12 : C.bit12 = 0
    · exact .inl (clegal_shift hop h (.inl hmid) hbit12)
    · exact hmark (decompressMiscAlu_shift hmid (.inl rfl) hbit12)
  · by_cases hbit12 : C.bit12 = 0
    · exact .inl (clegal_shift hop h (.inr hmid) hbit12)
    · exact hmark (decompressMiscAlu_shift hmid (.inr rfl) hbit12)
  · obtain ⟨imm, hhigh, hlow⟩ := exists_slices C.bit12 C.low
    refine .inl (clegal_of_fields (c := .andi rd imm) ?_)
    rw [CInstr.fields, hhigh, hlow, ← hmid, ← h, ← hop]
  · by_cases hbit12 : C.bit12 = 0
    · exact .inl (clegal_arith hop h hmid hbit12)
    · exact hmark (decompressMiscAlu_long hmid hbit12)

theorem verdict_q1 (hop : C.op = 0b01) : CVerdictOn f pc C := by
  rcases funct3_cases C.funct3 with h0 | h1 | h2 | h3 | h4 | h5 | h6 | h7
  · exact .inl (clegal_imm6 hop (.inl h0))
  · exact .inl (clegal_jump hop (.inl h1))
  · exact .inl (clegal_imm6 hop (.inr h2))
  · exact verdict_lui16 hop h3
  · exact verdict_miscAlu hop h4
  · exact .inl (clegal_jump hop (.inr h5))
  · exact .inl (clegal_branch hop (.inl h6))
  · exact .inl (clegal_branch hop (.inr h7))

theorem not_coverlooked_q2 (hop : C.op = 0b10) (h : C.funct3 ≠ 0b000) : ¬ COverlooked C := by
  intro hover
  cases hover with
  | lui hop' => simp_all
  | slli _ hfunct3 => exact h hfunct3

/-- `C.SLLI`: the check of the shift amount is made for `x0` only. -/
theorem verdict_slli (hop : C.op = 0b10) (h : C.funct3 = 0b000) : CVerdictOn f pc C := by
  by_cases hbit12 : C.bit12 = 0
  · refine .inl (clegal_of_fields (c := .slli C.mid C.low) ?_)
    rw [CInstr.fields, ← hbit12, ← h, ← hop]
  have hne : getBits (cword C) 12 12 ≠ 0 := mt getBits_bit12_eq_zero.mp hbit12
  by_cases hmid : C.mid = 0
  · have htrap : (decompressQ2 (decompressStart pc C) (cword C)).onTrap = true := by
      unfold decompressQ2
      rw [getBits_cfunct3, h, regField_mid]
      dsimp only
      rw [if_pos ⟨hne, hmid⟩]
      rfl
    refine cverdict_refused (.inr ?_) ?_
    · rw [decompress_q2 hop]
      exact htrap
    · intro hover
      cases hover with
      | lui hop' => simp_all
      | slli _ _ _ hmid' => exact hmid' hmid
  · have hslli : (decompressQ2 (decompressStart pc C) (cword C)).type = .slli ∧
        (decompressQ2 (decompressStart pc C) (cword C)).onTrap = false := by
      unfold decompressQ2
      rw [getBits_cfunct3, h, regField_mid]
      dsimp only
      rw [if_neg fun hboth => hmid hboth.2]
      exact ⟨rfl, rfl⟩
    refine .inr (.inr ⟨?_, .slli hop h hbit12 hmid⟩)
    rw [decompress_q2 hop]
    exact not_crefused hslli.1 InstrType.noConfusion hslli.2

theorem verdict_lwsp (hop : C.op = 0b10) (h : C.funct3 = 0b010) : CVerdictOn f pc C := by
  obtain ⟨imm, hhigh, hlow⟩ := exists_slices C.bit12 C.low
  by_cases hmid : C.mid = 0
  · refine cverdict_refused (.inr ?_) (not_coverlooked_q2 hop (by rw [h]; decide))
    rw [decompress_q2 hop]
    change (decompressQ2 _ (cword C)).onTrap = true
    unfold decompressQ2
    rw [getBits_cfunct3, h, regField_mid]
    dsimp only
    rw [if_pos hmid]
    rfl
  · refine .inl (clegal_of_fields (c := .lwsp C.mid imm hmid) ?_)
    rw [CInstr.fields, hhigh, hlow, ← h, ← hop]

theorem verdict_registers (hop : C.op = 0b10) (h : C.funct3 = 0b100) : CVerdictOn f pc C := by
  by_cases hbit12 : C.bit12 = 0
  · by_cases hlow : C.low = 0
    · by_cases hmid : C.mid = 0
      · refine cverdict_refused (.inr ?_) (not_coverlooked_q2 hop (by rw [h]; decide))
        rw [decompress_q2 hop, decompressQ2_registers h, if_pos hbit12, if_pos hlow]
        change (decompressJr _ (cword C) .cJr 0 false).onTrap = true
        unfold decompressJr
        rw [regField_mid, if_pos hmid]
        rfl
      · refine .inl (clegal_of_fields (c := .jr C.mid hmid) ?_)
        rw [CInstr.fields, ← hbit12, ← hlow, ← h, ← hop]
    · refine .inl (clegal_of_fields (c := .mv C.mid C.low hlow) ?_)
      rw [CInstr.fields, ← hbit12, ← h, ← hop]
  have hone : C.bit12 = 1 := by
    have hcases : ∀ x : BitVec 1, x = 0 ∨ x = 1 := by decide
    exact (hcases C.bit12).resolve_left hbit12
  by_cases hlow : C.low = 0
  · by_cases hmid : C.mid = 0
    · refine .inl (clegal_of_fields (c := .ebreak) ?_)
      have hC : C = ⟨C.funct3, C.bit12, C.mid, C.low, C.op⟩ := rfl
      rw [hC, CInstr.fields, h, hone, hmid, hlow, hop]
    · refine .inl (clegal_of_fields (c := .jalr C.mid hmid) ?_)
      rw [CInstr.fields, ← hone, ← hlow, ← h, ← hop]
  · refine .inl (clegal_of_fields (c := .add C.mid C.low hlow) ?_)
    rw [CInstr.fields, ← hone, ← h, ← hop]

theorem verdict_q2 (hop : C.op = 0b10) : CVerdictOn f pc C := by
  have hinvalid (h : C.funct3 ≠ 0b000)
      (htype : (decompressQ2 (decompressStart pc C) (cword C)).type = .invalid) :
      CVerdictOn f pc C := by
    refine cverdict_refused (.inl ?_) (not_coverlooked_q2 hop h)
    rw [decompress_q2 hop]
    exact htype
  rcases funct3_cases C.funct3 with h0 | h1 | h2 | h3 | h4 | h5 | h6 | h7
  · exact verdict_slli hop h0
  · exact hinvalid (by rw [h1]; decide) (by rw [decompressQ2, getBits_cfunct3, h1]; rfl)
  · exact verdict_lwsp hop h2
  · exact hinvalid (by rw [h3]; decide) (by rw [decompressQ2, getBits_cfunct3, h3]; rfl)
  · exact verdict_registers hop h4
  · exact hinvalid (by rw [h5]; decide) (by rw [decompressQ2, getBits_cfunct3, h5]; rfl)
  · obtain ⟨imm, hhigh, hmid⟩ := exists_slices C.bit12 C.mid
    refine .inl (clegal_of_fields (c := .swsp C.low imm) ?_)
    rw [CInstr.fields, hhigh, hmid, ← h6, ← hop]
  · exact hinvalid (by rw [h7]; decide) (by rw [decompressQ2, getBits_cfunct3, h7]; rfl)

/-- Every halfword that is not the start of a word is legal, refused or overlooked. -/
theorem verdict_half (f : Forward) (pc : BitVec 32) {C : CFields} (h : C.op ≠ 0b11) :
    CVerdictOn f pc C := by
  rcases funct2_cases C.op with h0 | h1 | h2 | h3
  · exact verdict_q0 h0
  · exact verdict_q1 h1
  · exact verdict_q2 h2
  · exact absurd h3 h

end

/-! ### The latch -/

/-- The word or halfword in front of the decoder is no instruction. -/
def Illegal (inst : BitVec 32) : Prop :=
  if inst &&& 3 = 3 then ¬ Legal inst else ¬ CLegal (inst.setWidth 16)

/-- It is among the encodings that are taken for something else. -/
def Overlooks (inst : BitVec 32) : Prop :=
  if inst &&& 3 = 3 then Overlooked (Rv32.fields inst)
  else COverlooked (Rv32.cfields (inst.setWidth 16))

/-- The fetch of the instruction raised no fault. -/
def NoFetchFault (i : IfId) : Prop :=
  ¬ (i.ifIdFault.setWidth 32 = ExceptionCause.instrAccessFault.code ∨
    i.ifIdFault.setWidth 32 = ExceptionCause.instrPageFault.code)

section

variable {f : Forward} {i : IfId}

theorem refused_latch_word (hfault : NoFetchFault i) (h : i.ifIdInst &&& 3 = 3) :
    Refused (latch f i) ↔ (decode f i.ifIdPc i.ifIdInst).type = .invalid := by
  unfold latch
  dsimp only
  rw [if_pos h, if_neg hfault]
  have hmark := decode_onTrap f i.ifIdPc i.ifIdInst
  split_ifs with hinvalid
  · exact iff_of_true ⟨rfl, rfl⟩ hinvalid
  · refine iff_of_false ?_ hinvalid
    rintro ⟨htrap, -⟩
    exact absurd (htrap.symm.trans hmark) Bool.false_ne_true.symm

theorem refused_latch_half (hfault : NoFetchFault i) (h : ¬ i.ifIdInst &&& 3 = 3) :
    Refused (latch f i) ↔ CRefused (decompress f i.ifIdPc (i.ifIdInst &&& 0x0000ffff)) := by
  unfold latch
  dsimp only
  rw [if_neg h, if_neg hfault]
  obtain ⟨-, hmark⟩ := decompress_marked f i.ifIdPc (i.ifIdInst &&& 0x0000ffff)
  split_ifs with hinvalid
  · exact iff_of_true ⟨rfl, rfl⟩ (.inl hinvalid)
  · constructor
    · rintro ⟨htrap, -⟩
      exact .inr htrap
    · rintro (hno | htrap)
      · exact absurd hno hinvalid
      · refine ⟨htrap, hmark.resolve_left ?_⟩
        rw [htrap]
        exact Bool.false_ne_true.symm

/-- The halfword that `decompress` gets. -/
theorem cword_cfields (inst : BitVec 32) :
    cword (Rv32.cfields (inst.setWidth 16)) = inst &&& 0x0000ffff := by
  apply BitVec.eq_of_toNat_eq
  rw [cword, Rv32.half_cfields, Bits.and_ones_toNat inst 0x0000ffff (n := 16) rfl,
    BitVec.toNat_setWidth, BitVec.toNat_setWidth]
  omega

theorem op_cfields (inst : BitVec 32) :
    (Rv32.cfields (inst.setWidth 16)).op = 0b11 ↔ inst &&& 3 = 3 := by
  have hmask := Bits.and_ones_toNat inst 3 (n := 2) rfl
  unfold Rv32.cfields
  rw [← BitVec.toNat_inj, ← BitVec.toNat_inj, hmask, Rv32.toNat_slice, BitVec.toNat_setWidth]
  change _ = 3 ↔ _ = 3
  omega

theorem Verdict.refused_iff {legal invalid overlooked : Prop} (h : Verdict legal invalid overlooked)
    (hlegal : ¬ legal) : invalid ↔ ¬ overlooked := by
  rcases h with hl | ⟨hi, ho⟩ | ⟨hi, ho⟩
  · exact absurd hl hlegal
  · exact iff_of_true hi ho
  · exact iff_of_false hi (not_not.mpr ho)

/-- An illegal encoding is latched as a trap exactly when it is not overlooked. -/
theorem refused_latch_iff (hfault : NoFetchFault i) (h : Illegal i.ifIdInst) :
    Refused (latch f i) ↔ ¬ Overlooks i.ifIdInst := by
  unfold Illegal at h
  unfold Overlooks
  by_cases hlen : i.ifIdInst &&& 3 = 3
  · rw [if_pos hlen] at h ⊢
    have hverdict := verdict_word f i.ifIdPc (Rv32.fields i.ifIdInst)
    rw [VerdictOn, Rv32.word_fields] at hverdict
    rw [refused_latch_word hfault hlen]
    exact hverdict.refused_iff h
  · rw [if_neg hlen] at h ⊢
    have hverdict := verdict_half f i.ifIdPc (mt (op_cfields i.ifIdInst).mp hlen)
    rw [CVerdictOn, Rv32.half_cfields, cword_cfields] at hverdict
    rw [refused_latch_half hfault hlen]
    exact hverdict.refused_iff h

/-- An illegal encoding is refused, and EXEC does nothing on its behalf, exactly when it is
not one of the overlooked ones. -/
theorem illegal_traps_iff (f : Forward) (i : IfId) (hfault : NoFetchFault i)
    (h : Illegal i.ifIdInst) :
    (Refused (latch f i) ∧ ∀ (e : Exec) (x : ExecIn), x.idEx = latch f i → Inert e x) ↔
      ¬ Overlooks i.ifIdInst := by
  rw [← refused_latch_iff hfault h (f := f)]
  constructor
  · exact And.left
  · intro hrefused
    refine ⟨hrefused, fun e x hx => ?_⟩
    refine Refused.inert e ?_ ?_
    · rw [hx]
      exact hrefused
    · rw [hx]
      rfl

/-- An instruction is decoded as one. -/
theorem not_legal_of_type {w : BitVec 32} (h : (decode {} 0 w).type = .nop ∨
    (decode {} 0 w).type = .invalid) : ¬ Legal w := by
  rintro ⟨ins, rfl⟩
  rw [(decodes_of_encode {} 0 (i := ins) rfl).type] at h
  cases ins with
  | branch op => cases op <;> simp [branchType] at h
  | load op => cases op <;> simp [loadType] at h
  | store op => cases op <;> simp [storeType] at h
  | aluImm op => cases op <;> simp [aluImmType] at h
  | shift op => cases op <;> simp [shiftType] at h
  | alu op => cases op <;> simp [aluType] at h
  | csr op => cases op <;> simp [csrType] at h
  | csrImm op => cases op <;> simp [csrImmType] at h
  | system op => cases op <;> simp [systemType] at h
  | amo op => cases op <;> simp [amoInstrType] at h
  | _ => simp at h

/-- A word of ones is refused. -/
theorem illegal_traps_of_ones :
    Refused (latch {} { ifIdInst := 0xFFFFFFFF }) ∧
      ∀ (e : Exec) (x : ExecIn), x.idEx = latch {} { ifIdInst := 0xFFFFFFFF } → Inert e x := by
  have hillegal : Illegal 0xFFFFFFFF := by
    rw [Illegal, if_pos (by decide)]
    exact not_legal_of_type (.inr (by decide))
  refine (illegal_traps_iff {} { ifIdInst := 0xFFFFFFFF } ?_ hillegal).mpr ?_
  · unfold NoFetchFault
    decide
  · rw [Overlooks, if_pos (by decide)]
    rintro ⟨⟩ <;> contradiction

/-- The load of 64 bits is none of RV32. It is not refused, and EXEC writes zero to its
register. -/
theorem load_double_not_refused :
    NoFetchFault { ifIdInst := 0x00003083 } ∧ Illegal 0x00003083 ∧
      ¬ Refused (latch {} { ifIdInst := 0x00003083 }) ∧
      ¬ Inert {} { idEx := latch {} { ifIdInst := 0x00003083 } } := by
  refine ⟨?_, ?_, ?_, ?_⟩
  · unfold NoFetchFault
    decide
  · rw [Illegal, if_pos (by decide)]
    exact not_legal_of_type (.inl (by decide))
  · unfold Refused
    decide
  · intro hinert
    exact absurd hinert.register (by decide)

end

end Turtle
