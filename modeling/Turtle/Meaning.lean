import Turtle.Executes

/-!
# What the words mean

A word is latched as the instruction that it encodes. An illegal word that the decoders
overlook is latched as a legal instruction, which is named here, and any other one is
refused. So EXEC always has an instruction of the instruction set before it, or a trap.
-/

namespace Turtle

open Rv32 (CFields CInstr Encodes Fields Hart Instr Legal Regs)

/-! ### Overlooked words -/

/-- `ADDI` of nothing from `x0`, which clears a register. -/
def clears (rd : BitVec 5) : Instr := .aluImm .addi rd 0 0

/-- The instruction that an overlooked word is taken for. The tables that leave the type
`NOP` clear the register, if their instructions have one. -/
def standIn (F : Fields) : Instr :=
  match F.opcode with
  | 0b0010011#7 => .shift .srai F.rd F.rs1 F.rs2
  | 0b0110011#7 => clears F.rd
  | 0b0000011#7 => clears F.rd
  | 0b1100111#7 => .jalr F.rd F.rs1 (F.funct7 ++ F.rs2)
  | 0b0101111#7 => .lr (F.funct7.extractLsb' 0 2) F.rd F.rs1
  | 0b1110011#7 =>
    if F.funct7 = 0b0001001 then .sfenceVma F.rs1 F.rs2
    else match F.funct7 ++ F.rs2 with
      | 0x000#12 => .system .ecall
      | 0x001#12 => .system .ebreak
      | 0x105#12 => .system .wfi
      | 0x102#12 => .system .sret
      | _ => .system .mret
  | _ => clears 0

/-- The instruction that an overlooked halfword is taken for. -/
def cstandIn (C : CFields) : Instr :=
  if C.op = 0b01 then .lui C.mid 0 else .shift .slli C.mid C.mid C.low

/-- What a word means to the decoders: the instruction that it starts with, or the one that
it is taken for, and the number of its bytes. -/
inductive Means (w : BitVec 32) : Instr → BitVec 32 → Prop
  | encodes {i : Instr} {len : BitVec 32} : Encodes w i len → Means w i len
  | word : w &&& 3 = 3 → Overlooked (Rv32.fields w) → Means w (standIn (Rv32.fields w)) 4
  | half : ¬ w &&& 3 = 3 → COverlooked (Rv32.cfields (w.setWidth 16)) →
      Means w (cstandIn (Rv32.cfields (w.setWidth 16))) 2

/-- A record of the type `NOP`, which clears a register or does nothing. -/
def ClearsOnly (i : Instr) (d : IdEx) : Prop :=
  ∃ rd, i = clears rd ∧ d.type = .nop ∧ d.dest = (some rd).filter (· != 0)

section

variable {f : Forward} {pc : BitVec 32} {F : Fields} {C : CFields} {d : IdEx}

/-- What `decode` leaves alone in each record. -/
theorem decode_plain (f : Forward) (pc inst : BitVec 32) :
    (decode f pc inst).onTrap = false ∧ (decode f pc inst).flush = false ∧
      (decode f pc inst).pc = pc ∧ (decode f pc inst).isCompressed = false :=
  have h := decode_untouched f pc inst
  ⟨decode_onTrap f pc inst, congrArg IdEx.flush h, decode_pc f pc inst,
    congrArg IdEx.isCompressed h⟩

theorem dest_of_writesRd (h : d.writesRd = (d.rd != 0)) :
    d.dest = (some d.rd).filter (· != 0) := by
  rw [IdEx.dest, h, Bool.and_self]
  rfl

theorem decodeOp_dest (d : IdEx) (inst : BitVec 32) :
    (decodeOp d inst).dest = (some d.rd).filter (· != 0) := by
  unfold decodeOp
  dsimp only
  split <;> exact dest_of_writesRd rfl

theorem decodeLoad_dest (d : IdEx) (inst : BitVec 32) :
    (decodeLoad d inst).dest = (some d.rd).filter (· != 0) := by
  unfold decodeLoad
  dsimp only
  split <;> exact dest_of_writesRd rfl

theorem decodeStore_dest (inst : BitVec 32) (h : d.writesRd = false) :
    (decodeStore d inst).dest = none := by
  unfold decodeStore
  dsimp only
  split <;> simp [IdEx.dest, h]

theorem decodeBranch_dest (d : IdEx) (inst : BitVec 32) : (decodeBranch d inst).dest = none := by
  unfold decodeBranch
  dsimp only
  split <;> simp [IdEx.dest]

/-- An overlooked shift to the right. -/
theorem decodeOpImm_overlooked (h : F.funct3 = 0b101) (hfunct7 : F.funct7 ≠ 0) :
    decodeOpImm d F.word = { d with writesRd := d.rd != 0, type := .srai,
                                    imm := (F.funct7 ++ F.rs2).signExtend 32 } := by
  have hne : F.funct7.setWidth 32 ≠ 0 := fun hzero => hfunct7 (setWidth_inj (by omega) hzero)
  unfold decodeOpImm
  rw [getBits_funct7, getBits_funct3, h, immI_word]
  change { d with writesRd := d.rd != 0, imm := (F.funct7 ++ F.rs2).signExtend 32,
                  type := if F.funct7.setWidth 32 = 0 then .srli else .srai } = _
  rw [if_neg hne]

/-- An overlooked word is decoded as the instruction that stands in for it. -/
theorem decode_standIn (f : Forward) (pc : BitVec 32) (h : Overlooked F) :
    Decodes f pc (standIn F) (decode f pc F.word) ∨
      ClearsOnly (standIn F) (decode f pc F.word) := by
  cases h with
  | opImm opcode funct3 hne hne' =>
    left
    rw [decode_opImm opcode, decodeOpImm_overlooked funct3 hne, standIn, opcode]
    constructor <;> simp [IdEx.kinds, shiftType, setWidth_shiftImm]
  | op opcode hother =>
    right
    refine ⟨F.rd, by rw [standIn, opcode]; rfl, ?_, ?_⟩
    · rw [decode_op opcode, decodeOp_other hother]
      rfl
    · rw [decode_op opcode, decodeOp_dest]
      rfl
  | load opcode hother =>
    right
    refine ⟨F.rd, by rw [standIn, opcode]; rfl, ?_, ?_⟩
    · rw [decode_load opcode, decodeLoad_other hother]
      rfl
    · rw [decode_load opcode, decodeLoad_dest]
      rfl
  | store opcode hother =>
    right
    refine ⟨0, by rw [standIn, opcode]; rfl, ?_, ?_⟩
    · rw [decode_store opcode, decodeStore_other hother]
      rfl
    · rw [decode_store opcode, decodeStore_dest _ rfl]
      rfl
  | branch opcode hother =>
    right
    refine ⟨0, by rw [standIn, opcode]; rfl, ?_, ?_⟩
    · rw [decode_branch opcode, decodeBranch_other hother]
      rfl
    · rw [decode_branch opcode, decodeBranch_dest]
      rfl
  | jalr opcode hfunct3 =>
    left
    rw [decode_jalr opcode, standIn, opcode]
    constructor <;> simp [IdEx.kinds]
  | sfenceVma opcode funct3 funct7 hrd =>
    left
    rw [decode_system opcode, decodeSystem_priv funct3, decodePrivType_sfenceVma funct7, standIn,
      opcode]
    simp only [if_pos funct7]
    constructor <;> simp [IdEx.kinds]
  | system op opcode funct3 funct12 hregs =>
    left
    have hpieces : (F.funct7, F.rs2) =
        (op.funct12.extractLsb' 5 7, op.funct12.extractLsb' 0 5) := by
      rw [← funct12, BitVec.extractLsb'_append_eq_left, BitVec.extractLsb'_append_eq_right]
    have hsfence : F.funct7 ≠ 0b0001001 := by
      rw [show F.funct7 = op.funct12.extractLsb' 5 7 from congrArg Prod.fst hpieces]
      cases op <;> decide
    have hstand : standIn F = .system op := by
      rw [standIn, opcode]
      simp only [if_neg hsfence, funct12]
      cases op <;> rfl
    rw [decode_system opcode, decodeSystem_priv funct3, decodePrivType_system op hpieces, hstand]
    constructor <;> simp [IdEx.kinds]
  | lr opcode funct3 funct5 hrs2 =>
    left
    rw [decode_atomic opcode, decodeAtomic_lr funct3 funct5, standIn, opcode]
    constructor <;> simp [IdEx.kinds]

/-- An overlooked halfword is decompressed as the instruction that stands in for it. -/
theorem decompress_standIn (f : Forward) (pc : BitVec 32) (h : COverlooked C) :
    Decodes f pc (cstandIn C) (decompress f pc (cword C)).expanded := by
  cases h with
  | lui hop hfunct3 hmid hbit12 hlow =>
    have hC : C = ⟨0b011, (0 : BitVec 6).extractLsb' 5 1, C.mid, (0 : BitVec 6).extractLsb' 0 5,
        0b01⟩ := by
      rw [← hop, ← hfunct3]
      cases C
      simp_all
    have hrecord : decompressQ1 (decompressStart pc C) (cword C) =
        { decompressStart pc C with
          type := .lui, ctype := .cLui, rd := C.mid, rs1 := 0, writesRd := true,
          imm := (0 : BitVec 6).signExtend 20 ++ 0#12 } := by
      unfold decompressQ1
      rw [getBits_cfunct3, regField_mid, hfunct3, immLui_cword _ _ 0 C.mid (congrArg cword hC)]
      exact if_neg hmid
    rw [decompress_q1 hop, hrecord, cstandIn, if_pos hop]
    constructor <;> simp [IdEx.kinds, IdEx.expanded]
  | slli hop hfunct3 hbit12 hmid =>
    have hrecord : decompressQ2 (decompressStart pc C) (cword C) =
        { decompressStart pc C with
          type := .slli, ctype := .cSlli, rd := C.mid, rs1 := C.mid, imm := C.low.setWidth 32,
          writesRd := true } := by
      unfold decompressQ2
      rw [getBits_cfunct3, regField_mid, hfunct3, getBits_low]
      exact if_neg fun hboth => hmid hboth.2
    have hne : ¬ C.op = 0b01 := by
      rw [hop]
      decide
    rw [decompress_q2 hop, hrecord, cstandIn, if_neg hne]
    constructor <;> simp [IdEx.kinds, IdEx.expanded, shiftType]

end

/-! ### Latched instructions -/

/-- The record `d` is that of the instruction `i`, which the word `w` means. -/
structure RecordOf (f : Forward) (pc w : BitVec 32) (i : Instr) (d : IdEx) : Prop where
  means : Means w i d.len
  plain : d.onTrap = false ∧ d.flush = false ∧ d.pc = pc
  decodes : Decodes f pc i d.expanded ∨ ClearsOnly i d

section

variable {f : Forward} {j : IfId} {pc : BitVec 32}

theorem IdEx.expanded_of_wide {d : IdEx} {i : Instr} (h : Decodes f pc i d) :
    Decodes f pc i d.expanded := by
  have hwrites : (d.writesRd && d.rd != 0) = d.writesRd := by
    rw [h.writesRd]
    cases hrd : i.rd with
    | none => rfl
    | some rd =>
      rw [h.rd rd hrd]
      simp
  have hsame : d.expanded = d := by
    unfold IdEx.expanded
    rw [hwrites, ← h.isCompressed]
  rw [hsame]
  exact h

/-- The latch leaves the record of a legal instruction alone. -/
theorem latch_of_decodes {d : IdEx} (hfault : NoFetchFault j)
    (hd : (if j.ifIdInst &&& 3 = 3 then decode f j.ifIdPc j.ifIdInst
      else decompress f j.ifIdPc (j.ifIdInst &&& 0x0000ffff)) = d)
    (htype : d.type ≠ .invalid) (hflush : d.flush = false) : latch f j = d := by
  unfold latch
  dsimp only
  rw [hd, if_neg hfault, if_neg htype, ← hflush]

theorem instrType_ne (i : Instr) : instrType i ≠ .invalid ∧ instrType i ≠ .nop := by
  cases i with
  | branch op => cases op <;> simp [branchType]
  | load op => cases op <;> simp [loadType]
  | store op => cases op <;> simp [storeType]
  | aluImm op => cases op <;> simp [aluImmType]
  | shift op => cases op <;> simp [shiftType]
  | alu op => cases op <;> simp [aluType]
  | csr op => cases op <;> simp [csrType]
  | csrImm op => cases op <;> simp [csrImmType]
  | system op => cases op <;> simp [systemType]
  | amo op => cases op <;> simp [amoInstrType]
  | _ => simp

/-- A record that is none of an illegal instruction is latched as it is. -/
theorem type_ne_invalid {d : IdEx} {i : Instr} (h : Decodes f pc i d.expanded ∨ ClearsOnly i d) :
    d.type ≠ .invalid := by
  rcases h with hdec | ⟨-, -, htype, -⟩
  · have htype : d.type = instrType i := hdec.type
    rw [htype]
    exact (instrType_ne i).1
  · rw [htype]
    exact InstrType.noConfusion

/-- A word that is decoded as the instruction it means. -/
theorem recordOf_word {i : Instr} (hfault : NoFetchFault j) (hwide : j.ifIdInst &&& 3 = 3)
    (hmeans : Means j.ifIdInst i 4)
    (h : Decodes f j.ifIdPc i (decode f j.ifIdPc j.ifIdInst) ∨
      ClearsOnly i (decode f j.ifIdPc j.ifIdInst)) :
    RecordOf f j.ifIdPc j.ifIdInst i (latch f j) := by
  obtain ⟨htrap, hflush, hpc, hlen⟩ := decode_plain f j.ifIdPc j.ifIdInst
  have hdec := h.imp_left IdEx.expanded_of_wide
  have hlatch : latch f j = decode f j.ifIdPc j.ifIdInst :=
    latch_of_decodes hfault (if_pos hwide) (type_ne_invalid hdec) hflush
  rw [hlatch]
  refine ⟨?_, ⟨htrap, hflush, hpc⟩, hdec⟩
  rw [IdEx.len, hlen]
  exact hmeans

/-- A halfword that is decompressed as the instruction it means. -/
theorem recordOf_half {i : Instr} (hfault : NoFetchFault j) (hhalf : ¬ j.ifIdInst &&& 3 = 3)
    (hmeans : Means j.ifIdInst i 2) {d : IdEx}
    (hd : decompress f j.ifIdPc (j.ifIdInst &&& 0x0000ffff) = d)
    (hplain : d.onTrap = false ∧ d.flush = false)
    (h : Decodes f j.ifIdPc i d.expanded ∨ ClearsOnly i d) :
    RecordOf f j.ifIdPc j.ifIdInst i (latch f j) := by
  obtain ⟨hpc, -⟩ := decompress_marked f j.ifIdPc (j.ifIdInst &&& 0x0000ffff)
  have hlatch : latch f j = d :=
    latch_of_decodes hfault ((if_neg hhalf).trans hd) (type_ne_invalid h) hplain.2
  rw [hlatch]
  refine ⟨?_, ⟨hplain.1, hplain.2, hd ▸ hpc⟩, h⟩
  rw [IdEx.len, ← hd, decompress_isCompressed]
  exact hmeans

/-- A legal halfword is latched as the instruction that it stands for. -/
theorem recordOf_compressed {c : CInstr} (hfault : NoFetchFault j)
    (hhalf : ¬ j.ifIdInst &&& 3 = 3) (hc : c.encode = j.ifIdInst.setWidth 16) :
    RecordOf f j.ifIdPc j.ifIdInst c.expand (latch f j) := by
  have hword : decompress f j.ifIdPc (j.ifIdInst &&& 0x0000ffff) =
      decompress f j.ifIdPc (cword c.fields) := by
    rw [← cword_cfields, cword, Rv32.half_cfields, ← hc]
    rfl
  have hmeans : Means j.ifIdInst c.expand 2 := .encodes (.compressed hc)
  by_cases hnop : c = .addi 0 0
  · subst hnop
    have hrecord : decompress f j.ifIdPc (cword (CInstr.addi 0 0).fields) =
        withOperands f { decompressStart j.ifIdPc (CInstr.addi 0 0).fields with
          type := .nop, ctype := .cNop, writesRd := false } := by
      rw [decompress_q1 rfl, decompressQ1_nop]
    exact recordOf_half hfault hhalf hmeans (hword.trans hrecord) ⟨rfl, rfl⟩
      (.inr ⟨0, rfl, rfl, rfl⟩)
  · have hdec : Decodes f j.ifIdPc c.expand (decompress f j.ifIdPc (cword c.fields)).expanded :=
      decompress_decodes c hnop
    exact recordOf_half hfault hhalf hmeans hword ⟨hdec.onTrap, hdec.flush⟩ (.inl hdec)

/-- The encodings of 32 bits end in `11`. -/
theorem encode_and_three (i : Instr) : i.encode &&& 3 = 3 := by
  have hopcode : i.fields.opcode.toNat % 4 = 3 := by
    cases i <;> simp [Instr.fields, Fields.upper, Fields.jump, Fields.immediate, Fields.branch,
      Fields.store]
  apply BitVec.eq_of_toNat_eq
  rw [Bits.and_ones_toNat (n := 2) _ 3 rfl, Instr.encode, Fields.toNat_word]
  change _ = 3
  omega

/-- The halfwords do not. -/
theorem encode_op_ne (c : CInstr) {w : BitVec 32} (h : c.encode = w.setWidth 16) :
    ¬ w &&& 3 = 3 := by
  have hop : c.fields.op.toNat ≠ 3 := by cases c <;> simp
  have hlt := c.fields.op.isLt
  have hnat := congrArg BitVec.toNat h
  rw [CInstr.encode, Rv32.CFields.toNat_half, BitVec.toNat_setWidth] at hnat
  intro hwide
  have hlow := congrArg BitVec.toNat hwide
  rw [Bits.and_ones_toNat (n := 2) _ 3 rfl] at hlow
  change _ = 3 at hlow
  omega

/-- Whatever a word means is what Decode latches of it, if it was fetched without a fault. -/
theorem recordOf_means {i : Instr} {len : BitVec 32} (hfault : NoFetchFault j)
    (h : Means j.ifIdInst i len) : RecordOf f j.ifIdPc j.ifIdInst i (latch f j) := by
  cases h with
  | encodes h =>
    cases h with
    | wide hi =>
      exact recordOf_word hfault (hi ▸ encode_and_three i) (.encodes (.wide hi))
        (.inl (decodes_of_encode f _ hi))
    | compressed hc => exact recordOf_compressed hfault (encode_op_ne _ hc) hc
  | word hwide hover =>
    have hstand := decode_standIn f j.ifIdPc hover
    rw [Rv32.word_fields] at hstand
    exact recordOf_word hfault hwide (.word hwide hover) hstand
  | half hhalf hover =>
    have hstand := decompress_standIn f j.ifIdPc hover
    rw [cword_cfields] at hstand
    exact recordOf_half hfault hhalf (.half hhalf hover) rfl ⟨hstand.onTrap, hstand.flush⟩
      (.inl hstand)

/-- A legal or an overlooked word means something. -/
theorem exists_means {w : BitVec 32} (h : Illegal w → Overlooks w) : ∃ i len, Means w i len := by
  unfold Illegal Overlooks at h
  by_cases hwide : w &&& 3 = 3
  · rw [if_pos hwide, if_pos hwide] at h
    by_cases hlegal : Legal w
    · obtain ⟨i, hi⟩ := hlegal
      exact ⟨i, _, .encodes (.wide hi)⟩
    · exact ⟨_, _, .word hwide (h hlegal)⟩
  · rw [if_neg hwide, if_neg hwide] at h
    by_cases hlegal : Rv32.CLegal (w.setWidth 16)
    · obtain ⟨c, hc⟩ := hlegal
      exact ⟨_, _, .encodes (.compressed hc)⟩
    · exact ⟨_, _, .half hwide (h hlegal)⟩

/-- What Decode latches of a word that was fetched without a fault: an instruction that it
means, if it is legal or overlooked. -/
theorem recordOf_latch (hfault : NoFetchFault j) (h : Illegal j.ifIdInst → Overlooks j.ifIdInst) :
    ∃ i, RecordOf f j.ifIdPc j.ifIdInst i (latch f j) := by
  obtain ⟨i, len, hmeans⟩ := exists_means h
  exact ⟨i, recordOf_means hfault hmeans⟩

/-- A word that means something is legal or overlooked. -/
theorem Means.known {w len : BitVec 32} {i : Instr} (h : Means w i len) :
    Illegal w → Overlooks w := by
  unfold Illegal Overlooks
  cases h with
  | encodes h =>
    cases h with
    | wide hi =>
      have hwide : w &&& 3 = 3 := hi ▸ encode_and_three i
      rw [if_pos hwide]
      exact fun hillegal => absurd ⟨i, hi⟩ hillegal
    | compressed hc =>
      rw [if_neg (encode_op_ne _ hc)]
      exact fun hillegal => absurd ⟨_, hc⟩ hillegal
  | word hwide hover =>
    rw [if_pos hwide, if_pos hwide]
    exact fun _ => hover
  | half hhalf hover =>
    rw [if_neg hhalf, if_neg hhalf]
    exact fun _ => hover

/-- Decode refuses the words that mean nothing. -/
theorem refused_latch_iff_no_meaning (hfault : NoFetchFault j) :
    Refused (latch f j) ↔ ∀ i len, ¬ Means j.ifIdInst i len := by
  constructor
  · intro hrefused i len hmeans
    by_cases hillegal : Illegal j.ifIdInst
    · exact (refused_latch_iff hfault hillegal).mp hrefused (hmeans.known hillegal)
    · obtain ⟨i, hrecord⟩ := recordOf_latch (f := f) hfault fun h => absurd h hillegal
      cases hrecord.plain.1.symm.trans hrefused.1
  · intro hnone
    by_cases hknown : Illegal j.ifIdInst → Overlooks j.ifIdInst
    · obtain ⟨i, hrecord⟩ := recordOf_latch (f := f) hfault hknown
      exact absurd hrecord.means (hnone i _)
    · rw [Classical.not_imp] at hknown
      exact (refused_latch_iff hfault hknown.1).mpr hknown.2

end

namespace RecordOf

variable {e : Exec} {x : ExecIn} {c : ExecComb} {f : Forward} {w : BitVec 32} {i : Instr}
  {A : BitVec 5 → BitVec 32}

/-- The effect of a latched instruction that EXEC executes without a trap or a stall. -/
theorem exec (h : RecordOf f x.exPc w i x.idEx) (hfile : f.operand = A) (hzero : A 0 = 0)
    (hanswers : Exec.Answers x i) (hc : c = e.execType x (Exec.executeStart x))
    (hgo : c.onTrap = false ∧ c.stall = false) :
    e.hartAfter x c A = i.exec x.idEx.len ⟨x.exPc, Regs.ofFun A⟩ (e.gotOf x c) := by
  have hread : f.operand = (Regs.ofFun A).read := hfile.trans (Regs.ofFun_read hzero).symm
  rcases h.decodes with hdec | ⟨rd, rfl, htype, hdest⟩
  · exact (Exec.Works.mk hdec hread hanswers).exec hgo hc
  · have hack : x.dmmuRsp.mmuRspAck = false :=
      Bool.eq_false_of_not_eq_true fun hack => hanswers.access hack rfl
    rw [Exec.execType_nop htype] at hc
    refine Exec.hartAfter_of_through hdest hgo (hc ▸ ⟨rfl, rfl⟩) (hc ▸ rfl) rfl fun rd hrd => ?_
    rw [Exec.rdValue_of_no_answer hack, hc]
    change 0 = Rv32.Alu.add.result ((Regs.ofFun A).read 0) 0
    rw [Rv32.Alu.add_result, (Regs.ofFun A).read_zero]
    rfl

/-- Calls and breakpoints trap. -/
theorem not_calls (h : RecordOf f x.exPc w i x.idEx)
    (htrap : (e.execType x (Exec.executeStart x)).onTrap = false) : ¬ i.Calls := by
  rcases h.decodes with hdec | ⟨rd, rfl, -⟩
  · have htype : x.idEx.type = instrType i := hdec.type
    intro hcalls
    cases i with
    | system op =>
      cases op with
      | ecall =>
        rw [Exec.execType_ecall htype] at htrap
        cases htrap
      | ebreak =>
        rw [Exec.execType_ebreak htype] at htrap
        cases htrap
      | _ => exact hcalls
    | _ => exact hcalls
  · exact id

/-- An instruction raises one of its own exceptions. A jump at an even address raises none. -/
theorem cause_mem (h : RecordOf f x.exPc w i x.idEx) (hd : Decoded x.idEx)
    (heven : Bits.EvenWord x.idEx.pc)
    (hrsp : x.dmmuRsp.mmuRspFault ≠ 0 → x.dmmuRsp.mmuRspFault.setWidth 32 ∈ i.causes)
    (hc : c = e.execType x (Exec.executeStart x)) (htrap : c.onTrap = true) :
    c.cause ∈ i.causes := by
  have hjump {c' : ExecComb} {t : BitVec 32} (ht : t ∈ x.idEx.jumpTarget)
      (hno : c'.onTrap = false) : (c'.jump t).onTrap = false :=
    Exec.jump_onTrap_of_even hno (hd.even_jumpTarget heven ht)
  have hno {P : Prop} (hfalse : c.onTrap = false) : P := by
    rw [hfalse] at htrap
    cases htrap
  rcases h.decodes with hdec | ⟨rd, rfl, htype, -⟩
  case inr =>
    rw [Exec.execType_nop htype] at hc
    exact hno (hc ▸ rfl)
  have ht : x.idEx.type = instrType i := hdec.type
  have haccess (hi : accessKinds i ≠ (false, false, false)) : c.cause ∈ i.causes := by
    have hgroup := Exec.group_of_accessKinds hi
    rw [← ht] at hgroup
    rw [Exec.execType_access hgroup] at hc
    have hfault : x.dmmuRsp.mmuRspFault ≠ 0 := by
      rw [hc] at htrap
      exact bne_iff_ne.mp htrap
    rw [hc]
    exact hrsp hfault
  have hillegal (hcause : c.cause = ExceptionCause.illegalInstr.code) : c.cause ∈ [2#32] :=
    List.mem_singleton.mpr hcause
  have hcsr {t : InstrType} (htype : x.idEx.type = t) (hcsr : t.IsCsr) : c.cause ∈ [2#32] := by
    rw [← htype] at hcsr
    obtain ⟨write, hwrite⟩ := Exec.execType_of_csr (e := e) (c := Exec.executeStart x) hcsr
    rw [hwrite] at hc
    rcases e.execCsr_result x (Exec.executeStart x) write with ⟨v, b, hread⟩ | ⟨a, hill⟩
    · exact hno (by rw [hc, hread]; rfl)
    · exact hillegal (by rw [hc, hill]; rfl)
  cases i with
  | lui rd imm => exact hno (by rw [hc, Exec.execType_lui ht]; rfl)
  | auipc rd imm => exact hno (by rw [hc, Exec.execType_auipc ht]; rfl)
  | jal rd offset =>
    refine hno ?_
    rw [hc, Exec.execType_jal ht]
    exact hjump (by rw [IdEx.jumpTarget, ht]; rfl) rfl
  | jalr rd rs1 imm =>
    refine hno ?_
    rw [hc, Exec.execType_jalr ht]
    exact hjump (by rw [IdEx.jumpTarget, ht]; rfl) rfl
  | branch op rs1 rs2 offset =>
    refine hno ?_
    rw [hc, Exec.execType_branch ht]
    unfold ExecComb.branch
    split_ifs
    · exact hjump (by rw [IdEx.jumpTarget, ht]; cases op <;> rfl) rfl
    · rfl
  | load op rd rs1 imm => exact haccess (by simp)
  | store op rs1 rs2 imm => exact haccess (by simp)
  | aluImm op rd rs1 imm => exact hno (by rw [hc, Exec.execType_aluImm ht]; rfl)
  | shift op rd rs1 shamt =>
    exact hno (by rw [hc, Exec.execType_shift ht (hdec.shamt shamt rfl)]; rfl)
  | alu op rd rs1 rs2 =>
    cases hop : isMuldiv op with
    | false => exact hno (by rw [hc, Exec.execType_alu ht hop]; rfl)
    | true =>
      obtain ⟨m, hm, -⟩ := Exec.exists_mulDiv hop
      exact hno (by rw [hc, Exec.execType_typeOf (ht.trans hm)]; rfl)
  | fence imm rd rs1 => exact hno (by rw [hc, Exec.execType_fence ht]; rfl)
  | fenceI imm rd rs1 => exact hno (by rw [hc, Exec.execType_fenceI ht])
  | csr op rd rs1 addr => exact hcsr ht (Exec.isCsr_csrType op)
  | csrImm op rd uimm addr => exact hcsr ht (Exec.isCsr_csrImmType op)
  | system op =>
    cases op with
    | ecall => exact hc ▸ Exec.execType_ecall_cause ht
    | ebreak => exact hc ▸ Exec.execType_ebreak_cause ht
    | wfi => exact hillegal (hc ▸ Exec.execType_privileged_cause rfl (.inl ht) (hc ▸ htrap))
    | sret => exact hillegal (hc ▸ Exec.execType_privileged_cause rfl (.inr (.inl ht)) (hc ▸ htrap))
    | mret => exact hno (by rw [hc, Exec.execType_mret ht]; rfl)
  | sfenceVma rs1 rs2 =>
    exact hillegal (hc ▸ Exec.execType_privileged_cause rfl (.inr (.inr ht)) (hc ▸ htrap))
  | lr aqrl rd rs1 => exact haccess (by simp)
  | sc aqrl rd rs1 rs2 => exact haccess (by simp)
  | amo op aqrl rd rs1 rs2 => exact haccess (by simp)

end RecordOf

/-- EXEC implements the instruction set. Whatever the state of EXEC and the inputs of the
cycle: an instruction that Decode latched with operands from the file `A`, and that EXEC
executes at its address without a trap or a stall, is one that its word means, and it takes
the pc and the registers to what the instruction set gives, provided that the DMMU and MEXT
answer it. -/
theorem exec_implements_isa (e : Exec) (x : ExecIn) (f : Forward) (j : IfId)
    (A : BitVec 5 → BitVec 32) (hlatch : x.idEx = latch f j) (hpc : x.exPc = j.ifIdPc)
    (hfile : f.operand = A) (hzero : A 0 = 0) (hfault : NoFetchFault j)
    (hmeans : Illegal j.ifIdInst → Overlooks j.ifIdInst) (hrst : x.rst = false)
    (hgo : (e.execComb x).onTrap = false ∧ (e.execComb x).stall = false) :
    ∃ i, Means j.ifIdInst i x.idEx.len ∧ ¬ i.Calls ∧ (Exec.Answers x i →
      e.hartAfter x (e.execComb x) A =
        i.exec x.idEx.len ⟨x.exPc, Regs.ofFun A⟩ (e.gotOf x (e.execComb x))) := by
  obtain ⟨i, hrecord⟩ := recordOf_latch (f := f) hfault hmeans
  rw [← hlatch, ← hpc] at hrecord
  have hexec : e.execComb x = e.execType x (Exec.executeStart x) := by
    rcases e.execComb_cases x with ⟨hno, -⟩ | ⟨-, cause, -, hc⟩ | ⟨-, hno, -⟩ | ⟨-, -, hno, -⟩ |
      ⟨-, -, -, hc⟩
    · cases hrst.symm.trans hno
    · rw [hc] at hgo
      cases hgo.1
    · cases hrecord.plain.2.1.symm.trans hno
    · cases hrecord.plain.1.symm.trans hno
    · exact hc
  refine ⟨i, hrecord.means, hrecord.not_calls (hexec ▸ hgo.1), fun hanswers => ?_⟩
  exact hrecord.exec hfile hzero hanswers hexec hgo

/-- `ADDI x1, x0, 5`, which the ISA takes from a cleared file to a file with 5 in `x1`. -/
theorem exec_implements_isa_addi :
    let j : IfId := { ifIdInst := 0x00500093 }
    let x : ExecIn := { idEx := latch {} j }
    let e : Exec := {}
    (∃ i, Means j.ifIdInst i x.idEx.len ∧ ¬ i.Calls ∧ (Exec.Answers x i →
      e.hartAfter x (e.execComb x) (fun _ => 0) =
        i.exec x.idEx.len ⟨x.exPc, Regs.ofFun fun _ => 0⟩ (e.gotOf x (e.execComb x)))) ∧
      (e.hartAfter x (e.execComb x) fun _ => 0).regs.read 1 = 5 := by
  intro j x e
  have hmeans : Illegal j.ifIdInst → Overlooks j.ifIdInst := by
    rw [Illegal, if_pos (by decide)]
    exact fun hillegal => absurd ⟨.aluImm .addi 1 0 5, by decide⟩ hillegal
  have hfault : NoFetchFault j := by
    unfold NoFetchFault
    decide
  refine ⟨exec_implements_isa e x {} j _ rfl rfl ?_ rfl hfault hmeans rfl ?_, by decide⟩
  · funext rs
    rfl
  · decide

end Turtle
