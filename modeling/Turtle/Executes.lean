import Turtle.CompressedEffect
import Turtle.EvenPc
import Turtle.Exec.CsrFacts
import Turtle.Forwarding
import Turtle.IllegalTraps
import Turtle.Lib.Rv32Hart
import Turtle.MextHandshake

/-!
# EXEC does what the instructions say

An instruction that leaves EXEC without a trap takes the hart to the state that the
instruction set gives. The record comes from either decoder, and what EXEC cannot know
by itself, the answers of the DMMU and of MEXT, is for the instruction that asked.
-/

namespace Turtle

open Rv32 (CInstr Encodes Hart Instr Regs)

/-- The number of bytes of the instruction of a record. -/
def IdEx.len (d : IdEx) : BitVec 32 := if d.isCompressed then 2 else 4

/-- What a record writes, whether it was decoded or decompressed. -/
theorem Decodes.dest_of_expanded {f : Forward} {pc : BitVec 32} {i : Instr} {d : IdEx}
    (h : Decodes f pc i d.expanded) : d.dest = i.rd.filter (· != 0) := by
  have hdest : d.dest = d.expanded.dest := by
    unfold IdEx.dest IdEx.expanded
    simp
  rw [hdest, h.dest_eq]

namespace Core

/-- The update of the sequential file, by the register that an output writes. -/
theorem retire_eq_dest (o : ExecOut) (A : BitVec 5 → BitVec 32) : retire o A =
    match o.dest with
    | some rd => Function.update A rd o.exRdVal
    | none => A := by
  unfold retire ExecOut.dest
  split_ifs <;> rfl

end Core

namespace Exec

/-- What an instruction reads outside the hart: the address of a return, the answer of the
DMMU, or what EXEC finds in a CSR. -/
def gotOf (e : Exec) (x : ExecIn) (c : ExecComb) : BitVec 32 :=
  if c.csrMret || c.csrSret then e.npcOut x c
  else if x.dmmuRsp.mmuRspAck then x.dmmuRsp.mmuRspRdata
  else c.exRdVal

/-- The answers that EXEC sees are for the instruction `i` in its record: the DMMU answers
accesses only, with no more bytes than a load reads, and MEXT answers with the result. -/
structure Answers (x : ExecIn) (i : Instr) : Prop where
  access : x.dmmuRsp.mmuRspAck = true → accessKinds i ≠ (false, false, false)
  bytes : ∀ op rd rs1 imm, i = .load op rd rs1 imm → x.dmmuRsp.mmuRspAck = true →
    x.dmmuRsp.mmuRspRdata.toNat < 2 ^ (8 * op.size)
  result : ∀ op, x.idEx.type = Mext.typeOf op → x.mextRspAck = true →
    x.mextResult = op.result x.idEx.rs1Val x.idEx.rs2Val

variable {e : Exec} {x : ExecIn} {c : ExecComb} {f : Forward} {i : Instr} {A : BitVec 5 → BitVec 32}

/-- The state of the hart after a cycle. -/
def hartAfter (e : Exec) (x : ExecIn) (c : ExecComb) (A : BitVec 5 → BitVec 32) : Hart :=
  ⟨(e.execOut x c).npc, Regs.ofFun (Core.retire (e.execOut x c) A)⟩

/-- A decision that neither traps nor stalls has the effect of an instruction if the next
pc and the value for the register are the ones of the instruction. -/
theorem hartAfter_eq (hdest : x.idEx.dest = i.rd.filter (· != 0))
    (hgo : c.onTrap = false ∧ c.stall = false)
    (hnpc : e.npcOut x c = i.next x.exPc x.idEx.len (Regs.ofFun A) (e.gotOf x c))
    (hval : ∀ rd ∈ i.rd, (c.csrSret || c.csrMret) = false ∧
      rdValue x c = i.value x.exPc x.idEx.len (Regs.ofFun A) (e.gotOf x c)) :
    e.hartAfter x c A = i.exec x.idEx.len ⟨x.exPc, Regs.ofFun A⟩ (e.gotOf x c) := by
  obtain ⟨htrap, hstall⟩ := hgo
  have hregs : Regs.ofFun (Core.retire (e.execOut x c) A) =
      (i.exec x.idEx.len ⟨x.exPc, Regs.ofFun A⟩ (e.gotOf x c)).regs := by
    rw [Core.retire_eq_dest, execOut_dest, htrap, hstall, hdest, Instr.exec]
    cases hrd : i.rd with
    | none => simp
    | some rd =>
      obtain ⟨hret, hvalue⟩ := hval rd hrd
      by_cases hzero : rd = 0
      · subst hzero
        simp [Option.filter]
      · have hval' : (e.execOut x c).exRdVal = rdValue x c := by
          simp [execOut, htrap, hstall, Bool.or_eq_false_iff.mp hret]
        rw [Bool.false_or, Bool.or_false, hret, Option.filter_some_pos (by simpa using hzero)]
        simp only [Bool.false_eq_true, if_false]
        rw [Regs.ofFun_update hzero, hval', hvalue]
  exact Hart.ext hnpc hregs

/-- The same for an instruction that goes on behind itself. -/
theorem hartAfter_of_through (hdest : x.idEx.dest = i.rd.filter (· != 0))
    (hgo : c.onTrap = false ∧ c.stall = false) (hret : c.csrSret = false ∧ c.csrMret = false)
    (hnpc : c.npc = x.exPc + x.idEx.len)
    (hnext : i.next x.exPc x.idEx.len (Regs.ofFun A) (e.gotOf x c) = x.exPc + x.idEx.len)
    (hval : ∀ rd ∈ i.rd, rdValue x c = i.value x.exPc x.idEx.len (Regs.ofFun A) (e.gotOf x c)) :
    e.hartAfter x c A = i.exec x.idEx.len ⟨x.exPc, Regs.ofFun A⟩ (e.gotOf x c) := by
  refine hartAfter_eq hdest hgo ?_ fun rd hrd => ⟨?_, hval rd hrd⟩
  · rw [hnext, npcOut, hgo.1, hgo.2, hret.1, hret.2]
    exact hnpc
  · rw [hret.1, hret.2]
    rfl

theorem rdValue_of_no_answer (h : x.dmmuRsp.mmuRspAck = false) : rdValue x c = c.exRdVal := by
  rw [rdValue, h]
  rfl

/-- EXEC works on the instruction `i`, whose operands are in the file `A`. -/
structure Works (x : ExecIn) (f : Forward) (i : Instr) (A : BitVec 5 → BitVec 32) : Prop where
  record : Decodes f x.exPc i x.idEx.expanded
  file : f.operand = (Regs.ofFun A).read
  answers : Answers x i

namespace Works

variable (h : Works x f i A)

include h

theorem type : x.idEx.type = instrType i := h.record.type

theorem pc : x.idEx.pc = x.exPc := h.record.pc

theorem imm {v : BitVec 32} (hv : v ∈ i.imm) : x.idEx.imm = v := h.record.imm v hv

theorem rs1 {k : BitVec 5} (hk : k ∈ i.rs1) : x.idEx.rs1Val = (Regs.ofFun A).read k := by
  rw [← h.file]
  exact (h.record.rs1 k hk).2

theorem rs2 {k : BitVec 5} (hk : k ∈ i.rs2) : x.idEx.rs2Val = (Regs.ofFun A).read k := by
  rw [← h.file]
  exact (h.record.rs2 k hk).2

theorem dest : x.idEx.dest = i.rd.filter (· != 0) := h.record.dest_of_expanded

/-- The DMMU does not answer instructions that do not access memory. -/
theorem no_answer (hi : accessKinds i = (false, false, false)) : x.dmmuRsp.mmuRspAck = false :=
  Bool.eq_false_of_not_eq_true fun hack => h.answers.access hack hi

/-- An instruction that computes a value. -/
theorem hartAfter_value {v : BitVec 32} (hi : accessKinds i = (false, false, false))
    (hc : c = { executeStart x with exRdVal := v })
    (hnext : i.next x.exPc x.idEx.len (Regs.ofFun A) (e.gotOf x c) = x.exPc + x.idEx.len)
    (hval : i.value x.exPc x.idEx.len (Regs.ofFun A) (e.gotOf x c) = v) :
    e.hartAfter x c A = i.exec x.idEx.len ⟨x.exPc, Regs.ofFun A⟩ (e.gotOf x c) := by
  refine hartAfter_of_through h.dest (hc ▸ ⟨rfl, rfl⟩) (hc ▸ ⟨rfl, rfl⟩) (hc ▸ rfl) hnext
    fun _ _ => ?_
  rw [hval, rdValue_of_no_answer (h.no_answer hi), hc]

end Works

/-! ### The switch, by groups of instructions -/

/-- The amount of a shift, as EXEC masks it. -/
theorem shiftAmount (v : BitVec 32) : (v &&& 0x1F).toNat = v.toNat % 32 := by
  rw [shamt_toNat, BitVec.toNat_setWidth]

theorem execType_alu {op : Rv32.Alu} (ht : x.idEx.type = aluType op) (hop : isMuldiv op = false) :
    e.execType x c = { c with exRdVal := op.result x.idEx.rs1Val x.idEx.rs2Val } := by
  unfold execType
  dsimp only
  rw [ht]
  cases op
  case add => rw [Rv32.Alu.add_result]; rfl
  case sub => rw [Rv32.Alu.sub_result]; rfl
  case sll => rw [Rv32.Alu.sll_result, ← shiftAmount]; rfl
  case slt => rw [Rv32.Alu.slt_result]; rfl
  case sltu => rw [Rv32.Alu.sltu_result]; rfl
  case srl => rw [Rv32.Alu.srl_result, ← shiftAmount]; rfl
  case sra => rw [Rv32.Alu.sra_result, ← shiftAmount]; rfl
  case xor => rfl
  case or => rfl
  case and => rfl
  all_goals cases hop

theorem execType_aluImm {op : Rv32.AluImm} (ht : x.idEx.type = aluImmType op) :
    e.execType x c = { c with exRdVal := op.alu.result x.idEx.rs1Val x.idEx.imm } := by
  unfold execType
  dsimp only
  rw [ht]
  cases op
  case addi => rw [Rv32.AluImm.alu, Rv32.Alu.add_result]; rfl
  case slti => rw [Rv32.AluImm.alu, Rv32.Alu.slt_result]; rfl
  case sltiu => rw [Rv32.AluImm.alu, Rv32.Alu.sltu_result]; rfl
  all_goals rfl

theorem execType_shift {op : Rv32.Shift} (ht : x.idEx.type = shiftType op) {shamt : BitVec 5}
    (hshamt : x.idEx.imm.setWidth 5 = shamt) :
    e.execType x c = { c with exRdVal := op.alu.result x.idEx.rs1Val (shamt.setWidth 32) } := by
  have hamount : (shamt.setWidth 32).toNat % 32 = (x.idEx.imm &&& 0x1F).toNat := by
    have hlt := shamt.isLt
    rw [shamt_toNat, hshamt, BitVec.toNat_setWidth]
    omega
  unfold execType
  dsimp only
  rw [ht]
  cases op
  case slli => rw [Rv32.Shift.alu, Rv32.Alu.sll_result, hamount]; rfl
  case srli => rw [Rv32.Shift.alu, Rv32.Alu.srl_result, hamount]; rfl
  case srai => rw [Rv32.Shift.alu, Rv32.Alu.sra_result, hamount]; rfl

theorem execType_lui (ht : x.idEx.type = .lui) :
    e.execType x c = { c with exRdVal := x.idEx.imm } := by
  unfold execType
  dsimp only
  rw [ht]

theorem execType_auipc (ht : x.idEx.type = .auipc) :
    e.execType x c = { c with exRdVal := x.idEx.pc + x.idEx.imm } := by
  unfold execType
  dsimp only
  rw [ht]

theorem execType_jal (ht : x.idEx.type = .jal) :
    e.execType x c = execJump x c (x.idEx.pc + x.idEx.imm) := by
  unfold execType
  dsimp only
  rw [ht]

theorem execType_jalr (ht : x.idEx.type = .jalr) :
    e.execType x c = execJump x c ((x.idEx.rs1Val + x.idEx.imm) &&& ~~~1) := by
  unfold execType
  dsimp only
  rw [ht]

theorem execType_branch {op : Rv32.Branch} (ht : x.idEx.type = branchType op) :
    e.execType x c = c.branch x.idEx (op.taken x.idEx.rs1Val x.idEx.rs2Val) := by
  unfold execType
  dsimp only
  rw [ht, Rv32.Branch.taken_eq]
  cases op <;> rfl

theorem execType_fence (ht : x.idEx.type = .fence) : e.execType x c = c := by
  unfold execType
  dsimp only
  rw [ht]

theorem execType_fenceI (ht : x.idEx.type = .fenceI) :
    e.execType x c = { c with flush := true, cause := 0, onTrap := false } := by
  unfold execType
  dsimp only
  rw [ht]

theorem execType_nop (ht : x.idEx.type = .nop) : e.execType x c = c := by
  unfold execType
  dsimp only
  rw [ht]

theorem execType_ecall (ht : x.idEx.type = .ecall) : (e.execType x c).onTrap = true := by
  unfold execType
  dsimp only
  rw [ht]

theorem execType_ebreak (ht : x.idEx.type = .ebreak) : (e.execType x c).onTrap = true := by
  unfold execType
  dsimp only
  rw [ht]
  rfl

theorem execType_wfi (ht : x.idEx.type = .wfi) (h : (e.execType x c).onTrap = false) :
    ∃ b, e.execType x c = { c with stall := b } := by
  unfold execType at h ⊢
  dsimp only at h ⊢
  rw [ht] at h ⊢
  dsimp only at h ⊢
  split at h
  · cases h
  · rename_i hallowed
    exact ⟨_, if_neg hallowed⟩

theorem execType_sret (ht : x.idEx.type = .sret) (h : (e.execType x c).onTrap = false) :
    e.execType x c = { c with csrSret := true, flush := true } := by
  unfold execType at h ⊢
  dsimp only at h ⊢
  rw [ht] at h ⊢
  dsimp only at h ⊢
  split at h
  · cases h
  · rename_i hallowed
    exact if_neg hallowed

theorem execType_mret (ht : x.idEx.type = .mret) :
    e.execType x c = { c with csrMret := true, flush := true } := by
  unfold execType
  dsimp only
  rw [ht]

theorem execType_sfenceVma (ht : x.idEx.type = .sfenceVma) (h : (e.execType x c).onTrap = false) :
    e.execType x c = { c with tlbFlush := some (x.idEx.rs2Val, x.idEx.rs1Val), flush := true,
                              cause := 0, onTrap := false } := by
  unfold execType at h ⊢
  dsimp only at h ⊢
  rw [ht] at h ⊢
  dsimp only at h ⊢
  split at h
  · cases h
  · rename_i hallowed
    exact if_neg hallowed

theorem execType_ecall_cause (ht : x.idEx.type = .ecall) :
    (e.execType x c).cause ∈ [8#32, 9#32, 11#32] := by
  unfold execType
  dsimp only
  rw [ht]
  dsimp only
  split_ifs <;> simp [ExceptionCause.code]

theorem execType_ebreak_cause (ht : x.idEx.type = .ebreak) :
    (e.execType x c).cause ∈ [3#32] := by
  unfold execType
  dsimp only
  rw [ht]
  exact List.mem_singleton.mpr rfl

/-- The privileged instructions are illegal or do not trap. -/
theorem execType_privileged_cause (hc : c.onTrap = false)
    (ht : x.idEx.type = .wfi ∨ x.idEx.type = .sret ∨ x.idEx.type = .sfenceVma)
    (h : (e.execType x c).onTrap = true) :
    (e.execType x c).cause = ExceptionCause.illegalInstr.code := by
  have hno {d : ExecComb} (hd : d.onTrap = c.onTrap) (htrap : d.onTrap = true) {P : Prop} : P := by
    rw [hd, hc] at htrap
    cases htrap
  unfold execType at h ⊢
  dsimp only at h ⊢
  rcases ht with ht | ht | ht
  · rw [ht] at h ⊢
    dsimp only at h ⊢
    split_ifs at h ⊢
    · rfl
    · exact hno (d := { c with stall := _ }) rfl h
  · rw [ht] at h ⊢
    dsimp only at h ⊢
    split_ifs at h ⊢
    · rfl
    · exact hno (d := { c with csrSret := true, flush := true }) rfl h
  · rw [ht] at h ⊢
    dsimp only at h ⊢
    split_ifs at h ⊢
    · rfl

theorem isCsr_csrType (op : Rv32.Csr) : (csrType op).IsCsr := by
  cases op <;> simp [csrType, InstrType.IsCsr]

theorem isCsr_csrImmType (op : Rv32.Csr) : (csrImmType op).IsCsr := by
  cases op <;> simp [csrImmType, InstrType.IsCsr]

/-- The multiplications and divisions, as operations of MEXT. -/
theorem exists_mulDiv {op : Rv32.Alu} (h : isMuldiv op = true) : ∃ m : MulDiv.Op,
    aluType op = Mext.typeOf m ∧ ∀ a b, op.result a b = m.result a b := by
  cases op with
  | mul => exact ⟨.mul, rfl, fun _ _ => rfl⟩
  | mulh => exact ⟨.mulh, rfl, fun _ _ => rfl⟩
  | mulhsu => exact ⟨.mulhsu, rfl, fun _ _ => rfl⟩
  | mulhu => exact ⟨.mulhu, rfl, fun _ _ => rfl⟩
  | div => exact ⟨.div, rfl, fun _ _ => rfl⟩
  | divu => exact ⟨.divu, rfl, fun _ _ => rfl⟩
  | rem => exact ⟨.rem, rfl, fun _ _ => rfl⟩
  | remu => exact ⟨.remu, rfl, fun _ _ => rfl⟩
  | _ => cases h

/-- The instructions that access memory. -/
theorem group_of_accessKinds (h : accessKinds i ≠ (false, false, false)) :
    (instrType i).group ∈ [.load, .store, .atomic] := by
  cases i with
  | load op rd rs1 imm => cases op <;> simp [loadType, InstrType.group]
  | store op rs1 rs2 imm => cases op <;> simp [storeType, InstrType.group]
  | lr aqrl rd rs1 => simp [InstrType.group]
  | sc aqrl rd rs1 rs2 => simp [InstrType.group]
  | amo op aqrl rd rs1 rs2 => cases op <;> simp [amoInstrType, InstrType.group]
  | _ => exact absurd rfl h

/-- The sign of the bytes that a load reads, with zeros above them. -/
theorem signExtend_of_lt {v : BitVec 32} {n : ℕ} (hv : v.toNat < 2 ^ (n + 1)) (hn : n < 31) :
    signExtend v (n + 1) = (v.setWidth (n + 1)).signExtend 32 := by
  have hword : (v.setWidth (n + 1)).setWidth 32 = v := by
    apply BitVec.eq_of_toNat_eq
    rw [BitVec.toNat_setWidth, BitVec.toNat_setWidth, Nat.mod_eq_of_lt hv, Nat.mod_eq_of_lt v.isLt]
  rw [← signExtend_setWidth _ hn, hword]

/-- A jump that does not trap. -/
theorem jump_of_no_trap {target : BitVec 32} (h : (c.jump target).onTrap = false) :
    c.jump target = { c with npc := target, branchTaken := true } := by
  unfold ExecComb.jump at h ⊢
  dsimp only at h ⊢
  split at h
  · cases h
  · rename_i heven
    rw [if_neg heven]

/-- A jump to an even target does not trap. -/
theorem jump_onTrap_of_even {target : BitVec 32} (hno : c.onTrap = false)
    (heven : Bits.EvenWord target) : (c.jump target).onTrap = false := by
  have hbit : ¬ target &&& 1 ≠ 0 := mt Bits.and_one_ne_zero_iff.mp (not_not.mpr heven)
  unfold ExecComb.jump
  dsimp only
  rw [if_neg hbit]
  exact hno

/-- A CSR instruction that does not trap. -/
theorem execCsr_of_no_exception {write : Bool} (h : (e.execCsr x c write).onTrap = false) :
    ∃ v b, e.execCsr x c write = { c with csrAccess := true, exRdVal := v, flush := b } := by
  rcases e.execCsr_result x c write with hread | ⟨a, hill⟩
  · exact hread
  · rw [hill] at h
    cases h

namespace Works

variable (h : Works x f i A) (hgo : c.onTrap = false ∧ c.stall = false)

include h hgo

/-- An instruction that accesses memory. -/
theorem hartAfter_access (hi : accessKinds i ≠ (false, false, false))
    (hc : c = e.execType x (executeStart x))
    (hnext : i.next x.exPc x.idEx.len (Regs.ofFun A) (e.gotOf x c) = x.exPc + x.idEx.len)
    (hval : x.dmmuRsp.mmuRspAck = true → ∀ rd ∈ i.rd,
      (if x.idEx.type = .lb then signExtend x.dmmuRsp.mmuRspRdata 8
        else if x.idEx.type = .lh then signExtend x.dmmuRsp.mmuRspRdata 16
        else x.dmmuRsp.mmuRspRdata) =
      i.value x.exPc x.idEx.len (Regs.ofFun A) x.dmmuRsp.mmuRspRdata) :
    e.hartAfter x c A = i.exec x.idEx.len ⟨x.exPc, Regs.ofFun A⟩ (e.gotOf x c) := by
  have hgroup : x.idEx.type.group ∈ [.load, .store, .atomic] := by
    rw [h.type]
    exact group_of_accessKinds hi
  rw [execType_access hgroup] at hc
  have hack : x.dmmuRsp.mmuRspAck = true := by
    have hstall : (!x.dmmuRsp.mmuRspAck) = false := by
      rw [← hgo.2, hc]
    simpa using hstall
  have hgot : e.gotOf x c = x.dmmuRsp.mmuRspRdata := by
    rw [gotOf, hack, hc]
    rfl
  refine hartAfter_of_through h.dest hgo (hc ▸ ⟨rfl, rfl⟩) (hc ▸ rfl) hnext fun rd hrd => ?_
  rw [hgot, ← hval hack rd hrd, rdValue, hack, if_pos rfl]

/-- A jump that leaves the address behind itself in its register. -/
theorem hartAfter_jump {target : BitVec 32} (hi : accessKinds i = (false, false, false))
    (hc : c = execJump x (executeStart x) target)
    (hnext : i.next x.exPc x.idEx.len (Regs.ofFun A) (e.gotOf x c) = target)
    (hval : i.value x.exPc x.idEx.len (Regs.ofFun A) (e.gotOf x c) = x.exPc + x.idEx.len) :
    e.hartAfter x c A = i.exec x.idEx.len ⟨x.exPc, Regs.ofFun A⟩ (e.gotOf x c) := by
  have htrap : (execJump x (executeStart x) target).onTrap = false := by
    rw [← hc, hgo.1]
  rw [execJump] at hc htrap
  have hjump := hc.trans (jump_of_no_trap htrap)
  have hret : c.csrSret = false ∧ c.csrMret = false := by
    rw [hjump]
    exact ⟨rfl, rfl⟩
  refine hartAfter_eq h.dest hgo ?_ fun rd hrd => ⟨by rw [hret.1, hret.2]; rfl, ?_⟩
  · rw [hnext, npcOut, hgo.1, hgo.2, hret.1, hret.2, hjump]
    rfl
  · rw [hval, rdValue_of_no_answer (h.no_answer hi), hjump, ← h.pc]
    rfl

/-- A conditional branch. -/
theorem hartAfter_branch {op : Rv32.Branch} {rs1 rs2 : BitVec 5} {offset : BitVec 12}
    (hi : i = .branch op rs1 rs2 offset)
    (hc : c = (executeStart x).branch x.idEx (op.taken x.idEx.rs1Val x.idEx.rs2Val)) :
    e.hartAfter x c A = i.exec x.idEx.len ⟨x.exPc, Regs.ofFun A⟩ (e.gotOf x c) := by
  subst hi
  rw [h.rs1 rfl, h.rs2 rfl] at hc
  have hrd : ∀ rd ∈ (Instr.branch op rs1 rs2 offset).rd, ∀ P : Prop, P := nofun
  cases htaken : op.taken ((Regs.ofFun A).read rs1) ((Regs.ofFun A).read rs2) with
  | false =>
    rw [htaken] at hc
    refine hartAfter_of_through h.dest hgo (hc ▸ ⟨rfl, rfl⟩) (hc ▸ rfl) ?_ fun rd h => hrd rd h _
    rw [Instr.next_branch, htaken]
    rfl
  | true =>
    rw [htaken, ExecComb.branch, if_pos rfl] at hc
    have hjump := hc.trans (jump_of_no_trap (by rw [← hc, hgo.1]))
    refine hartAfter_eq h.dest hgo ?_ fun rd h => hrd rd h _
    rw [Instr.next_branch, htaken, if_pos rfl, npcOut, hgo.1, hgo.2, hjump, h.pc, h.imm rfl]
    rfl

/-- An instruction on a CSR. -/
theorem hartAfter_csr {write : Bool} (hi : accessKinds i = (false, false, false))
    (hc : c = e.execCsr x (executeStart x) write)
    (hnext : i.next x.exPc x.idEx.len (Regs.ofFun A) (e.gotOf x c) = x.exPc + x.idEx.len)
    (hval : i.value x.exPc x.idEx.len (Regs.ofFun A) (e.gotOf x c) = e.gotOf x c) :
    e.hartAfter x c A = i.exec x.idEx.len ⟨x.exPc, Regs.ofFun A⟩ (e.gotOf x c) := by
  obtain ⟨v, b, hread⟩ := execCsr_of_no_exception (hc ▸ hgo.1)
  rw [hread] at hc
  refine hartAfter_of_through h.dest hgo (hc ▸ ⟨rfl, rfl⟩) (hc ▸ rfl) hnext fun rd hrd => ?_
  rw [hval, rdValue_of_no_answer (h.no_answer hi), gotOf, h.no_answer hi, hc]
  rfl

/-- A multiplication or division. -/
theorem hartAfter_mext {m : MulDiv.Op} (hi : accessKinds i = (false, false, false))
    (ht : x.idEx.type = Mext.typeOf m) (hc : c = e.execType x (executeStart x))
    (hnext : i.next x.exPc x.idEx.len (Regs.ofFun A) (e.gotOf x c) = x.exPc + x.idEx.len)
    (hval : i.value x.exPc x.idEx.len (Regs.ofFun A) (e.gotOf x c) =
      m.result x.idEx.rs1Val x.idEx.rs2Val) :
    e.hartAfter x c A = i.exec x.idEx.len ⟨x.exPc, Regs.ofFun A⟩ (e.gotOf x c) := by
  rw [execType_typeOf ht] at hc
  have hack : x.mextRspAck = true := by
    have hstall : (!x.mextRspAck) = false := by
      rw [← hgo.2, hc]
    simpa using hstall
  refine hartAfter_of_through h.dest hgo (hc ▸ ⟨rfl, rfl⟩) (hc ▸ rfl) hnext fun _ _ => ?_
  rw [hval, rdValue_of_no_answer (h.no_answer hi), hc, h.answers.result m ht hack]

/-- An instruction that EXEC executes without a trap or a stall takes the hart to the state
that the instruction set gives. -/
theorem exec (hc : c = e.execType x (executeStart x)) :
    e.hartAfter x c A = i.exec x.idEx.len ⟨x.exPc, Regs.ofFun A⟩ (e.gotOf x c) := by
  have ht := h.type
  cases i with
  | lui rd imm =>
    rw [execType_lui ht] at hc
    exact h.hartAfter_value rfl hc rfl (h.imm rfl).symm
  | auipc rd imm =>
    rw [execType_auipc ht] at hc
    refine h.hartAfter_value rfl hc rfl ?_
    rw [h.pc, h.imm rfl]
    rfl
  | jal rd offset =>
    refine h.hartAfter_jump hgo rfl (hc.trans (execType_jal ht)) ?_ rfl
    rw [h.pc, h.imm rfl]
    rfl
  | jalr rd rs1 imm =>
    refine h.hartAfter_jump hgo rfl (hc.trans (execType_jalr ht)) ?_ rfl
    rw [h.rs1 rfl, h.imm rfl]
    rfl
  | branch op rs1 rs2 offset =>
    exact h.hartAfter_branch hgo rfl (hc.trans (execType_branch ht))
  | load op rd rs1 imm =>
    refine h.hartAfter_access hgo (by simp) hc rfl fun hack _ _ => ?_
    have hlt := h.answers.bytes op rd rs1 imm rfl hack
    rw [ht]
    cases op with
    | lb => exact signExtend_of_lt hlt (by decide)
    | lh => exact signExtend_of_lt hlt (by decide)
    | lw => rfl
    | lbu => rfl
    | lhu => rfl
  | store op rs1 rs2 imm => exact h.hartAfter_access hgo (by simp) hc rfl nofun
  | aluImm op rd rs1 imm =>
    rw [execType_aluImm ht, h.rs1 rfl, h.imm rfl] at hc
    exact h.hartAfter_value rfl hc rfl rfl
  | shift op rd rs1 shamt =>
    rw [execType_shift ht (h.record.shamt shamt rfl), h.rs1 rfl] at hc
    exact h.hartAfter_value rfl hc rfl rfl
  | alu op rd rs1 rs2 =>
    cases hop : isMuldiv op with
    | false =>
      rw [execType_alu ht hop, h.rs1 rfl, h.rs2 rfl] at hc
      exact h.hartAfter_value rfl hc rfl rfl
    | true =>
      obtain ⟨m, hm, hresult⟩ := exists_mulDiv hop
      refine h.hartAfter_mext hgo rfl (ht.trans hm) hc rfl ?_
      rw [h.rs1 rfl, h.rs2 rfl]
      exact hresult _ _
  | fence imm rd rs1 =>
    rw [execType_fence ht] at hc
    exact hartAfter_of_through h.dest hgo (hc ▸ ⟨rfl, rfl⟩) (hc ▸ rfl) rfl nofun
  | fenceI imm rd rs1 =>
    rw [execType_fenceI ht] at hc
    exact hartAfter_of_through h.dest hgo (hc ▸ ⟨rfl, rfl⟩) (hc ▸ rfl) rfl nofun
  | csr op rd rs1 addr =>
    have hcsr : ∃ write, e.execType x (executeStart x) = e.execCsr x (executeStart x) write :=
      execType_of_csr (ht ▸ isCsr_csrType op)
    obtain ⟨write, hwrite⟩ := hcsr
    exact h.hartAfter_csr hgo rfl (hc.trans hwrite) rfl rfl
  | csrImm op rd uimm addr =>
    have hcsr : ∃ write, e.execType x (executeStart x) = e.execCsr x (executeStart x) write :=
      execType_of_csr (ht ▸ isCsr_csrImmType op)
    obtain ⟨write, hwrite⟩ := hcsr
    exact h.hartAfter_csr hgo rfl (hc.trans hwrite) rfl rfl
  | system op =>
    cases op with
    | ecall => exact absurd hgo.1 (by rw [hc, execType_ecall ht]; decide)
    | ebreak => exact absurd hgo.1 (by rw [hc, execType_ebreak ht]; decide)
    | wfi =>
      obtain ⟨b, hwfi⟩ := execType_wfi ht (hc ▸ hgo.1)
      rw [hwfi] at hc
      exact hartAfter_of_through h.dest hgo (hc ▸ ⟨rfl, rfl⟩) (hc ▸ rfl) rfl nofun
    | sret =>
      have hsret : c.csrSret = true := by rw [hc, execType_sret ht (hc ▸ hgo.1)]
      refine hartAfter_eq h.dest hgo ?_ nofun
      rw [gotOf, hsret, Bool.or_true, if_pos rfl]
      rfl
    | mret =>
      have hmret : c.csrMret = true := by rw [hc, execType_mret ht]
      refine hartAfter_eq h.dest hgo ?_ nofun
      rw [gotOf, hmret, Bool.true_or, if_pos rfl]
      rfl
  | sfenceVma rs1 rs2 =>
    rw [execType_sfenceVma ht (hc ▸ hgo.1)] at hc
    exact hartAfter_of_through h.dest hgo (hc ▸ ⟨rfl, rfl⟩) (hc ▸ rfl) rfl nofun
  | lr aqrl rd rs1 =>
    refine h.hartAfter_access hgo (by simp) hc rfl fun _ _ _ => ?_
    rw [ht]
    rfl
  | sc aqrl rd rs1 rs2 =>
    refine h.hartAfter_access hgo (by simp) hc rfl fun _ _ _ => ?_
    rw [ht]
    rfl
  | amo op aqrl rd rs1 rs2 =>
    refine h.hartAfter_access hgo (by simp) hc rfl fun _ _ _ => ?_
    rw [ht]
    cases op <;> rfl

end Works

end Exec

end Turtle
