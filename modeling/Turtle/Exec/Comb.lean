import Turtle.Decode
import Turtle.Exec.Trap

/-!
# The combinational half of the execute stage

`EXEC::exec_comb` runs at the falling clock edge. It decides whether the cycle
ends in an interrupt, a trap, a stall or a retired instruction, and drives the
signals that the clocked processes sample at the next rising edge.
-/

namespace Turtle

/-- The inputs of `exec_comb`: registered signals and the platform. -/
structure ExecIn where
  rst : Bool := false
  entry : BitVec 32 := 0
  exPc : BitVec 32 := 0
  wbStall : Bool := false
  idEx : IdEx := {}
  dmmuRsp : MmuRsp := {}
  mextRspAck : Bool := false
  mextResult : BitVec 32 := 0
  platform : Platform := {}

/-- The members and locals that `exec_comb` assigns. `mextReq` is the value
written to `mext_req_ack`, if any, and `tlbFlush` the operands of a TLB flush. -/
structure ExecComb where
  onTrap : Bool := false
  stall : Bool := false
  flush : Bool := false
  csrAccess : Bool := false
  csrMret : Bool := false
  csrSret : Bool := false
  cause : BitVec 32 := 0
  tval : BitVec 32 := 0
  epc : BitVec 32 := 0
  branchTaken : Bool := false
  exRdVal : BitVec 32 := 0
  npc : BitVec 32 := 0
  dmemReqAck : Bool := false
  mextReq : Option Bool := none
  tlbFlush : Option (BitVec 32 × BitVec 32) := none
  deriving DecidableEq, Repr

namespace ExecComb

/-- Raise a synchronous exception. -/
def raise (c : ExecComb) (cause : ExceptionCause) (tval : BitVec 32) : ExecComb :=
  { c with onTrap := true, cause := cause.code, tval := tval }

/-- The common end of taken jumps and branches: redirect to `target`, and trap
when it is odd. -/
def jump (c : ExecComb) (target : BitVec 32) : ExecComb :=
  let c := { c with npc := target, branchTaken := true }
  if target &&& 1 ≠ 0 then { c.raise .instrAddrMisaligned target with stall := false } else c

/-- A conditional branch. -/
def branch (c : ExecComb) (idEx : IdEx) (taken : Bool) : ExecComb :=
  if taken then { c with exRdVal := idEx.pc + idEx.imm }.jump (idEx.pc + idEx.imm) else c

end ExecComb

namespace Exec

/-- The address tests that single out the PMP configuration registers. -/
def isPmpConfig (addr : BitVec 12) : Bool :=
  decide (Csr.pmpconfig0 ≤ addr) && decide (addr < Csr.pmpconfig0 + 16)

/-- The address tests that single out the PMP address registers. -/
def isPmpAddr (addr : BitVec 12) : Bool :=
  decide (Csr.pmpaddr0 ≤ addr) && decide (addr < Csr.pmpaddr0 + 64)

/-- The index of a PMP configuration register. -/
def pmpConfigIdx (addr : BitVec 12) : Fin 16 := Fin.ofNat 16 (addr - Csr.pmpconfig0).toNat

/-- The index of a PMP address register. -/
def pmpAddrIdx (addr : BitVec 12) : Fin 64 := Fin.ofNat 64 (addr - Csr.pmpaddr0).toNat

/-- The read of a PMP configuration register: its four bytes, highest first. -/
def readPmpConfig (p : Pmp) (k : Fin 16) : BitVec 32 :=
  [3, 2, 1, 0].foldl (fun v t => (v <<< 8) |||
    (p.pmpconfig (Fin.ofNat 64 (4 * k.val + t))).setWidth 32) 0

/-- The machine-level counters, readable above S-mode or when `mcounteren` lets
S-mode read them. -/
def readCounter (e : Exec) (i : ExecIn) (c : ExecComb) (addr : BitVec 12) (en : BitVec 32) :
    ExecComb :=
  if privS < e.priv ∨ (e.priv = privS ∧ e.csrRegs Csr.mcounteren &&& en ≠ 0) then
    { c with exRdVal := e.csrRegs addr }
  else c.raise .illegalInstr i.idEx.inst

/-- The inner `switch` of the CSR instructions: the value read and its side effects. -/
def readCsr (e : Exec) (i : ExecIn) (c : ExecComb) : ExecComb :=
  let addr := i.idEx.csrAddr
  if addr = Csr.mstatus then { c with exRdVal := e.csrRegs Csr.mstatus &&& Mstatus.mask }
  else if addr = Csr.mip then { c with exRdVal := e.getMip i.platform &&& Mip.rmask }
  else if addr = Csr.mideleg then { c with exRdVal := e.csrRegs Csr.mideleg }
  else if addr = Csr.mcycle then e.readCounter i c Csr.mcycle 1
  else if addr = Csr.mcycleh then e.readCounter i c Csr.mcycleh 1
  else if addr = Csr.minstret then e.readCounter i c Csr.minstret 4
  else if addr = Csr.minstreth then e.readCounter i c Csr.minstreth 4
  else if addr = Csr.sstatus then
    { c with exRdVal := e.csrRegs Csr.mstatus &&& Mstatus.sstatusMask }
  else if addr = Csr.sie then { c with exRdVal := e.csrRegs Csr.mie &&& e.csrRegs Csr.mideleg }
  else if addr = Csr.sip then
    let v := e.csrRegs Csr.mip
    let v := if e.stimecmp < i.platform.mtime then v ||| Mip.stip else v
    let v := if i.platform.sIrq then v ||| Mip.seip else v
    { c with exRdVal := v &&& e.csrRegs Csr.mideleg }
  else if addr = Csr.satp then
    if privS < e.priv ∨ (e.priv = privS ∧ e.csrRegs Csr.mstatus &&& Mstatus.tvm = 0) then
      { c with exRdVal := e.csrRegs Csr.satp, flush := true }
    else c.raise .illegalInstr i.idEx.inst
  else if addr = Csr.cycle then { c with exRdVal := e.csrRegs Csr.mcycle }
  else if addr = Csr.cycleh then { c with exRdVal := e.csrRegs Csr.mcycleh }
  else
    { c with
      exRdVal := if isPmpConfig addr then readPmpConfig e.pmp (pmpConfigIdx addr)
        else if isPmpAddr addr then (e.pmp.pmpaddr (pmpAddrIdx addr)).setWidth 32
        else e.csrRegs addr
      flush := e.priv == 3 && (isPmpConfig addr || isPmpAddr addr) }

/-- The CSR instructions: the privilege and read-only guard, then the read. -/
def execCsr (e : Exec) (i : ExecIn) (c : ExecComb) (csrWrite : Bool) : ExecComb :=
  let addr := i.idEx.csrAddr
  if ((addr >>> 8) &&& 3).setWidth 32 ≤ e.priv ∧
      (addr &&& 0xc00 ≠ 0xc00 ∨ (csrWrite = false ∧ i.idEx.csrVal = 0)) then
    e.readCsr i { c with csrAccess := true }
  else c.raise .illegalInstr i.idEx.inst

/-- `JAL` and `JALR`: the link value and the jump. -/
def execJump (i : ExecIn) (c : ExecComb) (target : BitVec 32) : ExecComb :=
  { c with exRdVal := i.idEx.pc + (if i.idEx.isCompressed then 2 else 4) }.jump target

/-- The `switch` over the instruction type. -/
def execType (e : Exec) (i : ExecIn) (c : ExecComb) : ExecComb :=
  let idEx := i.idEx
  let a := idEx.rs1Val
  let b := idEx.rs2Val
  let mstatus := e.csrRegs Csr.mstatus
  let result (v : BitVec 32) : ExecComb := { c with exRdVal := v }
  let flag (p : Bool) : ExecComb := result (if p then 1 else 0)
  match idEx.type with
  | .lui => result idEx.imm
  | .auipc => result (idEx.pc + idEx.imm)
  | .addi => result (a + idEx.imm)
  | .slti => flag (a.slt idEx.imm)
  | .sltiu => flag (a.ult idEx.imm)
  | .xori => result (a ^^^ idEx.imm)
  | .ori => result (a ||| idEx.imm)
  | .andi => result (a &&& idEx.imm)
  | .slli => result (a <<< (idEx.imm &&& 0x1F).toNat)
  | .srli => result (a >>> (idEx.imm &&& 0x1F).toNat)
  | .srai => result (a.sshiftRight (idEx.imm &&& 0x1F).toNat)
  | .add => result (a + b)
  | .sub => result (a - b)
  | .sll => result (a <<< (b &&& 0x1F).toNat)
  | .slt => flag (a.slt b)
  | .sltu => flag (a.ult b)
  | .xor => result (a ^^^ b)
  | .srl => result (a >>> (b &&& 0x1F).toNat)
  | .sra => result (a.sshiftRight (b &&& 0x1F).toNat)
  | .or => result (a ||| b)
  | .and => result (a &&& b)
  | .mul | .mulh | .mulhsu | .mulhu | .div | .divu | .rem | .remu =>
    { c with mextReq := some (!i.wbStall), stall := !i.mextRspAck, exRdVal := i.mextResult }
  | .lb | .lh | .lw | .lbu | .lhu | .sb | .sh | .sw
  | .lrW | .scW | .amoswapW | .amoaddW | .amoxorW | .amoandW | .amoorW
  | .amominW | .amomaxW | .amominuW | .amomaxuW =>
    { c with tval := i.dmmuRsp.mmuRspTval, stall := !i.dmmuRsp.mmuRspAck,
             cause := i.dmmuRsp.mmuRspFault.setWidth 32, onTrap := i.dmmuRsp.mmuRspFault != 0,
             dmemReqAck := !i.wbStall }
  | .jal => execJump i c (idEx.pc + idEx.imm)
  | .jalr => execJump i c ((a + idEx.imm) &&& ~~~1)
  | .beq => c.branch idEx (a == b)
  | .bne => c.branch idEx (a != b)
  | .blt => c.branch idEx (a.slt b)
  | .bge => c.branch idEx (!a.slt b)
  | .bltu => c.branch idEx (a.ult b)
  | .bgeu => c.branch idEx (!a.ult b)
  | .fenceI => { c with flush := true, cause := 0, onTrap := false }
  | .sfenceVma =>
    if e.priv = privU ∨ (e.priv = privS ∧ mstatus &&& Mstatus.tvm ≠ 0) then
      { c with cause := ExceptionCause.illegalInstr.code, onTrap := true }
    else { c with tlbFlush := some (b, a), flush := true, cause := 0, onTrap := false }
  | .ecall =>
    { c with epc := idEx.pc, onTrap := true,
             cause := if e.priv = privM then ExceptionCause.ecallM.code
               else if e.priv = privS then ExceptionCause.ecallS.code
               else ExceptionCause.ecallU.code }
  | .ebreak => c.raise .breakpoint idEx.pc
  | .wfi =>
    if e.priv < privS ∨ (e.priv = privS ∧ mstatus &&& Mstatus.tw ≠ 0) then
      { c with cause := ExceptionCause.illegalInstr.code, onTrap := true }
    else { c with stall := e.csrRegs Csr.mie &&& e.getMip i.platform == 0 }
  | .sret =>
    if e.priv = privS ∧ mstatus &&& Mstatus.tsr ≠ 0 then
      { c with cause := ExceptionCause.illegalInstr.code, onTrap := true }
    else { c with csrSret := true, flush := true }
  | .mret => { c with csrMret := true, flush := true }
  | .csrrw | .csrrwi => e.execCsr i c true
  | .csrrs | .csrrc | .csrrsi | .csrrci => e.execCsr i c false
  | .invalid => c.raise .illegalInstr idEx.inst
  | _ => c

/-- The decision part of `EXEC::exec_comb`: reset, interrupt, decoded trap,
executed instruction or bubble. -/
def execComb (e : Exec) (i : ExecIn) : ExecComb :=
  let c : ExecComb := { epc := i.exPc, npc := i.exPc }
  if i.rst then { c with npc := i.entry }
  else match (if !i.wbStall || i.idEx.type == .wfi then e.checkInterrupt i.platform else none) with
    | some cause => { c with cause := cause, onTrap := true }
    | none =>
      if i.idEx.flush then c
      else
        let c := { c with npc := i.exPc + (if i.idEx.isCompressed then 2 else 4) }
        if i.idEx.onTrap then { c with cause := i.idEx.cause, tval := i.idEx.tval, onTrap := true }
        else e.execType i c

end Exec

/-- The output signals of `EXEC` for the coming rising edge. -/
structure ExecOut where
  npc : BitVec 32 := 0
  exWriteRd : Bool := false
  exRdVal : BitVec 32 := 0
  exRd : BitVec 5 := 0
  stall : Bool := false
  flush : Bool := false
  branchTaken : Bool := false
  exToDmmu : DmemIn := {}
  deriving DecidableEq, Repr

namespace Exec

/-- The request that EXEC offers to the DMMU. -/
def mmuReq (i : ExecIn) (c : ExecComb) : DmemIn :=
  let idEx := i.idEx
  { dmemReqAck := c.dmemReqAck
    dmemAddr := if idEx.isAtomic then idEx.rs1Val else idEx.rs1Val + idEx.imm
    dmemWdata := idEx.rs2Val
    dmemSize := idEx.memSize
    dmemIsLoad := idEx.isLoad && !i.rst
    dmemIsStore := idEx.isStore && !i.rst
    dmemIsAmo := idEx.isAtomic && !i.rst
    dmemAmoop := idEx.amoType }

/-- The value written to `rd` by an instruction that neither traps nor stalls. -/
def rdValue (i : ExecIn) (c : ExecComb) : BitVec 32 :=
  if i.dmmuRsp.mmuRspAck then
    if i.idEx.type = .lb then signExtend i.dmmuRsp.mmuRspRdata 8
    else if i.idEx.type = .lh then signExtend i.dmmuRsp.mmuRspRdata 16
    else i.dmmuRsp.mmuRspRdata
  else c.exRdVal

/-- The `npc` output. -/
def npcOut (e : Exec) (i : ExecIn) (c : ExecComb) : BitVec 32 :=
  if c.onTrap then e.trapPc c.cause
  else if c.csrSret then e.csrRegs Csr.sepc &&& ~~~1
  else if c.csrMret then e.csrRegs Csr.mepc &&& ~~~1
  else if c.stall then i.exPc
  else c.npc

/-- The output part of `EXEC::exec_comb`. -/
def execOut (e : Exec) (i : ExecIn) (c : ExecComb) : ExecOut :=
  let quiet := c.onTrap || c.csrSret || c.csrMret || c.stall
  { npc := e.npcOut i c
    exWriteRd := !quiet && i.idEx.writesRd
    exRdVal := if quiet then 0 else rdValue i c
    exRd := i.idEx.rd
    stall := c.stall
    flush := c.onTrap || c.flush
    branchTaken := c.branchTaken
    exToDmmu := mmuReq i c }

end Exec

end Turtle
